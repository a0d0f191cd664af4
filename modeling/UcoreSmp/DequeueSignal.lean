import Mathlib.Data.BitVec

/-!
# Dequeueing signals

`dequeue_signal` of ucore_plus yields the pending signals of a thread one by one: first those of
its private set, then those of the set in its `signal_struct`.  Signal `n` is bit `n - 1`.
-/

namespace UcoreSmp.Plus

abbrev SigSet := BitVec 64

/-- The sets of a thread, with the `shared_pending` of its `signal_struct`. -/
structure SigThread where
  blocked : SigSet
  pending : SigSet
  shared : SigSet
  /-- `TIF_SIGPENDING` -/
  flag : Bool
  deriving DecidableEq

def sigismember (set : SigSet) (sign : Nat) : Bool := set.getLsbD (sign - 1)

def deliverable (blocked set : SigSet) (sign : Nat) : Bool :=
  !sigismember blocked sign && sigismember set sign

/-- All that the loop can find in a set. -/
def scan (blocked set : SigSet) : List Nat := (List.range' 1 63).filter (deliverable blocked set)

variable {blocked set : SigSet} {sign : Nat}

variable {thread : SigThread} {rest : List Nat}

end UcoreSmp.Plus
