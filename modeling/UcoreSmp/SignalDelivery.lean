import UcoreSmp.DequeueSignal
import UcoreSmp.ErrorCodes

/-!
# From sending a signal to handling it

`group_send_sig_info` of ucore_plus puts a signal into the `signal_struct` of a thread and sets the
flag of a thread that wants it.  `do_signal` of a thread whose flag is set dequeues signals until
one calls a handler or ends the thread.  No two threads share a `signal_struct`, so a signal is
stuck where the flag of another thread is set.
-/

namespace UcoreSmp.Plus

open Function

inductive SigHandler where
  | dfl
  | ign
  | user
  deriving DecidableEq

/-- An entry of `sighand->action`; the flags are `SA_NODEFER` and `SA_ONESHOT`. -/
structure SigAction where
  handler : SigHandler
  mask : SigSet
  nodefer : Bool
  oneshot : Bool

structure SigProc where
  thread : SigThread
  /-- `PF_EXITING` or `PROC_ZOMBIE` -/
  exiting : Bool
  isInit : Bool
  hasSighand : Bool
  action : Nat → SigAction
  /-- the signals for which `__sig_setup_frame` succeeds -/
  framed : Nat → Bool

/-- Threads, and a thread group in the order of `next_thread`, from the `curr_target` of the
receiver on. -/
structure SigGroup where
  threads : Nat → SigProc
  order : List Nat

namespace SigGroup

variable (group : SigGroup)

def change (p : Nat) (f : SigThread → SigThread) : SigGroup :=
  let proc := group.threads p
  { group with threads := update group.threads p { proc with thread := f proc.thread } }

end SigGroup

namespace SigProc

variable (proc : SigProc)

end SigProc

section Serve

variable {proc : SigProc} {todo : List Nat} {sign target : Nat}

end Serve

section Send

variable {group : SigGroup} {sign dest : Nat} {inside : Bool}

end Send

end UcoreSmp.Plus
