import Mathlib
import UcoreSmp.ByteCodec
import UcoreSmp.ErrorCodes

/-!
# Reading and writing by system call

`sysfile_read` and `sysfile_write` move a file through a kernel buffer, one piece after
another.  The file system may stop anywhere, and a part of the user's buffer may be out of
reach.
-/

namespace UcoreSmp.Sysfile

open Bytes

def IOBUF_SIZE : Nat := 4096

/-- `vop_read` or `vop_write` of a file: what it returns and how many bytes it moves when it
is asked for `len` bytes at a position.  Where it returns a positive number, as `stdin_io` does,
that is how many bytes it moved.  Files end long before an `off_t` does. -/
structure Vop where
  io : Nat → Nat → Int × Nat
  counted : ∀ pos len, 0 < (io pos len).1 → (io pos len).1 = (io pos len).2
  moved : ∀ pos len, (io pos len).2 ≤ len

/-- What `file_testfd`, `kmalloc` and `user_mem_check` answer. -/
structure Caller where
  readable : Bool
  writable : Bool
  memory : Bool
  checks : Nat → Nat → Bool

structure IoState where
  pos : Nat
  file : Bytes
  user : Bytes

section Calls

variable (vop : Vop) (caller : Caller)

def readLoop (state : IoState) (base len copied : Nat) : Int × Nat × IoState :=
  if len = 0 then (0, copied, state)
  else
    let (ret, alen) := vop.io state.pos (min IOBUF_SIZE len)
    let next := { state with pos := state.pos + alen }
    -- the position has moved before `copy_to_user` looks at the user's memory
    if alen ≠ 0 ∧ ¬ caller.checks base alen then
      (if ret = 0 then -E_INVAL else ret, copied, next)
    else
      let next := { next with user := state.user.blit base state.file state.pos alen }
      if ret ≠ 0 ∨ alen = 0 then (ret, copied + alen, next)
      else readLoop next (base + alen) (len - alen) (copied + alen)
termination_by len

end Calls

/-- The target has got the bytes that the call says it moved, and the position has moved as
far; nothing else has changed. -/
def Accounted (target source : IoState → Bytes) (place start : Nat) (state : IoState)
    (result : Int × IoState) : Prop :=
  source result.2 = source state ∧
    if 0 < result.1 then result.2.pos = state.pos + result.1 ∧
      target result.2 = (target state).blit place (source state) start result.1.toNat
    else result.2.pos = state.pos ∧ target result.2 = target state

/-- A loop has moved and counted `done` bytes. -/
structure Moves (target source : IoState → Bytes) (place start : Nat) (state : IoState)
    (copied done : Nat) (result : Int × Nat × IoState) : Prop where
  counted : result.2.1 = copied + done
  same : source result.2.2 = source state
  bytes : target result.2.2 = (target state).blit place (source state) start done

section Runs

variable {vop : Vop} {caller : Caller} {state : IoState} {target source : IoState → Bytes}
  {place start len copied done : Nat} {loop : Int × Nat × IoState}

/-- One piece, and then the rest of the loop. -/
theorem Moves.cons {next : IoState} {alen : Nat}
    (rest : Moves target source (place + alen) (start + alen) next (copied + alen) done loop)
    (same : source next = source state)
    (bytes : target next = (target state).blit place (source state) start alen) :
    Moves target source place start state copied (alen + done) loop where
  counted := rest.counted.trans (Nat.add_assoc _ _ _)
  same := rest.same.trans same
  bytes := by rw [rest.bytes, same, bytes, blit_append]

variable (vop caller state) (base len copied : Nat)

end Runs

end UcoreSmp.Sysfile
