import Mathlib

/-!
# The keyboard buffer

`dev_stdin_write` runs in the interrupt of the keyboard and `dev_stdin_read` in
any number of processes, both with the interrupts off.  A reader gives up the CPU
only where the buffer is empty.
-/

namespace UcoreSmp

namespace Stdin

open Function

def STDIN_BUFSIZE : Nat := 4096

def int32 (n : Int) : Int := (n + 2 ^ 31) % 2 ^ 32 - 2 ^ 31

/-- The index `pos % STDIN_BUFSIZE`, with the sign of the position. -/
def slot (pos : Int) : Int :=
  if 0 ≤ pos then pos % STDIN_BUFSIZE else -(-pos % STDIN_BUFSIZE)

/-- Where a process is in `dev_stdin_read`, with the characters to go: outside, at
`try_again`, or asleep. -/
inductive Reader where
  | outside
  | trying (left : Nat)
  | asleep (left : Nat)

/-- `wakeup_queue` with `WT_KBD`. -/
def Reader.wake : Reader → Reader
  | asleep left => trying left
  | reader => reader

/-- The buffer with the memory around it, the positions, the readers, and what was
accepted and delivered so far. -/
structure StdinState where
  buffer : Int → UInt8
  rpos : Int
  wpos : Int
  readers : Nat → Reader
  accepted : List UInt8
  delivered : List UInt8

/-- An interrupt, a call, a reader that goes on, or one that is woken for another
reason and returns. -/
inductive Event where
  | write (c : UInt8)
  | call (t len : Nat)
  | read (t : Nat)
  | broken (t : Nat)

namespace StdinState

variable {state : StdinState} {c : UInt8}

def devStdinWrite (state : StdinState) (c : UInt8) : StdinState :=
  if c = 0 then state
  else
    let room := int32 (state.wpos - state.rpos) < STDIN_BUFSIZE
    { state with
      -- The character is stored before the room is looked at.
      buffer := update state.buffer (slot state.wpos) c
      wpos := if room then int32 (state.wpos + 1) else state.wpos
      readers := fun t => (state.readers t).wake
      accepted := if room then state.accepted ++ [c] else state.accepted }

def setReader (state : StdinState) (t : Nat) (reader : Reader) : StdinState :=
  { state with readers := update state.readers t reader }

def take (state : StdinState) : StdinState :=
  { state with
    rpos := int32 (state.rpos + 1)
    delivered := state.delivered ++ [state.buffer (slot state.rpos)] }

/-- The loop of `dev_stdin_read` up to where it ends or sleeps. -/
def readLoop (t : Nat) : Nat → StdinState → StdinState
  | 0, state => state.setReader t .outside
  | left + 1, state =>
    if state.rpos < state.wpos then readLoop t left state.take
    else state.setReader t (.asleep (left + 1))

def step (state : StdinState) : Event → StdinState
  | .write c => state.devStdinWrite c
  | .call t len =>
    match state.readers t with
    | .outside => state.setReader t (.trying len)
    | _ => state
  | .read t =>
    match state.readers t with
    | .trying left => readLoop t left state
    | _ => state
  | .broken t =>
    match state.readers t with
    | .asleep _ => state.setReader t .outside
    | _ => state

def run (state : StdinState) (events : List Event) : StdinState := events.foldl step state

def start : StdinState := ⟨fun _ => 0, 0, 0, fun _ => .outside, [], []⟩

/-- The number of characters that wait in the buffer. -/
def buffered (state : StdinState) : Nat := state.accepted.length - state.delivered.length

/-- No character arrives at a full buffer. -/
def Roomy (state : StdinState) : List Event → Prop
  | [] => True
  | event :: rest => (∀ c, event = .write c → c ≠ 0 → state.buffered < STDIN_BUFSIZE) ∧
      (state.step event).Roomy rest

structure Kept (state : StdinState) : Prop where
  isPrefix : state.delivered <+: state.accepted
  full : state.accepted.length ≤ state.delivered.length + STDIN_BUFSIZE
  small : state.delivered.length < 2 ^ 31
  rpos : state.rpos = state.delivered.length
  wpos : state.wpos = int32 state.accepted.length
  unread : ∀ i, state.delivered.length ≤ i → i < state.accepted.length → i < 2 ^ 31 →
    state.accepted[i]? = some (state.buffer (slot i))

namespace Kept

variable (kept : state.Kept)

include kept

theorem room_iff : int32 (state.wpos - state.rpos) < STDIN_BUFSIZE ↔
    state.buffered < STDIN_BUFSIZE := by
  have := kept.isPrefix.length_le
  have := kept.full
  have := kept.small
  rw [kept.wpos, kept.rpos, buffered]
  unfold int32 STDIN_BUFSIZE at *
  omega

theorem devStdinWrite (room : c ≠ 0 → state.buffered < STDIN_BUFSIZE) :
    (state.devStdinWrite c).Kept := by
  unfold StdinState.devStdinWrite
  split
  · exact kept
  next notNul =>
  have room := room notNul
  simp only [kept.room_iff, room, if_true]
  have ordered := kept.isPrefix.length_le
  have small := kept.small
  unfold buffered STDIN_BUFSIZE at room
  refine ⟨kept.isPrefix.trans (List.prefix_append _ _), ?_, small, kept.rpos, ?_, ?_⟩
  · simp only [List.length_append, List.length_singleton, STDIN_BUFSIZE]
    omega
  · simp only [List.length_append, List.length_singleton, kept.wpos, int32]
    omega
  simp only [List.length_append, List.length_singleton, kept.wpos]
  intro i notRead inside below
  by_cases new : i = state.accepted.length
  · have : slot i = slot (int32 state.accepted.length) := by
      unfold slot int32 STDIN_BUFSIZE
      split <;> omega
    rw [this, update_self, new, List.getElem?_concat_length]
  have apart : slot i ≠ slot (int32 state.accepted.length) := by
    unfold slot int32 STDIN_BUFSIZE
    split <;> split <;> omega
  rw [update_of_ne apart, List.getElem?_append_left (by omega)]
  exact kept.unread i notRead (by omega) below

theorem take (some : state.rpos < state.wpos) : state.take.Kept := by
  have full := kept.full
  have small := kept.small
  rw [kept.rpos, kept.wpos] at some
  have more : state.delivered.length < state.accepted.length ∧ state.accepted.length < 2 ^ 31 := by
    unfold int32 STDIN_BUFSIZE at *
    omega
  have char := kept.unread _ le_rfl more.1 small
  rw [List.getElem?_eq_getElem more.1, Option.some_inj] at char
  unfold StdinState.take
  refine ⟨?_, ?_, ?_, ?_, kept.wpos, ?_⟩ <;>
    simp only [kept.rpos, ← char, List.length_append, List.length_singleton]
  · exact List.concat_get_prefix kept.isPrefix more.1
  · omega
  · omega
  · unfold int32
    omega
  · exact fun i notRead => kept.unread i (by omega)

theorem setReader (t : Nat) (reader : Reader) : (state.setReader t reader).Kept :=
  ⟨kept.1, kept.2, kept.3, kept.4, kept.5, kept.6⟩

theorem readLoop (t left : Nat) : (state.readLoop t left).Kept := by
  induction left generalizing state with
  | zero => exact kept.setReader t _
  | succ left induction =>
    rw [StdinState.readLoop]
    split
    · next some => exact induction (kept.take some)
    · exact kept.setReader t _

theorem step (event : Event)
    (room : ∀ c, event = .write c → c ≠ 0 → state.buffered < STDIN_BUFSIZE) :
    (state.step event).Kept := by
  cases event with
  | write c => exact kept.devStdinWrite (room c rfl)
  | call t len => unfold StdinState.step; grind [setReader]
  | read t => unfold StdinState.step; grind [readLoop]
  | broken t => unfold StdinState.step; grind [setReader]

theorem run {events : List Event} (room : state.Roomy events) : (state.run events).Kept := by
  induction events generalizing state with
  | nil => exact kept
  | cons event rest induction => exact induction (kept.step event room.1) room.2

end Kept

end StdinState

end Stdin

end UcoreSmp
