import UcoreSmp.SemaphoreRun

/-!
# The monitor

`cond_wait` and `cond_signal` of `kern/sync/monitor.c`, and routines of a monitor
that start with `down(mutex)`, end as `kern/sync/monitor.h` prescribes, and use
only these two in between.  Every read and every write of a counter is a step of
its own, and the calls of `up` and `down` are the routines of the semaphores; so
a thread can be stopped between any two of them.

There is one token.  It lies in a semaphore, is on its way to a thread that has
been woken, or is held by the thread inside the monitor.
-/

namespace UcoreSmp

namespace Monitor

open Semaphores
open Function

/-- Where a thread is in its routine. -/
inductive Point where
  /-- outside every routine -/
  | idle
  /-- blocked in `down(mutex)` -/
  | entering
  /-- in the body of the routine -/
  | body
  /-- at the end, after the test of `next_count` -/
  | leaving (waited : Bool)
  -- `cond_wait`
  | waitCount (cv : Nat) (count : Int)
  | waitTest (cv : Nat)
  | waitRelease (cv : Nat) (waited : Bool)
  | waitDown (cv : Nat)
  | waitBlocked (cv : Nat)
  | waitBack (cv : Nat)
  | waitUncount (cv : Nat) (count : Int)
  -- `cond_signal`
  | signalLoad (cv : Nat)
  | signalCount (cv : Nat) (nextCount : Int)
  | signalUp (cv : Nat)
  | signalDown (cv : Nat)
  | signalBlocked (cv : Nat)
  | signalBack (cv : Nat)
  | signalUncount (cv : Nat) (nextCount : Int)
  deriving DecidableEq, Repr

def mutex : Nat := 0

def next : Nat := 1

def cvSem (cv : Nat) : Nat := cv + 2

/-- `if (next_count > 0) up(&next); else up(&mutex);` after its test. -/
def released (waited : Bool) : Nat := if waited then next else mutex

/-- The calls of `up`: where they stand, and where the thread goes on. -/
def Point.raises : Point → Option (Nat × Point)
  | .leaving waited => some (released waited, .idle)
  | .waitRelease cv waited => some (released waited, .waitDown cv)
  | .signalUp cv => some (cvSem cv, .signalDown cv)
  | _ => none

/-- The calls of `down`: where they stand, where the thread is blocked in them,
and where it goes on. -/
def Point.lowers : Point → Option (Nat × Point × Point)
  | .idle => some (mutex, .entering, .body)
  | .waitDown cv => some (cvSem cv, .waitBlocked cv, .waitBack cv)
  | .signalDown cv => some (next, .signalBlocked cv, .signalBack cv)
  | _ => none

/-- The semaphore in whose `down` the thread is blocked, and where it goes on. -/
def Point.blockedOn : Point → Option (Nat × Point)
  | .entering => some (mutex, .body)
  | .waitBlocked cv => some (cvSem cv, .waitBack cv)
  | .signalBlocked cv => some (next, .signalBack cv)
  | _ => none

/-- The counters of the monitor, and the data that its routines work on. -/
structure Shared (δ : Type*) where
  nextCount : Int
  count : Nat → Int
  data : δ

/-- The steps between the calls of the semaphores. -/
inductive LocalStep {δ : Type*} : Point → Shared δ → Point → Shared δ → Prop where
  /-- the body of a routine -/
  | work (shared : Shared δ) (data : δ) :
      LocalStep .body shared .body { shared with data := data }
  | leave (shared : Shared δ) :
      LocalStep .body shared (.leaving (0 < shared.nextCount)) shared
  -- `cond_wait`: `cvp->count ++`
  | waitCall (shared : Shared δ) (cv : Nat) :
      LocalStep .body shared (.waitCount cv (shared.count cv)) shared
  | waitCount (shared : Shared δ) (cv : Nat) (count : Int) :
      LocalStep (.waitCount cv count) shared (.waitTest cv)
        { shared with count := update shared.count cv (count + 1) }
  -- `if (cvp->owner->next_count > 0)`
  | waitTest (shared : Shared δ) (cv : Nat) :
      LocalStep (.waitTest cv) shared (.waitRelease cv (0 < shared.nextCount)) shared
  -- `cvp->count --`
  | waitBack (shared : Shared δ) (cv : Nat) :
      LocalStep (.waitBack cv) shared (.waitUncount cv (shared.count cv)) shared
  | waitUncount (shared : Shared δ) (cv : Nat) (count : Int) :
      LocalStep (.waitUncount cv count) shared .body
        { shared with count := update shared.count cv (count - 1) }
  -- `cond_signal`: `if (cvp->count > 0)`
  | signalCall (shared : Shared δ) (cv : Nat) (waited : 0 < shared.count cv) :
      LocalStep .body shared (.signalLoad cv) shared
  | signalSkip (shared : Shared δ) (cv : Nat) (nobody : ¬ 0 < shared.count cv) :
      LocalStep .body shared .body shared
  -- `cvp->owner->next_count ++`
  | signalLoad (shared : Shared δ) (cv : Nat) :
      LocalStep (.signalLoad cv) shared (.signalCount cv shared.nextCount) shared
  | signalCount (shared : Shared δ) (cv : Nat) (nextCount : Int) :
      LocalStep (.signalCount cv nextCount) shared (.signalUp cv)
        { shared with nextCount := nextCount + 1 }
  -- `cvp->owner->next_count --`
  | signalBack (shared : Shared δ) (cv : Nat) :
      LocalStep (.signalBack cv) shared (.signalUncount cv shared.nextCount) shared
  | signalUncount (shared : Shared δ) (cv : Nat) (nextCount : Int) :
      LocalStep (.signalUncount cv nextCount) shared .body
        { shared with nextCount := nextCount - 1 }

structure MonitorState (δ : Type*) where
  sem : SemState
  shared : Shared δ
  point : Nat → Point

variable {δ : Type*}

/-- A step of the thread, or one that has nothing to do with the monitor. -/
inductive MonitorStep : MonitorState δ → MonitorState δ → Prop where
  | run {state : MonitorState δ} {t : Nat} {point : Point} {shared : Shared δ}
      (step : LocalStep (state.point t) state.shared point shared) :
      MonitorStep state ⟨state.sem, shared, update state.point t point⟩
  | up {state : MonitorState δ} {t sem : Nat} {point : Point} {woken : Option Nat}
      {sems : SemState} (call : (state.point t).raises = some (sem, point))
      (returns : up sem state.sem = .ok (woken, sems)) :
      MonitorStep state ⟨sems, state.shared, update state.point t point⟩
  | down {state : MonitorState δ} {t sem : Nat} {blocked done : Point} {got : Bool}
      {sems : SemState} (call : (state.point t).lowers = some (sem, blocked, done))
      (running : (state.sem.threads t).place = .outside)
      (returns : downStart sem t state.sem = .ok (got, sems)) :
      MonitorStep state ⟨sems, state.shared, update state.point t (if got then done else blocked)⟩
  | resume {state : MonitorState δ} {t sem : Nat} {done : Point} {sems : SemState}
      (call : (state.point t).blockedOn = some (sem, done))
      (scheduled : (state.sem.threads t).state = .runnable)
      (returns : downFinish sem t state.sem = .ok (PUnit.unit, sems)) :
      MonitorStep state ⟨sems, state.shared, update state.point t done⟩
  | elsewhere {state : MonitorState δ} {event : SemEvent} {sems : SemState}
      (unrelated : event.Elsewhere) (step : SemStep state.sem event sems) :
      MonitorStep state { state with sem := sems }

/-- `monitor_init` has returned, and no thread has called a routine yet. -/
structure MonitorState.Initial (state : MonitorState δ) : Prop where
  sems : state.sem.Initial fun sem => if sem = mutex then 1 else 0
  nextCount : state.shared.nextCount = 0
  count : ∀ cv, state.shared.count cv = 0
  idle : ∀ t, state.point t = .idle

inductive Reached : MonitorState δ → Prop where
  | start {state : MonitorState δ} (starts : state.Initial) : Reached state
  | step {state after : MonitorState δ} (reached : Reached state)
      (step : MonitorStep state after) : Reached after

/-! ## The places of a routine -/

/-- The thread executes inside the monitor. -/
def Point.Inside : Point → Prop
  | .body | .leaving _ | .waitCount _ _ | .waitTest _ | .waitRelease _ _ | .waitBack _
  | .waitUncount _ _ | .signalLoad _ | .signalCount _ _ | .signalUp _ | .signalBack _
  | .signalUncount _ _ => True
  | _ => False

/-- The thread is in `cond_wait`, between `count ++` and `count --`. -/
def Point.Waits (cv : Nat) : Point → Prop
  | .waitTest other | .waitRelease other _ | .waitDown other | .waitBlocked other
  | .waitBack other | .waitUncount other _ => other = cv
  | _ => False

/-- The thread is in `cond_signal`, between `next_count ++` and `next_count --`. -/
def Point.Signals : Point → Prop
  | .signalUp _ | .signalDown _ | .signalBlocked _ | .signalBack _ | .signalUncount _ _ => True
  | _ => False

/-- The thread is suspended in `cond_wait`: it has given up the monitor and its
`down` has not returned. -/
def Point.SuspendedWait (cv : Nat) (point : Point) : Prop :=
  point = .waitDown cv ∨ point = .waitBlocked cv

/-- The thread is suspended in `cond_signal`. -/
def Point.SuspendedSignal (point : Point) : Prop :=
  ∃ cv, point = .signalDown cv ∨ point = .signalBlocked cv

end Monitor

end UcoreSmp
