import UcoreSmp.Headcount
import UcoreSmp.Semaphore

/-!
# Runs of the kernel semaphores

Threads call `up`, `down` and `try_down` in any interleaving, while other sleeps
begin and end, timers expire and threads are killed.  A thread in `down` is
either queued and asleep, or has been handed a wakeup and will return.  `Orderly`
ties the wait queues to the states of the threads; `Accounted` balances the
completed calls of the history against the value and the wakeups on their way.
-/

namespace UcoreSmp

namespace Semaphores

open Thread

/-- The thread is queued in the semaphore. -/
def Thread.Waiting (thread : Thread) (sem : Nat) : Prop :=
  thread.place = .down sem ∧ thread.state = .sleeping

open Thread

/-- The thread has been handed a wakeup and has not returned from `down` yet. -/
def Thread.Handed (thread : Thread) (sem : Nat) : Prop :=
  thread.place = .down sem ∧ thread.state = .runnable

def Thread.Posture (thread : Thread) : Prop :=
  match thread.place with
  | .outside => thread.timer = false ∧ thread.wait.linked = false
  | .asleep => thread.wait.linked = false ∧
      (thread.timer = true → thread.waitState = WT_TIMER ∨ thread.waitState = 0)
  | .down sem => thread.timer = false ∧
      ((thread.state = .sleeping ∧ thread.waitState = WT_KSEM ∧
          thread.wait.linked = true ∧ thread.wait.waitQueue = sem) ∨
        (thread.state = .runnable ∧ thread.waitState = 0 ∧
          thread.wait.linked = false ∧ thread.wait.wakeupFlags = WT_KSEM))

/-- The wait queues hold the waiting threads, and a positive value means that
there is none. -/
structure Orderly (state : SemState) : Prop where
  queued : ∀ sem t, t ∈ (state.sems sem).waitQueue ↔ (state.threads t).Waiting sem
  nodup : ∀ sem, (state.sems sem).waitQueue.Nodup
  idle : ∀ sem, 0 < (state.sems sem).value → (state.sems sem).waitQueue = []
  posture : ∀ t, (state.threads t).Posture

inductive SemEvent where
  /-- `up`, with the thread that it wakes -/
  | up (sem : Nat) (woken : Option Nat)
  | tryDown (sem : Nat) (got : Bool)
  /-- the first half of `down`, and whether the call is done -/
  | down (sem t : Nat) (got : Bool)
  /-- the second half of `down` -/
  | resume (sem t : Nat)
  | kill (t : Nat)
  | sleep (t : Nat)
  | wake (t : Nat)
  | expire (t : Nat)
  | leave (t : Nat)
  | change (t : Nat)
  deriving DecidableEq, Repr

open SemEvent

/-- One step: a critical section of a thread or of an interrupt handler.  A
thread that is not in the wait or the sleep of the model may change in any way:
it can exit, or be another thread that was just forked. -/
inductive SemStep : SemState → SemEvent → SemState → Prop where
  | up {state next : SemState} {sem : Nat} {woken : Option Nat}
      (returns : up sem state = .ok (woken, next)) : SemStep state (.up sem woken) next
  | tryDown {state next : SemState} {sem : Nat} {got : Bool}
      (returns : tryDown sem state = .ok (got, next)) :
      SemStep state (.tryDown sem got) next
  | down {state next : SemState} {sem t : Nat} {got : Bool}
      (outside : (state.threads t).place = .outside)
      (returns : downStart sem t state = .ok (got, next)) :
      SemStep state (.down sem t got) next
  | resume {state next : SemState} {sem t : Nat}
      (inside : (state.threads t).place = .down sem)
      (scheduled : (state.threads t).state = .runnable)
      (returns : downFinish sem t state = .ok (PUnit.unit, next)) :
      SemStep state (.resume sem t) next
  | kill {state next : SemState} {t : Nat} {result : Int}
      (returns : doKill t state = .ok (result, next)) : SemStep state (.kill t) next
  | sleep {state next : SemState} {t : Nat} {waitState : BitVec 32} {timer : Bool}
      (outside : (state.threads t).place = .outside)
      (timed : timer = true → waitState = WT_TIMER)
      (returns : goToSleep t waitState timer state = .ok (PUnit.unit, next)) :
      SemStep state (.sleep t) next
  | wake {state next : SemState} {t : Nat}
      (asleep : (state.threads t).place = .asleep)
      (returns : wakeupProc t state = .ok (PUnit.unit, next)) : SemStep state (.wake t) next
  | expire {state next : SemState} {t : Nat}
      (pending : (state.threads t).timer = true)
      (returns : expireTimer t state = .ok (PUnit.unit, next)) :
      SemStep state (.expire t) next
  | leave {state next : SemState} {t : Nat}
      (asleep : (state.threads t).place = .asleep)
      (returns : leaveSleep t state = .ok (PUnit.unit, next)) :
      SemStep state (.leave t) next
  | change {state : SemState} {t : Nat} {thread : Thread}
      (outside : (state.threads t).place = .outside) (stays : thread.place = .outside)
      (untimed : thread.timer = false) (unlinked : thread.wait.linked = false) :
      SemStep state (.change t) (state.setThread t thread)

structure SemState.Initial (initial : Nat → Int) (state : SemState) : Prop where
  sems : ∀ sem, state.sems sem = ⟨initial sem, []⟩
  outside : ∀ t, (state.threads t).place = .outside
  untimed : ∀ t, (state.threads t).timer = false
  unlinked : ∀ t, (state.threads t).wait.linked = false

/-- A run, with its events from the last to the first. -/
inductive SemRun (initial : Nat → Int) : List SemEvent → SemState → Prop where
  | start {state : SemState} (starts : state.Initial initial) : SemRun initial [] state
  | step {history : List SemEvent} {state next : SemState} {event : SemEvent}
      (run : SemRun initial history state) (step : SemStep state event next) :
      SemRun initial (event :: history) next

/-! ## Reading the history -/

def SemEvent.completes (sem : Nat) : SemEvent → Bool
  | .tryDown other got => other == sem && got
  | .down other _ got => other == sem && got
  | .resume other _ => other == sem
  | _ => false

def SemEvent.raises (sem : Nat) : SemEvent → Bool
  | .up other _ => other == sem
  | _ => false

def SemEvent.arrival (sem : Nat) : SemEvent → Option Nat
  | .down other t false => if other = sem then some t else none
  | _ => none

def SemEvent.departure (sem : Nat) : SemEvent → Option Nat
  | .up other woken => if other = sem then woken else none
  | _ => none

def downs (sem : Nat) (history : List SemEvent) : Nat :=
  history.countP (completes sem)

def ups (sem : Nat) (history : List SemEvent) : Nat :=
  history.countP (raises sem)

/-- The threads that blocked in the semaphore, in the order of their arrival. -/
def arrivals (sem : Nat) (history : List SemEvent) : List Nat :=
  (history.filterMap (arrival sem)).reverse

/-- The threads that were released, in the order of their release. -/
def departures (sem : Nat) (history : List SemEvent) : List Nat :=
  (history.filterMap (departure sem)).reverse

/-- The semaphore balances with the history. -/
structure Accounted (initial : Nat → Int) (history : List SemEvent) (state : SemState)
    (sem : Nat) : Prop where
  balance : ∃ handed : Nat, Headcount (fun t => (state.threads t).Handed sem) handed ∧
    (downs sem history : Int) + (state.sems sem).value + handed = initial sem + ups sem history
  order : arrivals sem history = departures sem history ++ (state.sems sem).waitQueue

/-! ## Steps that leave the semaphores alone -/

/-- The thread changes, but not what the semaphores see of it. -/
structure Thread.Calm (thread thread' : Thread) : Prop where
  posture : thread'.Posture
  waiting : ∀ sem, thread'.Waiting sem ↔ thread.Waiting sem
  handed : ∀ sem, thread'.Handed sem ↔ thread.Handed sem

variable {t : Nat} {thread : Thread} {state next : SemState} {rest : List Nat} {initial : Nat → Int}

theorem wakeupProc_cases : ∀ result next, wakeupProc t state = .ok (result, next) →
    next = state ∨
      next = state.setThread t { state.threads t with state := .runnable, waitState := 0 } := by
  refine Ends.returned ?_
  simp [wakeupProc, updateThread]

theorem doKill_cases : ∀ result next, doKill t state = .ok (result, next) →
    next = state ∨ next = state.setThread t { state.threads t with exiting := true } ∨
      ((state.threads t).waitState &&& WT_INTERRUPTED ≠ 0 ∧
        next = state.setThread t
          { state.threads t with exiting := true, state := .runnable, waitState := 0 }) := by
  refine Ends.returned ?_
  simp +contextual [doKill, wakeupProc, updateThread, -bind_pure_comp]

theorem expireTimer_cases : ∀ result next, expireTimer t state = .ok (result, next) →
    next = state.setThread t { state.threads t with timer := false } ∨
      next = state.setThread t
        { state.threads t with timer := false, state := .runnable, waitState := 0 } := by
  refine Ends.returned ?_
  simp [expireTimer, wakeupProc, updateThread]

theorem Orderly.not_interruptible (orderly : Orderly state) {sem : Nat}
    (inside : (state.threads t).place = .down sem) :
    (state.threads t).waitState &&& WT_INTERRUPTED = 0 := by
  have posture := orderly.posture t
  rw [Posture, inside] at posture
  obtain ⟨-, ⟨-, waits, -⟩ | ⟨-, waits, -⟩⟩ := posture
  · rw [waits]
    decide
  · rw [waits]
    decide

theorem Thread.calm_elsewhere {thread' : Thread} (posture : thread'.Posture)
    (before : ∀ sem, thread.place ≠ .down sem) (after : ∀ sem, thread'.place ≠ .down sem) :
    thread.Calm thread' where
  posture := posture
  waiting := fun sem => by
    simp [Waiting, before sem, after sem]
  handed := fun sem => by
    simp [Handed, before sem, after sem]

def SemState.Calms (state next : SemState) (t : Nat) : Prop :=
  ∃ thread, next = state.setThread t thread ∧ (state.threads t).Calm thread

theorem Thread.calm_refl (posture : thread.Posture) : thread.Calm thread :=
  ⟨posture, fun _ => Iff.rfl, fun _ => Iff.rfl⟩

section

variable (orderly : Orderly state)

include orderly

/-- `do_kill` cannot disturb a thread in `down`. -/
theorem Orderly.calm_kill {result : Int} (returns : doKill t state = .ok (result, next)) :
    state.Calms next t := by
  have posture := orderly.posture t
  obtain rfl | rfl | ⟨interruptible, rfl⟩ := doKill_cases _ _ returns
  · exact ⟨next.threads t, by simp [SemState.setThread], calm_refl posture⟩
  · exact ⟨_, rfl, posture, fun _ => Iff.rfl, fun _ => Iff.rfl⟩
  refine ⟨_, rfl, ?_⟩
  have elsewhere : ∀ sem, (state.threads t).place ≠ .down sem := fun sem inside =>
    interruptible (orderly.not_interruptible inside)
  refine calm_elsewhere ?_ elsewhere elsewhere
  cases place : (state.threads t).place with
  | outside =>
    simp only [Posture, place] at posture ⊢
    exact posture
  | asleep =>
    simp only [Posture, place] at posture ⊢
    exact ⟨posture.1, fun _ => .inr trivial⟩
  | down sem => exact absurd place (elsewhere sem)

theorem Orderly.calm_wake (asleep : (state.threads t).place = .asleep)
    (returns : wakeupProc t state = .ok ((), next)) : state.Calms next t := by
  have posture := orderly.posture t
  obtain rfl | rfl := wakeupProc_cases _ _ returns
  · exact ⟨next.threads t, by simp [SemState.setThread], calm_refl posture⟩
  refine ⟨_, rfl, calm_elsewhere ?_ (by simp [asleep]) (by simp [asleep])⟩
  simp only [Posture, asleep] at posture ⊢
  exact ⟨posture.1, fun _ => .inr trivial⟩

theorem Orderly.calm_expire (pending : (state.threads t).timer = true)
    (returns : expireTimer t state = .ok ((), next)) : state.Calms next t := by
  have posture := orderly.posture t
  have asleep : (state.threads t).place = .asleep := by
    cases place : (state.threads t).place with
    | asleep => rfl
    | outside | down => simp [Posture, place, pending] at posture
  have unlinked : (state.threads t).wait.linked = false := by
    simp only [Posture, asleep] at posture
    exact posture.1
  obtain rfl | rfl := expireTimer_cases _ _ returns
  · refine ⟨_, rfl, calm_elsewhere ?_ (by simp [asleep]) (by simp [asleep])⟩
    simp [Posture, asleep, unlinked]
  · refine ⟨_, rfl, calm_elsewhere ?_ (by simp [asleep]) (by simp [asleep])⟩
    simp [Posture, asleep, unlinked]

theorem Orderly.calm_sleep {waitState : BitVec 32} {timer : Bool}
    (outside : (state.threads t).place = .outside) (timed : timer = true → waitState = WT_TIMER)
    (returns : goToSleep t waitState timer state = .ok ((), next)) : state.Calms next t := by
  have posture := orderly.posture t
  simp only [Posture, outside] at posture
  rw [goToSleep, run_updateThread, Except.ok.injEq, Prod.mk.injEq] at returns
  refine ⟨_, returns.2.symm, calm_elsewhere ?_ (by simp [outside]) (by simp)⟩
  exact ⟨posture.2, fun started => .inl (timed started)⟩

theorem Orderly.calm_leave (asleep : (state.threads t).place = .asleep)
    (returns : leaveSleep t state = .ok ((), next)) : state.Calms next t := by
  have posture := orderly.posture t
  simp only [Posture, asleep] at posture
  rw [leaveSleep, run_updateThread, Except.ok.injEq, Prod.mk.injEq] at returns
  refine ⟨_, returns.2.symm, calm_elsewhere ?_ (by simp [asleep]) (by simp)⟩
  exact ⟨rfl, posture.1⟩

end

/-! ## Steps of a semaphore -/

def SemState.raise (state : SemState) (sem : Nat) : SemState :=
  state.setSem sem { state.sems sem with value := (state.sems sem).value + 1 }

def SemState.handOver (state : SemState) (sem t : Nat) (rest : List Nat) : SemState :=
  (state.setThread t (state.threads t).handedOver).setSem sem
    { state.sems sem with waitQueue := rest }

def SemState.lower (state : SemState) (sem : Nat) : SemState :=
  state.setSem sem { state.sems sem with value := (state.sems sem).value - 1 }

def SemState.block (state : SemState) (sem t : Nat) : SemState :=
  (state.setThread t ((state.threads t).blocked sem)).setSem sem
    { state.sems sem with waitQueue := (state.sems sem).waitQueue ++ [t] }

def SemState.finish (state : SemState) (t : Nat) : SemState :=
  state.setThread t (state.threads t).passed

section Threads

variable {sem other u : Nat}

theorem handed_handOver (waiting : (state.threads t).Waiting sem) :
    ((state.handOver sem t rest).threads u).Handed other ↔
      (u = t ∧ other = sem) ∨ (state.threads u).Handed other := by
  by_cases same : u = t
  · subst same
    simp [SemState.handOver, handedOver, Handed, waiting.1, waiting.2, eq_comm]
  · simp [SemState.handOver, same]

theorem handed_block (outside : (state.threads t).place = .outside) :
    ((state.block sem t).threads u).Handed other ↔ (state.threads u).Handed other := by
  by_cases same : u = t
  · subst same
    simp [SemState.block, blocked, Handed, outside]
  · simp [SemState.block, same]

theorem handed_finish (handed : (state.threads t).Handed sem) :
    ((state.finish t).threads u).Handed other ↔ u ≠ t ∧ (state.threads u).Handed other := by
  by_cases same : u = t
  · subst same
    simp [SemState.finish, passed, Handed]
  · simp [SemState.finish, same]

end Threads

namespace Orderly

variable {sem : Nat}

section

variable (orderly : Orderly state)

include orderly

/-- At most one semaphore and one thread change. -/
theorem change (sem t : Nat) (sems : ∀ other, other ≠ sem → next.sems other = state.sems other)
    (threads : ∀ u, u ≠ t → next.threads u = state.threads u)
    (queue : ∀ u, u ≠ t → (u ∈ (next.sems sem).waitQueue ↔ u ∈ (state.sems sem).waitQueue))
    (own : t ∈ (next.sems sem).waitQueue ↔ (next.threads t).Waiting sem)
    (waiting : ∀ other, other ≠ sem →
      ((next.threads t).Waiting other ↔ (state.threads t).Waiting other))
    (nodup : (next.sems sem).waitQueue.Nodup)
    (idle : 0 < (next.sems sem).value → (next.sems sem).waitQueue = [])
    (posture : (next.threads t).Posture) : Orderly next where
  queued other u := by
    by_cases isSem : other = sem
    · subst isSem
      by_cases isThread : u = t
      · rw [isThread, own]
      · rw [queue u isThread, threads u isThread, orderly.queued]
    rw [sems other isSem, orderly.queued]
    by_cases isThread : u = t
    · rw [isThread, waiting other isSem]
    · rw [threads u isThread]
  nodup other := by
    by_cases isSem : other = sem
    · exact isSem ▸ nodup
    · exact sems other isSem ▸ orderly.nodup other
  idle other := by
    by_cases isSem : other = sem
    · exact isSem ▸ idle
    · exact sems other isSem ▸ orderly.idle other
  posture u := by
    by_cases isThread : u = t
    · exact isThread ▸ posture
    · exact threads u isThread ▸ orderly.posture u

theorem calm (calm : (state.threads t).Calm thread) : Orderly (state.setThread t thread) := by
  apply orderly.change 0 t
  · exact fun _ _ => rfl
  · intro u apart
    simp [apart]
  · exact fun _ _ => Iff.rfl
  · simpa [calm.waiting] using orderly.queued 0 t
  · intro other _
    simp [calm.waiting]
  · exact orderly.nodup 0
  · exact orderly.idle 0
  · simpa using calm.posture

theorem calm_threads (calm : (state.threads t).Calm thread) (u : Nat) :
    (state.threads u).Calm ((state.setThread t thread).threads u) := by
  by_cases same : u = t
  · subst same
    simpa using calm
  · simpa [same] using calm_refl (orderly.posture u)

theorem setValue {value : Int} (idle : 0 < value → (state.sems sem).waitQueue = []) :
    Orderly (state.setSem sem { state.sems sem with value := value }) := by
  apply orderly.change sem 0
  · intro other apart
    simp [apart]
  · exact fun _ _ => rfl
  · simp
  · simpa using orderly.queued sem 0
  · exact fun _ _ => Iff.rfl
  · simpa using orderly.nodup sem
  · simpa using idle
  · exact orderly.posture 0

theorem raise (empty : (state.sems sem).waitQueue = []) : Orderly (state.raise sem) :=
  orderly.setValue fun _ => empty

theorem lower (positive : 0 < (state.sems sem).value) : Orderly (state.lower sem) :=
  orderly.setValue fun _ => orderly.idle sem positive

theorem waiting_posture (waiting : (state.threads t).Waiting sem) :
    (state.threads t).waitState = WT_KSEM ∧ (state.threads t).wait.linked = true ∧
      (state.threads t).wait.waitQueue = sem ∧ (state.threads t).timer = false := by
  have posture := orderly.posture t
  rw [Posture, waiting.1] at posture
  obtain ⟨untimed, ⟨-, waits, linked, queue⟩ | ⟨runnable, -⟩⟩ := posture
  · exact ⟨waits, linked, queue, untimed⟩
  · rw [waiting.2] at runnable
    cases runnable

theorem handed_posture (handed : (state.threads t).Handed sem) : (state.threads t).wait.linked =
      false ∧ (state.threads t).wait.wakeupFlags = WT_KSEM ∧ (state.threads t).timer = false := by
  have posture := orderly.posture t
  rw [Posture, handed.1] at posture
  obtain ⟨untimed, ⟨sleeping, -⟩ | ⟨-, -, unlinked, flags⟩⟩ := posture
  · rw [handed.2] at sleeping
    cases sleeping
  · exact ⟨unlinked, flags, untimed⟩

/-- A thread in `down` waits, or it has been handed a wakeup. -/
theorem down_iff : (state.threads t).place = .down sem ↔
      (state.threads t).Waiting sem ∨ (state.threads t).Handed sem := by
  constructor
  · intro inside
    have posture := orderly.posture t
    rw [Posture, inside] at posture
    obtain ⟨-, ⟨sleeping, -⟩ | ⟨runnable, -⟩⟩ := posture
    · exact .inl ⟨inside, sleeping⟩
    · exact .inr ⟨inside, runnable⟩
  · rintro (waiting | handed)
    · exact waiting.1
    · exact handed.1

theorem front_waiting (queue : (state.sems sem).waitQueue = t :: rest) :
    (state.threads t).Waiting sem := by
  refine (orderly.queued sem t).mp ?_
  rw [queue]
  exact List.mem_cons_self

theorem handOver (queue : (state.sems sem).waitQueue = t :: rest) :
    Orderly (state.handOver sem t rest) := by
  have waiting := orderly.front_waiting queue
  have distinct := orderly.nodup sem
  rw [queue, List.nodup_cons] at distinct
  apply orderly.change sem t
  · intro other apart
    simp [SemState.handOver, apart]
  · intro u apart
    simp [SemState.handOver, apart]
  · intro u apart
    simp [SemState.handOver, queue, apart]
  · simp [SemState.handOver, handedOver, Waiting, distinct.1]
  · intro other apart
    simp [SemState.handOver, handedOver, Waiting, waiting.1, Ne.symm apart]
  · simpa [SemState.handOver] using distinct.2
  · have idle := orderly.idle sem
    rw [queue] at idle
    intro positive
    simp only [SemState.handOver, setSem_sems, Function.update_self] at positive
    cases idle positive
  · have posture := orderly.waiting_posture waiting
    simp [SemState.handOver, handedOver, Posture, waiting.1, posture]

theorem block (outside : (state.threads t).place = .outside)
    (exhausted : ¬ 0 < (state.sems sem).value) : Orderly (state.block sem t) := by
  apply orderly.change sem t
  · intro other apart
    simp [SemState.block, apart]
  · intro u apart
    simp [SemState.block, apart]
  · intro u apart
    simp [SemState.block, apart]
  · simp [SemState.block, blocked, Waiting]
  · intro other apart
    simp [SemState.block, blocked, Waiting, outside, Ne.symm apart]
  · have absent : t ∉ (state.sems sem).waitQueue := by
      rw [orderly.queued sem t]
      simp [Waiting, outside]
    simpa [SemState.block, List.nodup_append] using
      ⟨orderly.nodup sem, fun u member same => absent (same ▸ member)⟩
  · intro positive
    simp only [SemState.block, setSem_sems, Function.update_self] at positive
    exact absurd positive exhausted
  · have posture := orderly.posture t
    simp only [Posture, outside] at posture
    simp [SemState.block, blocked, Posture, posture.1]

theorem finish (handed : (state.threads t).Handed sem) : Orderly (state.finish t) := by
  apply orderly.change sem t
  · exact fun _ _ => rfl
  · intro u apart
    simp [SemState.finish, apart]
  · exact fun _ _ => Iff.rfl
  · refine (orderly.queued sem t).trans ?_
    simp [SemState.finish, passed, Waiting, handed.2]
  · intro other _
    simp [SemState.finish, passed, Waiting, handed.2]
  · exact orderly.nodup sem
  · exact orderly.idle sem
  · have posture := orderly.handed_posture handed
    simp [SemState.finish, passed, Posture, posture]

/-! ### The calls in an orderly state -/

/-- `up` wakes the first thread in the queue, or there is none. -/
theorem up_cases (sem : Nat) :
    ((state.sems sem).waitQueue = [] ∧ up sem state = .ok (none, state.raise sem)) ∨
      ∃ t rest, (state.sems sem).waitQueue = t :: rest ∧
        up sem state = .ok (some t, state.handOver sem t rest) := by
  cases queue : (state.sems sem).waitQueue with
  | nil => exact .inl ⟨rfl, up_empty queue⟩
  | cons t rest =>
    have waiting := orderly.front_waiting queue
    obtain ⟨waits, linked, linkedHere, -⟩ := orderly.waiting_posture waiting
    exact .inr ⟨t, rest, rfl, up_cons queue waiting.2 waits linked linkedHere⟩

theorem downFinish_handed (handed : (state.threads t).Handed sem) :
    downFinish sem t state = .ok ((), state.finish t) := by
  obtain ⟨unlinked, woken, -⟩ := orderly.handed_posture handed
  exact downFinish_handedOver unlinked woken

end

end Orderly

/-! ## Runs -/

section History

variable (sem : Nat) (event : SemEvent) (history : List SemEvent)

theorem downs_cons : downs sem (event :: history) =
    downs sem history + if event.completes sem then 1 else 0 :=
  List.countP_cons

theorem ups_cons : ups sem (event :: history) =
    ups sem history + if event.raises sem then 1 else 0 :=
  List.countP_cons

theorem arrivals_cons : arrivals sem (event :: history) =
    arrivals sem history ++ (event.arrival sem).toList := by
  cases arrival : event.arrival sem with
  | none | some => simp [arrivals, arrival]

theorem departures_cons : departures sem (event :: history) =
    departures sem history ++ (event.departure sem).toList := by
  cases departure : event.departure sem with
  | none | some => simp [departures, departure]

end History

/-- A step accounts for itself when it pays for the wakeups on their way with the
value, and its arrival and its departure are those of the queue. -/
theorem Accounted.step {history : List SemEvent} {event : SemEvent} {sem : Nat}
    (accounted : Accounted initial history state sem)
    (balance : ∀ handed : Nat, Headcount (fun t => (state.threads t).Handed sem) handed →
      ∃ handed' : Nat, Headcount (fun t => (next.threads t).Handed sem) handed' ∧
        (if event.completes sem then 1 else 0) + (next.sems sem).value + handed' =
          (state.sems sem).value + handed + if event.raises sem then 1 else 0)
    (order : (state.sems sem).waitQueue ++ (event.arrival sem).toList =
      (event.departure sem).toList ++ (next.sems sem).waitQueue) :
    Accounted initial (event :: history) next sem where
  balance := by
    obtain ⟨handed, count, total⟩ := accounted.balance
    obtain ⟨handed', count', change⟩ := balance handed count
    refine ⟨handed', count', ?_⟩
    rw [downs_cons, ups_cons]
    push_cast
    omega
  order := by
    rw [arrivals_cons, departures_cons, accounted.order, List.append_assoc, order,
      List.append_assoc]

/-- The event is none of a semaphore. -/
def SemEvent.Elsewhere (event : SemEvent) : Prop :=
  ∀ sem, event.completes sem = false ∧ event.raises sem = false ∧
    event.arrival sem = none ∧ event.departure sem = none

/-- What a step does to an orderly state. -/
inductive SemEffect (state : SemState) : SemEvent → SemState → Prop where
  | raise {sem : Nat} (empty : (state.sems sem).waitQueue = []) :
      SemEffect state (.up sem none) (state.raise sem)
  | handOver {sem t : Nat} {rest : List Nat}
      (queue : (state.sems sem).waitQueue = t :: rest) :
      SemEffect state (.up sem (some t)) (state.handOver sem t rest)
  | tryLower {sem : Nat} (positive : 0 < (state.sems sem).value) :
      SemEffect state (.tryDown sem true) (state.lower sem)
  | refuse {sem : Nat} : SemEffect state (.tryDown sem false) state
  | lower {sem t : Nat} (positive : 0 < (state.sems sem).value) :
      SemEffect state (.down sem t true) (state.lower sem)
  | block {sem t : Nat} (outside : (state.threads t).place = .outside)
      (exhausted : ¬ 0 < (state.sems sem).value) :
      SemEffect state (.down sem t false) (state.block sem t)
  | finish {sem t : Nat} (handed : (state.threads t).Handed sem) :
      SemEffect state (.resume sem t) (state.finish t)
  | calm {event : SemEvent} {t : Nat} {thread : Thread} (elsewhere : event.Elsewhere)
      (calm : (state.threads t).Calm thread) :
      SemEffect state event (state.setThread t thread)

section Steps

variable {history : List SemEvent} {event : SemEvent}

theorem effect_of_calm (elsewhere : event.Elsewhere)
    (calm : ∃ thread, next = state.setThread t thread ∧ (state.threads t).Calm thread) :
    SemEffect state event next := by
  obtain ⟨thread, rfl, calm⟩ := calm
  exact .calm elsewhere calm

theorem SemStep.effect (orderly : Orderly state) (step : SemStep state event next) :
    SemEffect state event next := by
  cases step with
  | @up _ sem woken returns =>
    obtain ⟨empty, result⟩ | ⟨t, rest, queue, result⟩ := orderly.up_cases sem
    · cases returns.symm.trans result
      exact .raise empty
    · cases returns.symm.trans result
      exact .handOver queue
  | @tryDown _ sem got returns =>
    by_cases positive : 0 < (state.sems sem).value
    · cases returns.symm.trans (tryDown_pos positive)
      exact .tryLower positive
    · cases returns.symm.trans (tryDown_exhausted positive)
      exact .refuse
  | @down _ sem t got outside returns =>
    by_cases positive : 0 < (state.sems sem).value
    · cases returns.symm.trans (downStart_pos positive)
      exact .lower positive
    · cases returns.symm.trans (downStart_blocks positive)
      exact .block outside positive
  | resume inside scheduled returns =>
    cases returns.symm.trans (orderly.downFinish_handed ⟨inside, scheduled⟩)
    exact .finish ⟨inside, scheduled⟩
  | kill returns => exact effect_of_calm (fun _ => by trivial) (orderly.calm_kill returns)
  | sleep outside timed returns =>
    exact effect_of_calm (fun _ => by trivial) (orderly.calm_sleep outside timed returns)
  | wake asleep returns =>
    exact effect_of_calm (fun _ => by trivial) (orderly.calm_wake asleep returns)
  | expire pending returns =>
    exact effect_of_calm (fun _ => by trivial) (orderly.calm_expire pending returns)
  | leave asleep returns =>
    exact effect_of_calm (fun _ => by trivial) (orderly.calm_leave asleep returns)
  | change outside stays untimed unlinked =>
    refine .calm (fun _ => by trivial) (calm_elsewhere ?_ (by simp [outside]) (by simp [stays]))
    simp [Posture, stays, untimed, unlinked]

theorem SemEffect.orderly (orderly : Orderly state) (effect : SemEffect state event next) :
    Orderly next := by
  cases effect with
  | raise empty => exact orderly.raise empty
  | handOver queue => exact orderly.handOver queue
  | tryLower positive | lower positive => exact orderly.lower positive
  | refuse => exact orderly
  | block outside exhausted => exact orderly.block outside exhausted
  | finish handed => exact orderly.finish handed
  | calm elsewhere calm => exact orderly.calm calm

section

variable (orderly : Orderly state) (effect : SemEffect state event next)

include orderly effect

theorem SemEffect.accounted (sem : Nat) (accounted : Accounted initial history state sem) :
    Accounted initial (event :: history) next sem := by
  cases effect with
  | @raise other empty =>
    refine accounted.step (fun handed count => ⟨handed, count, ?_⟩) ?_
    · by_cases same : sem = other
      · simp [completes, raises, SemState.raise, same]
        omega
      · simp [completes, raises, SemState.raise, same, Ne.symm same]
    · by_cases same : sem = other <;> simp [arrival, departure, SemState.raise, same]
  | @handOver other t rest queue =>
    have waiting := orderly.front_waiting queue
    by_cases same : sem = other
    · subst same
      have notHanded : ¬ (state.threads t).Handed sem := by simp [Handed, waiting.2]
      refine accounted.step (fun handed count => ⟨handed + 1, count.join notHanded fun u => ?_,
        ?_⟩) ?_
      · rw [handed_handOver waiting]
        simp
      · simp [completes, raises, SemState.handOver]
        omega
      · simp [arrival, departure, SemState.handOver, queue]
    refine accounted.step (fun handed count => ⟨handed, count.congr fun u => ?_, ?_⟩) ?_
    · rw [handed_handOver waiting]
      simp [same]
    · simp [completes, raises, SemState.handOver, same, Ne.symm same]
    · simp [arrival, departure, SemState.handOver, same, Ne.symm same]
  | refuse =>
    exact accounted.step (fun handed count => ⟨handed, count, by simp [completes, raises]⟩)
      (by simp [arrival, departure])
  | @tryLower other positive | @lower other t positive =>
    refine accounted.step (fun handed count => ⟨handed, count, ?_⟩) ?_
    · by_cases same : sem = other
      · simp [completes, raises, SemState.lower, same]
      · simp [completes, raises, SemState.lower, same, Ne.symm same]
    · by_cases same : sem = other <;> simp [arrival, departure, SemState.lower, same]
  | @block other t outside exhausted =>
    refine accounted.step (fun handed count => ⟨handed, count.congr fun u => handed_block outside,
      ?_⟩) ?_
    · by_cases same : sem = other <;> simp [completes, raises, SemState.block, same]
    by_cases same : sem = other
    · simp [arrival, departure, SemState.block, same]
    · simp [arrival, departure, SemState.block, same, Ne.symm same]
  | @finish other t handed =>
    refine accounted.step (fun number count => ?_) (by simp [arrival, departure, SemState.finish])
    by_cases same : sem = other
    · subst same
      obtain ⟨fewer, rfl, remaining⟩ := count.leave handed fun u => handed_finish handed
      refine ⟨fewer, remaining, ?_⟩
      simp [completes, raises, SemState.finish]
      omega
    refine ⟨number, count.congr fun u => ?_, by
      simp [completes, raises, SemState.finish, Ne.symm same]⟩
    rw [handed_finish handed]
    refine ⟨And.right, fun handedHere => ⟨?_, handedHere⟩⟩
    rintro rfl
    exact same (Place.down.inj (handedHere.1.symm.trans handed.1))
  | @calm _ t thread elsewhere calm =>
    obtain ⟨notCompleted, notRaised, noArrival, noDeparture⟩ := elsewhere sem
    refine accounted.step (fun handed count => ⟨handed, count.congr fun u =>
      (orderly.calm_threads calm u).handed sem, ?_⟩) ?_
    · simp [notCompleted, notRaised]
    · simp [noArrival, noDeparture]

theorem SemEffect.handed {sem : Nat} (handed : (state.threads t).Handed sem)
    (waits : event ≠ .resume sem t) : (next.threads t).Handed sem := by
  cases effect with
  | raise | tryLower | refuse | lower => exact handed
  | handOver queue => exact (handed_handOver (orderly.front_waiting queue)).mpr (.inr handed)
  | block outside exhausted => exact (handed_block outside).mpr handed
  | @finish other u handedOther =>
    refine (handed_finish handedOther).mpr ⟨?_, handed⟩
    rintro rfl
    cases handed.1.symm.trans handedOther.1
    exact waits rfl
  | calm elsewhere calm => exact ((orderly.calm_threads calm t).handed sem).mpr handed

end

theorem SemState.Initial.orderly (starts : state.Initial initial) : Orderly state where
  queued sem t := by simp [starts.sems sem, Waiting, starts.outside t]
  nodup sem := by simp [starts.sems sem]
  idle sem := by simp [starts.sems sem]
  posture t := by
    simp [Posture, starts.outside t, starts.untimed t, starts.unlinked t]

theorem SemState.Initial.accounted (starts : state.Initial initial) (sem : Nat) :
    Accounted initial [] state sem where
  balance := by
    refine ⟨0, Headcount.zero fun t handed => ?_, ?_⟩
    · rw [Handed, starts.outside t] at handed
      cases handed.1
    · simp [downs, ups, starts.sems sem]
  order := by
    simp [arrivals, departures, starts.sems sem]

theorem SemRun.orderly (run : SemRun initial history state) : Orderly state := by
  induction run with
  | start starts => exact starts.orderly
  | step run step induction => exact (step.effect induction).orderly induction

theorem SemRun.accounted (run : SemRun initial history state) (sem : Nat) :
    Accounted initial history state sem := by
  induction run with
  | start starts => exact starts.accounted sem
  | step run step induction =>
    exact (step.effect run.orderly).accounted run.orderly sem induction

/-- The value stays an `int` of the source as long as there were not too many ups. -/
theorem SemRun.value_fits (run : SemRun initial history state) (sem : Nat)
    (low : -2 ^ 31 ≤ initial sem) (high : initial sem + ups sem history < 2 ^ 31) :
    -2 ^ 31 ≤ (state.sems sem).value ∧ (state.sems sem).value < 2 ^ 31 := by
  constructor
  · clear high
    induction run with
    | start starts => rwa [starts.sems sem]
    | step run step induction =>
      cases step.effect run.orderly with
      | @raise other | @handOver other | @block other | @tryLower other | @lower other =>
        by_cases same : sem = other <;>
          simp_all [SemState.raise, SemState.handOver, SemState.block, SemState.lower] <;> omega
      | refuse | finish | calm => exact induction
  · obtain ⟨handed, -, balance⟩ := (run.accounted sem).balance
    omega

end Steps

/-- In every reachable state of a semaphore: a positive value means an empty
queue; the completed downs, the value and the wakeups on their way balance the
initial value and the ups; the threads are released in the order in which they
blocked, and while one is queued no `try_down` or `down` gets past it; a wakeup
that was handed over stays with its thread, whatever else happens, until the
thread returns from `down`, which it can always do, and there `flags` is 0. -/
theorem semaphore_contract {initial : Nat → Int} {history : List SemEvent}
    {state : SemState} (run : SemRun initial history state) (sem : Nat) :
    (0 < (state.sems sem).value → (state.sems sem).waitQueue = []) ∧
    (∃ handed : Nat, Headcount (fun t => (state.threads t).Handed sem) handed ∧
      (downs sem history : Int) + (state.sems sem).value + handed = initial sem + ups sem history) ∧
    arrivals sem history = departures sem history ++ (state.sems sem).waitQueue ∧
    (∀ event next, SemStep state event next → event.completes sem = true →
      (∃ t, event = .resume sem t ∧ (state.threads t).Handed sem) ∨
        (state.sems sem).waitQueue = []) ∧
    (∀ t, (state.threads t).Handed sem → ∀ event next, SemStep state event next →
      event ≠ .resume sem t → (next.threads t).Handed sem) ∧
    (∀ t, (state.threads t).place = .down sem → (state.threads t).state = .runnable →
      Ends (downFinish sem t) (fun _ _ => True) (fun _ => False) state) ∧
    Ends (up sem) (fun _ _ => True) (fun _ => False) state := by
  have orderly := run.orderly
  have accounted := run.accounted sem
  refine ⟨orderly.idle sem, accounted.balance, accounted.order, ?_, ?_, ?_, ?_⟩
  · intro event next step completed
    cases step.effect orderly with
    | raise | handOver => cases completed
    | tryLower positive | lower positive =>
      simp only [completes, Bool.and_true, beq_iff_eq] at completed
      exact .inr (orderly.idle sem (completed ▸ positive))
    | refuse | block => simp [completes] at completed
    | @finish other t handed =>
      simp only [completes, beq_iff_eq] at completed
      subst completed
      exact .inl ⟨t, rfl, handed⟩
    | calm elsewhere calm => simp [(elsewhere sem).1] at completed
  · intro t handed event next step waits
    exact (step.effect orderly).handed orderly handed waits
  · intro t inside scheduled
    rw [Ends, orderly.downFinish_handed ⟨inside, scheduled⟩]
    trivial
  obtain ⟨-, result⟩ | ⟨t, rest, -, result⟩ := orderly.up_cases sem
  · rw [Ends, result]
    trivial
  · rw [Ends, result]
    trivial

def idleSemaphores : SemState where
  sems := fun _ => ⟨0, []⟩
  threads := fun _ => ⟨.runnable, 0, false, ⟨0, 0, false⟩, false, .outside⟩

theorem handover_run : SemRun (fun _ => 0) [.up 0 (some 1), .down 0 1 false]
    ((idleSemaphores.block 0 1).handOver 0 1 []) := by
  have starts : idleSemaphores.Initial fun _ => 0 :=
    ⟨fun _ => rfl, fun _ => rfl, fun _ => rfl, fun _ => rfl⟩
  have blocked : SemRun (fun _ => 0) [.down 0 1 false] (idleSemaphores.block 0 1) :=
    .step (.start starts) (.down rfl (downStart_blocks (by decide)))
  exact .step blocked (.up (up_cons (by rfl) (by rfl) (by rfl) (by rfl) (by rfl)))

theorem semaphore_contract_handover : ∃ handed : Nat, Headcount (fun t =>
        (((idleSemaphores.block 0 1).handOver 0 1 []).threads t).Handed 0) handed ∧
      ((0 : Nat) : Int) + 0 + handed = 0 + (1 : Nat) :=
  (semaphore_contract handover_run 0).2.1

end Semaphores

end UcoreSmp
