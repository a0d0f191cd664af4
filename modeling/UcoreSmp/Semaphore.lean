import UcoreSmp.Sched
import UcoreSmp.ErrorCodes

/-!
# Kernel semaphores

`kern/sync/wait.c` and `kern/sync/sem.c`, and what else can change a thread that
is blocked in a semaphore: `do_kill`, `do_sleep` and the timers.  Each critical
section with interrupts disabled is one routine.  `__down` is cut at its call of
`schedule`, so a thread that is blocked there stays in the state with its
`wait_t`, until it is runnable and the second half of the function can run.

A wait queue is the list of the threads whose `wait_t` is linked into it, in the
order of the ring; a thread has one `wait_t`, on its kernel stack.
-/

namespace UcoreSmp

namespace Semaphores

open Function

def WT_KSEM : BitVec 32 := 0x00000100

/-- `wait_t`; `linked` says that `wait_link` is in a ring with others. -/
structure Wait where
  wakeupFlags : BitVec 32
  waitQueue : Nat
  linked : Bool
  deriving DecidableEq, Repr

/-- Where a thread is. -/
inductive Place where
  /-- not asleep -/
  | outside
  /-- in `__down` of the semaphore, between its two critical sections -/
  | down (sem : Nat)
  /-- asleep for another reason, until its own call of `schedule` returns -/
  | asleep
  deriving DecidableEq, Repr

/-- A thread, with its `wait_t` and whether a timer of it is on the timer list. -/
structure Thread where
  state : ProcState
  waitState : BitVec 32
  exiting : Bool
  wait : Wait
  timer : Bool
  place : Place
  deriving DecidableEq, Repr

structure Semaphore where
  /-- an `int`; `SemRun.value_fits` bounds it -/
  value : Int
  waitQueue : List Nat
  deriving DecidableEq, Repr

structure SemState where
  sems : Nat → Semaphore
  threads : Nat → Thread

inductive SemFault where
  | waitLinked
  | waitNotQueued
  | wakingZombie
  | wrongWaitState
  | flagsNotZero
  | timerUninterruptible
  deriving DecidableEq, Repr

abbrev SemM := Routine SemFault SemState

def SemState.setThread (state : SemState) (t : Nat) (thread : Thread) : SemState :=
  { state with threads := update state.threads t thread }

def SemState.setSem (state : SemState) (sem : Nat) (semaphore : Semaphore) : SemState :=
  { state with sems := update state.sems sem semaphore }

section Fields

variable (state : SemState) (t sem : Nat) (thread : Thread) (semaphore : Semaphore)

@[simp]
theorem setThread_sems : (state.setThread t thread).sems = state.sems :=
  rfl

@[simp]
theorem setThread_threads : (state.setThread t thread).threads = update state.threads t thread :=
  rfl

@[simp]
theorem setSem_sems : (state.setSem sem semaphore).sems = update state.sems sem semaphore :=
  rfl

@[simp]
theorem setSem_threads : (state.setSem sem semaphore).threads = state.threads :=
  rfl

end Fields

def updateThread (t : Nat) (update : Thread → Thread) : SemM PUnit :=
  modify fun state => state.setThread t (update (state.threads t))

def updateSem (sem : Nat) (update : Semaphore → Semaphore) : SemM PUnit :=
  modify fun state => state.setSem sem (update (state.sems sem))

def waitInit (t : Nat) : SemM PUnit :=
  updateThread t fun thread => { thread with
    wait := { thread.wait with wakeupFlags := WT_INTERRUPTED, linked := false } }

def waitQueueAdd (sem t : Nat) : SemM PUnit := do
  let state ← get
  check ((state.threads t).wait.linked = false) .waitLinked
  updateThread t fun thread => { thread with
    wait := { thread.wait with waitQueue := sem, linked := true } }
  updateSem sem fun semaphore =>
    { semaphore with waitQueue := semaphore.waitQueue ++ [t] }

def waitQueueDel (sem t : Nat) : SemM PUnit := do
  let state ← get
  check ((state.threads t).wait.linked = true ∧ (state.threads t).wait.waitQueue = sem)
    .waitNotQueued
  updateThread t fun thread => { thread with wait := { thread.wait with linked := false } }
  updateSem sem fun semaphore =>
    { semaphore with waitQueue := semaphore.waitQueue.erase t }

def waitQueueFirst (sem : Nat) : SemM (Option Nat) := do
  let state ← get
  pure (state.sems sem).waitQueue.head?

/-- `wakeup_proc`; waking a runnable thread only prints a warning. -/
def wakeupProc (t : Nat) : SemM PUnit := do
  let state ← get
  check ((state.threads t).state ≠ .zombie) .wakingZombie
  if (state.threads t).state ≠ .runnable then
    updateThread t fun thread => { thread with state := .runnable, waitState := 0 }
  else pure PUnit.unit

def wakeupWait (sem t : Nat) (wakeupFlags : BitVec 32) (del : Bool) : SemM PUnit := do
  if del then waitQueueDel sem t
  else pure PUnit.unit
  updateThread t fun thread => { thread with
    wait := { thread.wait with wakeupFlags := wakeupFlags } }
  wakeupProc t

def waitCurrentSet (sem t : Nat) (waitState : BitVec 32) : SemM PUnit := do
  waitInit t
  updateThread t fun thread => { thread with state := .sleeping, waitState := waitState }
  waitQueueAdd sem t

def waitCurrentDel (sem t : Nat) : SemM PUnit := do
  let state ← get
  if (state.threads t).wait.linked = true then waitQueueDel sem t
  else pure PUnit.unit

/-- `__up`; it returns the thread that it wakes. -/
def upWith (sem : Nat) (waitState : BitVec 32) : SemM (Option Nat) := do
  match ← waitQueueFirst sem with
  | none => do
    updateSem sem fun semaphore => { semaphore with value := semaphore.value + 1 }
    pure none
  | some t => do
    let state ← get
    check ((state.threads t).waitState = waitState) .wrongWaitState
    wakeupWait sem t waitState true
    pure (some t)

/-- `__down` up to its call of `schedule`; it returns whether it is done. -/
def downFirst (sem t : Nat) (waitState : BitVec 32) : SemM Bool := do
  let state ← get
  if 0 < (state.sems sem).value then do
    updateSem sem fun semaphore => { semaphore with value := semaphore.value - 1 }
    pure true
  else do
    waitCurrentSet sem t waitState
    updateThread t fun thread => { thread with place := .down sem }
    pure false

/-- `__down` after its call of `schedule`. -/
def downSecond (sem t : Nat) (waitState : BitVec 32) : SemM (BitVec 32) := do
  waitCurrentDel sem t
  updateThread t fun thread => { thread with place := .outside }
  let state ← get
  if (state.threads t).wait.wakeupFlags ≠ waitState then
    pure (state.threads t).wait.wakeupFlags
  else pure 0

def up (sem : Nat) : SemM (Option Nat) :=
  upWith sem WT_KSEM

/-- `down` up to its call of `schedule`; `flags` is 0 where it returns at once. -/
def downStart (sem t : Nat) : SemM Bool :=
  downFirst sem t WT_KSEM

/-- `down` after its call of `schedule`. -/
def downFinish (sem t : Nat) : SemM PUnit := do
  let flags ← downSecond sem t WT_KSEM
  check (flags = 0) .flagsNotZero

def tryDown (sem : Nat) : SemM Bool := do
  let state ← get
  if 0 < (state.sems sem).value then do
    updateSem sem fun semaphore => { semaphore with value := semaphore.value - 1 }
    pure true
  else pure false

def doKill (t : Nat) : SemM Int := do
  let state ← get
  if (state.threads t).exiting then pure (-E_KILLED)
  else do
    updateThread t fun thread => { thread with exiting := true }
    if (state.threads t).waitState &&& WT_INTERRUPTED ≠ 0 then do
      wakeupProc t
      pure 0
    else pure 0

/-- A thread goes to sleep elsewhere: `do_sleep`, which starts a timer, or a wait
for a child or for the keyboard. -/
def goToSleep (t : Nat) (waitState : BitVec 32) (timer : Bool) : SemM PUnit :=
  updateThread t fun thread => { thread with
    state := .sleeping, waitState := waitState, timer := timer, place := .asleep }

def leaveSleep (t : Nat) : SemM PUnit :=
  updateThread t fun thread => { thread with timer := false, place := .outside }

/-- The body of the loop of `run_timer_list` for the timer of a thread; waking a
thread that does not wait only prints a warning. -/
def expireTimer (t : Nat) : SemM PUnit := do
  let state ← get
  if (state.threads t).waitState ≠ 0 then
    check ((state.threads t).waitState &&& WT_INTERRUPTED ≠ 0) .timerUninterruptible
  else pure PUnit.unit
  wakeupProc t
  updateThread t fun thread => { thread with timer := false }

/-! ## What the calls do to a semaphore and its threads -/

def Thread.blocked (thread : Thread) (sem : Nat) : Thread :=
  { thread with
    state := .sleeping, waitState := WT_KSEM
    wait := ⟨WT_INTERRUPTED, sem, true⟩, place := .down sem }

def Thread.handedOver (thread : Thread) : Thread :=
  { thread with
    state := .runnable, waitState := 0
    wait := { thread.wait with wakeupFlags := WT_KSEM, linked := false } }

def Thread.passed (thread : Thread) : Thread :=
  { thread with place := .outside }

section Calls

variable {state : SemState} {sem t : Nat}

@[simp]
theorem setThread_setThread (thread thread' : Thread) :
    (state.setThread t thread).setThread t thread' = state.setThread t thread' := by
  simp only [SemState.setThread, update_idem]

theorem setSem_setThread (thread : Thread) (semaphore : Semaphore) :
    (state.setSem sem semaphore).setThread t thread =
      (state.setThread t thread).setSem sem semaphore :=
  rfl

theorem run_updateThread (update : Thread → Thread) : updateThread t update state =
      .ok ((), state.setThread t (update (state.threads t))) :=
  rfl

theorem run_updateSem (update : Semaphore → Semaphore) : updateSem sem update state =
      .ok ((), state.setSem sem (update (state.sems sem))) :=
  rfl

theorem waitQueueDel_linked (linked : (state.threads t).wait.linked = true)
    (linkedHere : (state.threads t).wait.waitQueue = sem) :
    waitQueueDel sem t state = .ok ((), (state.setThread t
      { state.threads t with wait := { (state.threads t).wait with linked := false } }).setSem sem
        { state.sems sem with waitQueue := (state.sems sem).waitQueue.erase t }) := by
  rw [waitQueueDel, run_bind run_get, run_bind (run_check ⟨linked, linkedHere⟩),
    run_bind (run_updateThread _)]
  rfl

theorem wakeupProc_sleeping (sleeping : (state.threads t).state = .sleeping) :
    wakeupProc t state = .ok ((), state.setThread t
      { state.threads t with state := .runnable, waitState := 0 }) := by
  have notZombie : (state.threads t).state ≠ .zombie := by simp [sleeping]
  have notRunnable : (state.threads t).state ≠ .runnable := by simp [sleeping]
  rw [wakeupProc, run_bind run_get, run_bind (run_check notZombie), if_pos notRunnable]
  rfl

theorem wakeupWait_queued (wakeupFlags : BitVec 32) (sleeping : (state.threads t).state = .sleeping)
    (linked : (state.threads t).wait.linked = true)
    (linkedHere : (state.threads t).wait.waitQueue = sem) :
    wakeupWait sem t wakeupFlags true state = .ok ((), (state.setThread t { state.threads t with
        state := .runnable, waitState := 0
        wait := { (state.threads t).wait with
          wakeupFlags := wakeupFlags, linked := false } }).setSem sem
        { state.sems sem with waitQueue := (state.sems sem).waitQueue.erase t }) := by
  rw [wakeupWait, if_pos rfl, run_bind (waitQueueDel_linked linked linkedHere)]
  dsimp only
  rw [run_bind (run_updateThread _), wakeupProc_sleeping]
  · simp [setSem_setThread]
  · simpa using sleeping

theorem up_empty (empty : (state.sems sem).waitQueue = []) :
    up sem state = .ok (none, state.setSem sem
      { state.sems sem with value := (state.sems sem).value + 1 }) := by
  simp only [up, upWith, waitQueueFirst, bind_assoc, pure_bind]
  have first : (state.sems sem).waitQueue.head? = none := by rw [empty, List.head?_nil]
  rw [run_bind run_get, first]
  rfl

theorem up_cons {rest : List Nat} (queue : (state.sems sem).waitQueue = t :: rest)
    (sleeping : (state.threads t).state = .sleeping) (waits : (state.threads t).waitState = WT_KSEM)
    (linked : (state.threads t).wait.linked = true)
    (linkedHere : (state.threads t).wait.waitQueue = sem) :
    up sem state = .ok (some t, (state.setThread t (state.threads t).handedOver).setSem sem
      { state.sems sem with waitQueue := rest }) := by
  have first : (state.sems sem).waitQueue.head? = some t := by rw [queue, List.head?_cons]
  simp only [up, upWith, waitQueueFirst, bind_assoc, pure_bind]
  rw [run_bind run_get, first]
  dsimp only
  rw [run_bind run_get, run_bind (run_check waits),
    run_bind (wakeupWait_queued WT_KSEM sleeping linked linkedHere), queue,
    List.erase_cons_head]
  rfl

theorem downStart_pos (positive : 0 < (state.sems sem).value) :
    downStart sem t state = .ok (true, state.setSem sem
      { state.sems sem with value := (state.sems sem).value - 1 }) := by
  simp only [downStart, downFirst]
  rw [run_bind run_get, if_pos positive]
  rfl

theorem downStart_blocks (exhausted : ¬ 0 < (state.sems sem).value) :
    downStart sem t state = .ok (false,
      (state.setThread t ((state.threads t).blocked sem)).setSem sem
        { state.sems sem with waitQueue := (state.sems sem).waitQueue ++ [t] }) := by
  simp only [downStart, downFirst, waitCurrentSet, waitInit, waitQueueAdd, bind_assoc]
  rw [run_bind run_get, if_neg exhausted, run_bind (run_updateThread _),
    run_bind (run_updateThread _), run_bind run_get, run_bind (run_check _),
    run_bind (run_updateThread _), run_bind (run_updateSem _), run_bind (run_updateThread _)]
  · simp [setSem_setThread, Thread.blocked]
    rfl
  · simp

theorem downFinish_handedOver (unlinked : (state.threads t).wait.linked = false)
    (woken : (state.threads t).wait.wakeupFlags = WT_KSEM) :
    downFinish sem t state = .ok ((), state.setThread t (state.threads t).passed) := by
  have notLinked : ¬ (state.threads t).wait.linked = true := by simp [unlinked]
  simp only [downFinish, downSecond, waitCurrentDel, bind_assoc]
  rw [run_bind run_get, if_neg notLinked]
  simp only [pure_bind]
  rw [run_bind (run_updateThread _), run_bind run_get, if_neg]
  · rfl
  · simp [woken]

theorem tryDown_pos (positive : 0 < (state.sems sem).value) :
    tryDown sem state = .ok (true, state.setSem sem
      { state.sems sem with value := (state.sems sem).value - 1 }) := by
  simp only [tryDown]
  rw [run_bind run_get, if_pos positive]
  rfl

theorem tryDown_exhausted (exhausted : ¬ 0 < (state.sems sem).value) :
    tryDown sem state = .ok (false, state) := by
  simp only [tryDown]
  rw [run_bind run_get, if_neg exhausted]
  rfl

end Calls

end Semaphores

end UcoreSmp
