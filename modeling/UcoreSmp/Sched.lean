import UcoreSmp.DeltaList
import UcoreSmp.StrideSched

/-!
# The scheduler, the timers and the life cycle of a process

The functions of `kern/schedule/sched.c`, and those parts of `do_fork`,
`do_sleep`, `do_wait`, `do_exit` and `do_kill` of `kern/process/proc.c` that
reach the scheduler.  The kernel is not preemptive: the current process runs
until it calls `schedule`, and only interrupts come in between.  A function that
is interrupted between two critical sections is cut there, and the rest of it
is kept in the context of the process.
-/

namespace UcoreSmp

def WT_INTERRUPTED : BitVec 32 := 0x80000000

def WT_CHILD : BitVec 32 := 0x00000001 ||| WT_INTERRUPTED

def WT_TIMER : BitVec 32 := 0x00000002 ||| WT_INTERRUPTED

def PF_EXITING : BitVec 32 := 0x00000001

def MAX_PID : Int := 4096 * 2

def schedClassEnqueue (p : Nat) : SchedM PUnit := do
  let state ← get
  if p ≠ state.idleproc then strideEnqueue p
  else pure PUnit.unit

def schedClassProcTick (p : Nat) : SchedM PUnit := do
  let state ← get
  if p ≠ state.idleproc then strideProcTick p
  else updateProc p fun proc => { proc with needResched := true }

def Proc.woken (proc : Proc) : Proc :=
  { proc with state := .runnable, waitState := 0 }

/-- Put a process that was just made runnable into the pool, unless it is the
one that runs. -/
def enqueueWoken (p : Nat) : SchedM PUnit := do
  let state ← get
  if p ≠ state.current then schedClassEnqueue p
  else pure PUnit.unit

/-- `wakeup_proc`; waking a runnable process only prints a warning. -/
def wakeupProc (p : Nat) : SchedM PUnit := do
  let proc ← derefProc p
  check (proc.state ≠ .zombie) .zombieWoken
  if proc.state ≠ .runnable then do
    updateProc p Proc.woken
    enqueueWoken p
  else pure PUnit.unit

def enqueueCurrent : SchedM PUnit := do
  let state ← get
  let proc ← derefProc state.current
  if proc.state = .runnable then schedClassEnqueue state.current
  else pure PUnit.unit

def procRun (next : Nat) : SchedM PUnit :=
  modify fun state => { state with current := next }

def Proc.clearResched (proc : Proc) : Proc :=
  { proc with needResched := false }

def Proc.countRun (proc : Proc) : Proc :=
  { proc with runs := proc.runs + 1 }

def runNext (next : Nat) : SchedM PUnit := do
  updateProc next Proc.countRun
  procRun next

def schedule : SchedM PUnit := do
  let state ← get
  updateProc state.current Proc.clearResched
  enqueueCurrent
  let picked ← strideTakeNext
  runNext (picked.getD state.idleproc)

/-- `add_timer` of a timer that `timer_init` has just set up for a process; its
loop keeps the time to expiry relative to the timer before. -/
def addTimer (p expires : Nat) : SchedM PUnit := do
  check (expires > 0) .timerNull
  modify fun state => { state with timerList := insertDelta p expires state.timerList }

/-- `del_timer` of the timer of a process, which may have left the list. -/
def delTimer (p : Nat) : SchedM PUnit :=
  modify fun state => { state with timerList := removeDelta p state.timerList }

/-- The loop of `run_timer_list` over the timers that have expired. -/
def runExpired : List (Nat × Nat) → SchedM PUnit
  | [] => pure PUnit.unit
  | (p, expires) :: rest =>
    if expires = 0 then do
      let proc ← derefProc p
      check (proc.waitState ≠ 0 → proc.waitState &&& WT_INTERRUPTED ≠ 0)
        SchedFault.timerUninterruptible
      wakeupProc p
      delTimer p
      runExpired rest
    else pure PUnit.unit

def advanceTimers : SchedM PUnit := do
  let state ← get
  match state.timerList with
  | [] => pure PUnit.unit
  | (p, expires) :: rest => do
    check (expires ≠ 0) .timerExpired
    let timers := (p, expires - 1) :: rest
    modify fun state => { state with timerList := timers }
    runExpired timers

def runTimerList : SchedM PUnit := do
  advanceTimers
  let state ← get
  schedClassProcTick state.current

def setContext (context : ProcContext) : SchedM PUnit := do
  let state ← get
  updateProc state.current fun proc => { proc with context := context }

def allocProc : Proc where
  state := .uninit
  pid := -1
  runs := 0
  needResched := false
  parent := none
  context := .running
  flags := 0
  waitState := 0
  children := []
  timeSlice := 0
  lab6Stride := 0
  lab6Priority := 0
  charged := 0

def childProc (parent : Nat) (pid : Int) : Proc :=
  { allocProc with parent := some parent, pid := pid }

/-- The new process at a fresh address, linked by `hash_proc` and `set_links`. -/
def SchedState.linkChild (state : SchedState) (child : Nat) (pid : Int) : SchedState :=
  { state with
    procs := Function.update state.procs child (some (childProc state.current pid))
    links := skewHeapInit child state.links
    procList := child :: state.procList }

/-- `do_fork` up to its last critical section; before that nothing else sees the
child, and a failure gives it back unseen. -/
def doFork (child : Nat) (pid : Int) : SchedM PUnit := do
  let state ← get
  let proc ← derefProc state.current
  check (proc.waitState = 0) .waitStateSet
  modify fun state => state.linkChild child pid
  updateProc state.current fun proc =>
    { proc with children := child :: proc.children, context := .forkLinked child }

def forkWake (child : Nat) : SchedM PUnit := do
  setContext .running
  wakeupProc child

/-- `do_sleep` up to its call of `schedule`. -/
def doSleep (time : Nat) : SchedM PUnit :=
  if time = 0 then pure PUnit.unit
  else do
    let state ← get
    updateProc state.current fun proc =>
      { proc with state := .sleeping, waitState := WT_TIMER, context := .sleepArmed }
    addTimer state.current time

def SchedState.findProc (state : SchedState) (pid : Int) : Option Nat :=
  if 0 < pid ∧ pid < MAX_PID then
    state.procList.find? fun p => ((state.procs p).map Proc.pid) = some pid
  else none

def SchedState.waitedFor (state : SchedState) (pid : Int) (proc : Proc) : List Nat :=
  if pid ≠ 0 then
    match state.findProc pid with
    | none => []
    | some p =>
      if ((state.procs p).bind Proc.parent) = some state.current then [p] else []
  else proc.children

def SchedState.isZombie (state : SchedState) (p : Nat) : Bool :=
  ((state.procs p).map Proc.state) = some .zombie

def Proc.dropChild (child : Nat) (proc : Proc) : Proc :=
  { proc with children := proc.children.erase child }

def SchedState.freeProc (state : SchedState) (p : Nat) : SchedState :=
  { state with
    procs := Function.update state.procs p none
    procList := state.procList.erase p }

/-- `unhash_proc`, `remove_links` and `kfree` of a zombie. -/
def reapChild (child : Nat) : SchedM PUnit := do
  let zombie ← derefProc child
  match zombie.parent with
  | none => throw .freed
  | some parent => do
    updateProc parent (Proc.dropChild child)
    modify fun state => state.freeProc child

/-- `do_wait` from `repeat` to the first write before `schedule`, or to its
end. -/
def doWait (pid : Int) : SchedM PUnit := do
  let state ← get
  let proc ← derefProc state.current
  match (state.waitedFor pid proc).find? state.isZombie with
  | some child => do
    check (child ≠ state.idleproc ∧ child ≠ state.initproc) .waitIdleOrInit
    setContext .running
    reapChild child
  | none =>
    if state.waitedFor pid proc = [] then setContext .running
    else updateProc state.current fun proc =>
      { proc with state := .sleeping, context := .waitAsleep pid }

/-- `do_exit` up to the point where the process is a zombie. -/
def doExit : SchedM PUnit := do
  let state ← get
  check (state.current ≠ state.idleproc) .idleExit
  check (state.current ≠ state.initproc) .initExit
  updateProc state.current fun proc =>
    { proc with state := .zombie, context := .exitZombie }

/-- Wake a process that waits for a child. -/
def wakeWaiter (p : Nat) : SchedM PUnit := do
  let proc ← derefProc p
  if proc.waitState = WT_CHILD then wakeupProc p
  else pure PUnit.unit

/-- The loop of `do_exit` that gives the children to `initproc`. -/
def giveChildren : List Nat → SchedM PUnit
  | [] => pure PUnit.unit
  | child :: rest => do
    let state ← get
    updateProc child fun proc => { proc with parent := some state.initproc }
    updateProc state.initproc fun proc =>
      { proc with children := child :: proc.children }
    let proc ← derefProc child
    if proc.state = .zombie then do
      wakeWaiter state.initproc
      giveChildren rest
    else giveChildren rest

def exitHandOver : SchedM PUnit := do
  let state ← get
  let proc ← derefProc state.current
  match proc.parent with
  | none => throw .freed
  | some parent => do
    wakeWaiter parent
    giveChildren proc.children
    updateProc state.current fun proc =>
      { proc with children := [], context := .exitLast }

def doKill (pid : Int) : SchedM PUnit := do
  let state ← get
  match state.findProc pid with
  | none => pure PUnit.unit
  | some p => do
    let proc ← derefProc p
    if proc.flags &&& PF_EXITING = 0 then do
      updateProc p fun proc => { proc with flags := proc.flags ||| PF_EXITING }
      if proc.waitState &&& WT_INTERRUPTED ≠ 0 then wakeupProc p
      else pure PUnit.unit
    else pure PUnit.unit

/-- The current process goes on inside the function it is in. -/
def resumeCurrent : SchedM PUnit := do
  let state ← get
  let proc ← derefProc state.current
  match proc.context with
  | .running => pure PUnit.unit
  | .forkLinked child => forkWake child
  | .waitAsleep pid =>
    updateProc state.current fun proc =>
      { proc with waitState := WT_CHILD, context := .waitMarked pid }
  | .waitMarked pid => do
    setContext (.waitReturned pid)
    schedule
  | .waitReturned pid =>
    if proc.flags &&& PF_EXITING ≠ 0 then doExit else doWait pid
  | .sleepArmed => do
    setContext .sleepReturned
    schedule
  | .sleepReturned => do
    delTimer state.current
    setContext .running
  | .exitZombie => exitHandOver
  | .exitLast => do
    setContext .exited
    schedule
  | .exited => throw .exitReturned

def lab6SetPriority (priority : BitVec 32) : SchedM PUnit := do
  let state ← get
  updateProc state.current fun proc =>
    { proc with lab6Priority := if priority = 0 then 1 else priority }

/-- A step of the kernel that concerns the scheduler: an interrupt, a call made
by the current process, or the rest of a call it is in. -/
inductive SchedAct where
  | timerInterrupt
  | wakeup (p : Nat)
  | schedule
  | fork (child : Nat) (pid : Int)
  | sleep (time : Nat)
  | wait (pid : Int)
  | exit
  | kill (pid : Int)
  | setPriority (priority : BitVec 32)
  | resume

def SchedAct.run : SchedAct → SchedM PUnit
  | .timerInterrupt => runTimerList
  | .wakeup p => wakeupProc p
  | .schedule => UcoreSmp.schedule
  | .fork child pid => doFork child pid
  | .sleep time => doSleep time
  | .wait pid => doWait pid
  | .exit => doExit
  | .kill pid => doKill pid
  | .setPriority priority => lab6SetPriority priority
  | .resume => resumeCurrent

/-- The current process is not inside one of the calls. -/
def SchedState.InUser (state : SchedState) : Prop :=
  ((state.procs state.current).map Proc.context) = some .running

/-- Interrupts come at any time, calls are made by a process that is in none,
and `kmalloc` gives a fork memory that no process uses. -/
def SchedAct.Enabled (state : SchedState) : SchedAct → Prop
  | .timerInterrupt | .wakeup _ | .resume => True
  | .fork child _ => state.InUser ∧ state.procs child = none
  | .schedule | .sleep _ | .wait _ | .exit | .kill _ | .setPriority _ => state.InUser

def bootProc : Proc :=
  { allocProc with pid := 0, state := .runnable, needResched := true }

/-- The state after `sched_init` and the first part of `proc_init`: only the idle
process exists, and it runs. -/
def schedBoot (idle init : Nat) : SchedState where
  procs := Function.update (fun _ => none) idle (some bootProc)
  links := ⟨fun _ => none, fun _ => none, fun _ => none⟩
  rq := { procNum := 0, maxTimeSlice := 5, lab6RunPool := none }
  timerList := []
  procList := []
  current := idle
  idleproc := idle
  initproc := init
  log := []

inductive SchedReaches (idle init : Nat) : SchedState → Prop where
  | boot : SchedReaches idle init (schedBoot idle init)
  | step {state next : SchedState} (act : SchedAct)
      (reached : SchedReaches idle init state) (enabled : act.Enabled state)
      (ran : act.run state = .ok (PUnit.unit, next)) : SchedReaches idle init next

end UcoreSmp
