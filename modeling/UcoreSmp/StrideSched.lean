import UcoreSmp.KernelTriple
import UcoreSmp.SkewHeap
import Mathlib.Data.BitVec

/-!
# The stride scheduling class

The processes as the scheduler sees them and the run queue of
`kern/schedule/default_sched.c`.  A process is named by the address of its
`proc_struct`, and the entry `lab6_run_pool` inside it by the same address.

Two things are kept beside the fields of the source and read by none of its
functions: the unbounded sum of the passes charged to a process since
`alloc_proc`, and the history of the calls into the scheduling class.
-/

namespace UcoreSmp

inductive ProcState where
  | uninit
  | sleeping
  | runnable
  | zombie
  deriving DecidableEq, Repr

/-- Where a process goes on when it runs: its saved context and what is left on
its kernel stack. -/
inductive ProcContext where
  /-- user mode, or kernel code that does not touch the scheduler -/
  | running
  /-- `do_fork` has linked the child and is about to wake it -/
  | forkLinked (child : Nat)
  /-- `do_wait` has set the state to sleeping -/
  | waitAsleep (pid : Int)
  /-- `do_wait` has set its wait state and is about to call `schedule` -/
  | waitMarked (pid : Int)
  /-- `do_wait`, after `schedule` -/
  | waitReturned (pid : Int)
  /-- `do_sleep` has added its timer and is about to call `schedule` -/
  | sleepArmed
  /-- `do_sleep`, after `schedule` -/
  | sleepReturned
  /-- `do_exit` has made the process a zombie -/
  | exitZombie
  /-- `do_exit` has given its children away and is about to call `schedule` -/
  | exitLast
  /-- `do_exit`, after `schedule` -/
  | exited
  deriving DecidableEq, Repr

/-- The fields of `struct proc_struct` that the scheduler and the life cycle of
a process use.  `children` are the processes reached by `cptr` and from there
by `optr`, and `charged` is the unbounded sum of passes. -/
structure Proc where
  state : ProcState
  pid : Int
  runs : Nat
  needResched : Bool
  parent : Option Nat
  context : ProcContext
  flags : BitVec 32
  waitState : BitVec 32
  children : List Nat
  timeSlice : Int
  lab6Stride : BitVec 32
  lab6Priority : BitVec 32
  charged : Nat
  deriving Repr

/-- `struct run_queue`, with the pool in place of the unused `run_list`. -/
structure RunQueue where
  procNum : Nat
  maxTimeSlice : Int
  lab6RunPool : Option Nat

/-- A call into the scheduling class, with the sum charged to the process
before it. -/
inductive PoolEvent where
  | enqueue (proc charged : Nat)
  | pick (proc charged : Nat)
  | dequeue (proc : Nat)
  deriving DecidableEq, Repr

/-- The processes, the run queue, the timers, and the history of calls, latest
first.  A process has at most one timer, on its kernel stack; the list keeps the
process of each with its `expires`. -/
structure SchedState where
  procs : Nat → Option Proc
  links : TreeLinks Nat
  rq : RunQueue
  timerList : List (Nat × Nat)
  procList : List Nat
  current : Nat
  idleproc : Nat
  initproc : Nat
  log : List PoolEvent

/-- A read of a freed process, the heap recursion, and the assertions and panics
of the modelled functions. -/
inductive SchedFault where
  | freed
  | heapDepth
  | zombieWoken
  | timerNull
  | timerExpired
  | timerUninterruptible
  | idleExit
  | initExit
  | exitReturned
  | waitIdleOrInit
  | waitStateSet
  deriving DecidableEq, Repr

abbrev SchedM := Routine SchedFault SchedState

def derefProc (p : Nat) : SchedM Proc := do
  let state ← get
  match state.procs p with
  | none => throw .freed
  | some proc => pure proc

def SchedState.setProc (state : SchedState) (p : Nat) (proc : Proc) : SchedState :=
  { state with procs := Function.update state.procs p (some proc) }

theorem SchedState.setProc_self (state : SchedState) (p : Nat) (proc : Proc) :
    (state.setProc p proc).procs p = some proc :=
  Function.update_self _ _ _

theorem SchedState.setProc_other (state : SchedState) {p q : Nat} (proc : Proc)
    (other : q ≠ p) : (state.setProc p proc).procs q = state.procs q :=
  Function.update_of_ne other _ _

def updateProc (p : Nat) (update : Proc → Proc) : SchedM PUnit := do
  let proc ← derefProc p
  modify fun state => state.setProc p (update proc)

def BIG_STRIDE : BitVec 32 := 0x7FFFFFFF

def strideOf (procs : Nat → Option Proc) (p : Nat) : BitVec 32 :=
  ((procs p).map Proc.lab6Stride).getD 0

def chargedOf (procs : Nat → Option Proc) (p : Nat) : Nat :=
  ((procs p).map Proc.charged).getD 0

def procStrideCompF (procs : Nat → Option Proc) (a b : Nat) : Int :=
  let c := (strideOf procs a - strideOf procs b).toInt
  if c > 0 then 1
  else if c = 0 then 0
  else -1

def SchedState.setPool (state : SchedState) (root : Option Nat)
    (links : TreeLinks Nat) : SchedState :=
  { state with links := links, rq := { state.rq with lab6RunPool := root } }

def SchedState.setProcNum (state : SchedState) (procNum : Nat) : SchedState :=
  { state with rq := { state.rq with procNum := procNum } }

def SchedState.record (state : SchedState) (event : PoolEvent) : SchedState :=
  { state with log := event :: state.log }

def assignPool (result : Option (Option Nat × TreeLinks Nat)) : SchedM PUnit :=
  match result with
  | none => throw .heapDepth
  | some (root, links) => modify fun state => state.setPool root links

def refillSlice (rq : RunQueue) (proc : Proc) : Proc :=
  if proc.timeSlice = 0 ∨ proc.timeSlice > rq.maxTimeSlice then
    { proc with timeSlice := rq.maxTimeSlice }
  else proc

def strideEnqueue (p : Nat) : SchedM PUnit := do
  let state ← get
  assignPool (skewHeapInsert (procStrideCompF state.procs) (state.rq.procNum + 2)
    state.rq.lab6RunPool p state.links)
  let proc ← derefProc p
  modify fun state => state.setProc p (refillSlice state.rq proc)
  modify fun state => (state.setProcNum (state.rq.procNum + 1)).record (.enqueue p proc.charged)

/-- `stride_dequeue`; the pool is never empty here, so `proc_num` is positive. -/
def strideDequeue (p : Nat) : SchedM PUnit := do
  let state ← get
  assignPool (skewHeapRemove (procStrideCompF state.procs) (state.rq.procNum + 1)
    state.rq.lab6RunPool p state.links)
  modify fun state => (state.setProcNum (state.rq.procNum - 1)).record (.dequeue p)

/-- What `stride_pick_next` adds to the stride of a process it picks. -/
def stridePass (priority : BitVec 32) : BitVec 32 :=
  if priority = 0 then BIG_STRIDE
  else BIG_STRIDE / priority

def chargePass (proc : Proc) : Proc :=
  { proc with
    lab6Stride := proc.lab6Stride + stridePass proc.lab6Priority
    charged := proc.charged + (stridePass proc.lab6Priority).toNat }

def stridePickNext : SchedM (Option Nat) := do
  let state ← get
  match state.rq.lab6RunPool with
  | none => pure none
  | some p => do
    let proc ← derefProc p
    modify fun state => (state.setProc p (chargePass proc)).record (.pick p proc.charged)
    pure (some p)

def strideTakeNext : SchedM (Option Nat) := do
  let next ← stridePickNext
  match next with
  | none => pure none
  | some p => do
    strideDequeue p
    pure (some p)

/-- The slice left after a tick, and the request to reschedule. -/
def tickSlice (proc : Proc) : Proc :=
  let timeSlice := if proc.timeSlice > 0 then proc.timeSlice - 1 else proc.timeSlice
  { proc with
    timeSlice := timeSlice
    needResched := if timeSlice = 0 then true else proc.needResched }

def strideProcTick (p : Nat) : SchedM PUnit :=
  updateProc p tickSlice

end UcoreSmp
