import UcoreSmp.ErrorCodes
import UcoreSmp.PidAlloc
import UcoreSmp.SiblingList

/-!
# The process family

The relations between processes in `kern/process/proc.c`: the list of all
processes, the hash lists by pid, and the children of each process, linked by
hand through `cptr`, `yptr` and `optr`.  `do_fork`, `do_wait` and the rest run in
pieces between which other processes run; `Place` says where a process stands.
-/

namespace UcoreSmp

namespace Family

def hash32 (value : BitVec 32) (bits : Nat) : BitVec 32 := (value * 0x9e370001) >>> (32 - bits)

def pidHashfn (pid : Int) : Nat := (hash32 (BitVec.ofInt 32 pid) 10).toNat

/-- Where a process stands in `do_fork` or `do_wait`. -/
inductive Place where
  | outside
  /-- in `do_fork`, with a child that is not linked yet -/
  | forking (child : Nat)
  /-- at the label `repeat` of `do_wait`; `store` says whether `code_store` is set -/
  | scanning (pid : Int) (store : Bool)
  /-- in `schedule`, called by `do_wait` -/
  | asleep (pid : Int) (store : Bool)
  /-- at the label `found` of `do_wait` -/
  | reaping (child : Nat) (store : Bool)
  /-- about to call `do_exit(-E_KILLED)` from `do_wait` -/
  | killed
  /-- at the end of `do_exit` -/
  | gone
  deriving DecidableEq, Repr

/-- The fields of `struct proc_struct` that `do_fork`, `do_exit`, `do_wait` and
`do_kill` use for the family. -/
structure Member where
  state : ProcState
  waitState : BitVec 32
  pid : Int
  parent : Option Nat
  cptr : Option Nat
  yptr : Option Nat
  optr : Option Nat
  exitCode : Int
  /-- `flags & PF_EXITING` -/
  exiting : Bool
  place : Place
  /-- the number of forks before this process was linked -/
  serial : Nat
  deriving DecidableEq, Repr

/-- A child that `do_wait` has reaped, who reaped it and what was stored. -/
structure Reap where
  child : Nat
  waiter : Nat
  parent : Option Nat
  stored : Option Int
  deriving DecidableEq, Repr

structure FamilyState where
  procs : Nat → Member
  procList : List Nat
  hashList : Nat → List Nat
  pids : PidState
  nrProcess : Int
  idleproc : Nat
  initproc : Nat
  /-- the number of processes linked so far -/
  born : Nat
  /-- the processes that have called `do_exit`, with their code -/
  exits : List (Nat × Int)
  reaps : List Reap

/-- The assertions and panics, null pointers, and loops that do not end. -/
inductive FamilyFault where
  | parentWaits
  | pidScan
  | nullParent
  | zombieWoken
  | idleExit
  | initExit
  | waitInit
  | unfinished
  deriving DecidableEq, Repr

abbrev FamilyM := Routine FamilyFault FamilyState

namespace FamilyState

def change (state : FamilyState) (p : Nat) (update : Member → Member) : FamilyState :=
  { state with procs := Function.update state.procs p (update (state.procs p)) }

def pidList (state : FamilyState) : List Int :=
  state.procList.map fun p => (state.procs p).pid

def hashProc (state : FamilyState) (p : Nat) : FamilyState :=
  let bucket := pidHashfn (state.procs p).pid
  { state with hashList := Function.update state.hashList bucket (p :: state.hashList bucket) }

def unhashProc (state : FamilyState) (p : Nat) : FamilyState :=
  let bucket := pidHashfn (state.procs p).pid
  { state with
    hashList := Function.update state.hashList bucket ((state.hashList bucket).erase p) }

def findProc (state : FamilyState) (pid : Int) : Option Nat :=
  if 0 < pid ∧ pid < MAX_PID then
    (state.hashList (pidHashfn pid)).find? fun p => (state.procs p).pid = pid
  else none

/-- Set the `yptr` of an elder sibling, if there is one. -/
def setYounger (state : FamilyState) (elder younger : Option Nat) : FamilyState :=
  match elder with
  | none => state
  | some elder => state.change elder fun proc => { proc with yptr := younger }

/-- Put a process in front of the children of `parent`. -/
def pushChild (state : FamilyState) (parent p : Nat) : FamilyState :=
  let optr := (state.procs parent).cptr
  let state := state.change p fun proc => { proc with yptr := none, optr := optr }
  let state := state.setYounger optr (some p)
  state.change parent fun proc => { proc with cptr := some p }

def setLinks (state : FamilyState) (parent p : Nat) : FamilyState :=
  let state := { state with procList := p :: state.procList }
  let state := state.pushChild parent p
  { state with nrProcess := state.nrProcess + 1 }

/-- Let the younger sibling of a process, or its parent, lead to the elder one. -/
def bypass (state : FamilyState) (parent p : Nat) : FamilyState :=
  let optr := (state.procs p).optr
  match (state.procs p).yptr with
  | some younger => state.change younger fun proc => { proc with optr := optr }
  | none => state.change parent fun proc => { proc with cptr := optr }

def removeLinks (state : FamilyState) (parent p : Nat) : FamilyState :=
  let state := { state with procList := state.procList.erase p }
  let state := state.setYounger (state.procs p).optr (state.procs p).yptr
  let state := state.bypass parent p
  { state with nrProcess := state.nrProcess - 1 }

end FamilyState

def updateMember (p : Nat) (update : Member → Member) : FamilyM PUnit :=
  modify fun state => state.change p update

/-- `wakeup_proc`, without the run queue. -/
def wakeupProc (p : Nat) : FamilyM PUnit := do
  let state ← get
  check ((state.procs p).state ≠ .zombie) .zombieWoken
  if (state.procs p).state ≠ .runnable then
    updateMember p fun proc => { proc with state := .runnable, waitState := 0 }
  else pure PUnit.unit

def derefParent (p : Nat) : FamilyM Nat := do
  let state ← get
  match (state.procs p).parent with
  | none => throw .nullParent
  | some parent => pure parent

/-- `alloc_proc`, with the parent that `do_fork` sets. -/
def newMember (old : Member) (parent : Nat) : Member :=
  { old with
    state := .uninit, pid := -1, parent := some parent, exiting := false, waitState := 0,
    cptr := none, yptr := none, optr := none, place := .outside }

/-- `do_fork` up to where it copies the parent. -/
def forkBegin (p child : Nat) : FamilyM PUnit := do
  let state ← get
  if state.nrProcess ≥ MAX_PROCESS then pure PUnit.unit
  else do
    updateMember child fun proc => newMember proc p
    check ((state.procs p).waitState = 0) .parentWaits
    updateMember p fun proc => { proc with place := .forking child }

/-- `do_fork` when copying the parent has failed. -/
def forkFail (p : Nat) : FamilyM PUnit :=
  updateMember p fun proc => { proc with place := .outside }

def assignPid (child : Nat) : FamilyM PUnit := do
  let state ← get
  match getPid state.pidList state.pids with
  | none => throw .pidScan
  | some pids =>
    set { state.change child (fun proc => { proc with
        pid := pids.lastPid, serial := state.born }) with
      pids := pids, born := state.born + 1 }

/-- `do_fork` from `get_pid` on. -/
def forkLink (p child : Nat) : FamilyM PUnit := do
  assignPid child
  modify fun state => state.hashProc child
  let parent ← derefParent child
  modify fun state => state.setLinks parent child
  wakeupProc child
  updateMember p fun proc => { proc with place := .outside }

/-- One turn of the loop of `do_exit`: the child goes to `initproc`. -/
def adoptChild (p child : Nat) : FamilyM PUnit := do
  modify fun state =>
    let state := state.change p fun proc => { proc with cptr := (state.procs child).optr }
    let state := state.pushChild state.initproc child
    state.change child fun proc => { proc with parent := some state.initproc }
  let state ← get
  if (state.procs child).state = .zombie ∧ (state.procs state.initproc).waitState = WT_CHILD then
    wakeupProc state.initproc
  else pure PUnit.unit

def adoptChildren : Nat → Nat → FamilyM PUnit
  | 0, _ => throw .unfinished
  | fuel + 1, p => do
    let state ← get
    match (state.procs p).cptr with
    | none => pure PUnit.unit
    | some child => do
      adoptChild p child
      adoptChildren fuel p

/-- `do_exit`, after the memory and the files are released. -/
def doExit (p : Nat) (code : Int) : FamilyM PUnit := do
  let state ← get
  check (p ≠ state.idleproc) .idleExit
  check (p ≠ state.initproc) .initExit
  set { state.change p (fun proc => { proc with
      state := .zombie, exitCode := code, place := .gone }) with
    exits := state.exits ++ [((state.procs p).serial, code)] }
  let parent ← derefParent p
  let state ← get
  if (state.procs parent).waitState = WT_CHILD then wakeupProc parent else pure PUnit.unit
  adoptChildren (state.procList.length + 1) p

/-- The loop of `do_wait` over the children: a zombie, and whether there is a
child at all. -/
def scanChildren (state : FamilyState) : Nat → Option Nat → Bool →
    Except FamilyFault (Option Nat × Bool)
  | 0, _, _ => .error .unfinished
  | _ + 1, none, haskid => .ok (none, haskid)
  | fuel + 1, some proc, _ =>
    if (state.procs proc).state = .zombie then .ok (some proc, true)
    else scanChildren state fuel (state.procs proc).optr true

/-- The search of `do_wait` for the child `pid`, or for any child. -/
def searchChild (state : FamilyState) (p : Nat) (pid : Int) :
    Except FamilyFault (Option Nat × Bool) :=
  if pid ≠ 0 then
    match state.findProc pid with
    | none => .ok (none, false)
    | some proc =>
      if (state.procs proc).parent = some p then
        if (state.procs proc).state = .zombie then .ok (some proc, true) else .ok (none, true)
      else .ok (none, false)
  else scanChildren state (state.procList.length + 1) (state.procs p).cptr false

/-- `do_wait` from the label `repeat` to where it sleeps, returns or finds a
child. -/
def waitScan (p : Nat) (pid : Int) (store : Bool) : FamilyM PUnit := do
  let state ← get
  let (found, haskid) ← (liftM (searchChild state p pid) : FamilyM (Option Nat × Bool))
  match found with
  | some child => updateMember p fun proc => { proc with place := .reaping child store }
  | none =>
    if haskid then
      updateMember p fun proc => { proc with
        state := .sleeping, waitState := WT_CHILD, place := .asleep pid store }
    else updateMember p fun proc => { proc with place := .outside }

/-- `do_wait` after `schedule` has returned. -/
def waitResume (p : Nat) (pid : Int) (store : Bool) : FamilyM PUnit := do
  let state ← get
  if (state.procs p).exiting then updateMember p fun proc => { proc with place := .killed }
  else updateMember p fun proc => { proc with place := .scanning pid store }

/-- `do_wait` from the label `found` on. -/
def waitReap (p child : Nat) (store : Bool) : FamilyM PUnit := do
  let state ← get
  check (child ≠ state.idleproc ∧ child ≠ state.initproc) .waitInit
  let code := if store then some (state.procs child).exitCode else none
  let reap : Reap := ⟨(state.procs child).serial, p, (state.procs child).parent, code⟩
  set { state with reaps := state.reaps ++ [reap] }
  modify fun state => state.unhashProc child
  let parent ← derefParent child
  modify fun state => state.removeLinks parent child
  updateMember p fun proc => { proc with place := .outside }

def doKill (pid : Int) : FamilyM PUnit := do
  let state ← get
  match state.findProc pid with
  | none => pure PUnit.unit
  | some proc =>
    if (state.procs proc).exiting then pure PUnit.unit
    else do
      updateMember proc fun member => { member with exiting := true }
      if (state.procs proc).waitState &&& WT_INTERRUPTED ≠ 0 then wakeupProc proc
      else pure PUnit.unit

end Family

end UcoreSmp
