import Mathlib.Algebra.BigOperators.Group.Finset.Piecewise
import UcoreSmp.FileTableProcesses

/-!
# Histories of descriptor calls

Any number of processes open, close, duplicate and use descriptors, fork, exec
and exit; tables may be shared.  A process inside `vfs_open`, or inside an
operation on an inode, is cut off there and other processes run meanwhile.
-/

namespace UcoreSmp

open Function FileState Finset

/-- Where a process is when it does not run. -/
inductive Busy where
  | idle
  | opening (fd : Nat) (openFlags : BitVec 32)
  | holding (op : SlotOp) (fd node : Nat)

structure FdProcess where
  table : Nat
  busy : Busy

variable {process : FdProcess} {table pid fd : Nat} {slot : Nat × Nat} {kernel : FileState}

namespace FdProcess

def holds (process : FdProcess) (slot : Nat × Nat) : Nat :=
  match process.busy with
  | .holding _ fd _ => if slot = (process.table, fd) then 1 else 0
  | _ => 0

def opens (process : FdProcess) (slot : Nat × Nat) : Nat :=
  match process.busy with
  | .opening fd _ => if slot = (process.table, fd) then 1 else 0
  | _ => 0

def uses (process : FdProcess) (table : Nat) : Nat :=
  if process.table = table then 1 else 0

theorem holds_eq_zero (other : process.table ≠ table)
    (fd : Nat) : process.holds (table, fd) = 0 := by
  unfold holds
  split
  · simp [other.symm]
  · rfl

theorem opens_eq_zero (other : process.table ≠ table)
    (fd : Nat) : process.opens (table, fd) = 0 := by
  unfold opens
  split
  · simp [other.symm]
  · rfl

end FdProcess

open FdProcess

/-- The tables and inode counters, the allocated tables, the live processes, and
the references to inodes held neither by a slot nor as a working directory. -/
structure FdSystem where
  kernel : FileState
  tables : Finset Nat
  procs : Finset Nat
  proc : Nat → FdProcess
  outside : Nat → Nat

namespace FdSystem

def tally (sys : FdSystem) (count : FdProcess → Nat) : Nat :=
  ∑ pid ∈ sys.procs, count (sys.proc pid)

def holders (sys : FdSystem) (slot : Nat × Nat) : Nat :=
  sys.tally fun process => process.holds slot

def openers (sys : FdSystem) (slot : Nat × Nat) : Nat :=
  sys.tally fun process => process.opens slot

def sharers (sys : FdSystem) (table : Nat) : Nat :=
  sys.tally fun process => process.uses table

def pwds (sys : FdSystem) (node : Nat) : Nat :=
  ∑ table ∈ sys.tables, if (sys.kernel.header table).1 = some node then 1 else 0

def others (sys : FdSystem) (node : Nat) : Nat :=
  sys.pwds node + sys.outside node

/-- The slots in state `FD_OPENED` or `FD_CLOSED` that point to the inode. -/
def openSlots (sys : FdSystem) (node : Nat) : Finset (Nat × Nat) :=
  (slotsOf sys.tables).filter fun slot =>
    ((sys.kernel.file slot.1 slot.2).status = .opened ∨
      (sys.kernel.file slot.1 slot.2).status = .closed) ∧
    (sys.kernel.file slot.1 slot.2).node = some node

def setProc (sys : FdSystem) (kernel : FileState) (pid : Nat) (busy : Busy) : FdSystem :=
  { sys with
    kernel := kernel
    proc := update sys.proc pid { sys.proc pid with busy := busy } }

def addProc (sys : FdSystem) (kernel : FileState) (pid table : Nat) : FdSystem :=
  { sys with
    kernel := kernel
    tables := insert table sys.tables
    procs := insert pid sys.procs
    proc := update sys.proc pid ⟨table, .idle⟩ }

def removeProc (sys : FdSystem) (kernel : FileState) (tables : Finset Nat) (pid : Nat) : FdSystem :=
  { sys with kernel := kernel, tables := tables, procs := sys.procs.erase pid }

end FdSystem

open FdSystem

/-- The calls of a history.  `lookup` and `release` are references that other
parts of the kernel take and drop. -/
inductive FdCall where
  | openBegin (pid : Nat) (openFlags : BitVec 32)
  | openEnd (pid : Nat) (answers : OpenAnswers)
  | close (pid : Nat) (fd : Int)
  | dup (pid : Nat) (fd1 fd2 : Int)
  | hold (op : SlotOp) (pid : Nat) (fd : Int)
  | unhold (pid : Nat) (ret amount : Int)
  | fork (pid child : Nat) (shares : Bool) (fresh : Option Nat)
  | exec (pid : Nat)
  | exit (pid : Nat)
  | chdir (pid node : Nat)
  | lookup (node : Nat)
  | release (node : Nat)

namespace FdCall

/-- When a call can happen.  The file system below never fails `vop_fstat`, nor
a `vop_truncate` to length zero, which only frees blocks. -/
def Enabled (sys : FdSystem) : FdCall → Prop
  | openBegin pid _ | close pid _ | dup pid _ _ | hold _ pid _ | exec pid
  | exit pid | chdir pid _ => pid ∈ sys.procs ∧ (sys.proc pid).busy = .idle
  | openEnd pid answers =>
    pid ∈ sys.procs ∧ (∃ fd openFlags, (sys.proc pid).busy = .opening fd openFlags) ∧
      (∀ ret, answers.vopTruncate = some ret → ret = 0) ∧
      ∀ ret, answers.vopFstat ≠ .error ret
  | unhold pid _ _ =>
    pid ∈ sys.procs ∧ ∃ op fd node, (sys.proc pid).busy = .holding op fd node
  | fork pid child _ fresh =>
    pid ∈ sys.procs ∧ (sys.proc pid).busy = .idle ∧ child ∉ sys.procs ∧
      ∀ table, fresh = some table → table ∉ sys.tables
  | lookup _ => True
  | release node => 0 < sys.outside node

/-- The call: the next system, or the assertion that stops the kernel. -/
def run (sys : FdSystem) : FdCall → Except FileFault FdSystem
  | openBegin pid openFlags => do
    let (result, kernel) ← fileOpenBegin (sys.proc pid).table openFlags sys.kernel
    match result with
    | .error _ => pure (sys.setProc kernel pid .idle)
    | .ok fd => pure (sys.setProc kernel pid (.opening fd openFlags))
  | openEnd pid answers =>
    match (sys.proc pid).busy with
    | .opening fd openFlags => do
      let (_, kernel) ← fileOpenEnd (sys.proc pid).table fd openFlags answers sys.kernel
      pure (sys.setProc kernel pid .idle)
    | _ => pure sys
  | close pid fd => do
    let (_, kernel) ← fileClose (sys.proc pid).table fd sys.kernel
    pure (sys.setProc kernel pid .idle)
  | dup pid fd1 fd2 => do
    let (_, kernel) ← fileDup (sys.proc pid).table fd1 fd2 sys.kernel
    pure (sys.setProc kernel pid .idle)
  | hold op pid fd => do
    let (result, kernel) ← fileHold op (sys.proc pid).table fd sys.kernel
    match result with
    | .error _ => pure (sys.setProc kernel pid .idle)
    | .ok slot =>
      -- the operation keeps the inode it found in the slot
      match (kernel.file (sys.proc pid).table slot).node with
      | none => throw .nullNode
      | some node => pure (sys.setProc kernel pid (.holding op slot node))
  | unhold pid ret amount =>
    match (sys.proc pid).busy with
    | .holding op fd _ => do
      let (_, kernel) ← fileUnhold op (sys.proc pid).table fd ret amount sys.kernel
      pure (sys.setProc kernel pid .idle)
    | _ => pure sys
  | fork pid child shares fresh => do
    let (result, kernel) ← copyFs (sys.proc pid).table shares fresh sys.kernel
    match result with
    | none => pure { sys with kernel := kernel }
    | some table => pure (sys.addProc kernel child table)
  | exec pid => do
    let (_, kernel) ← filesCloseall (sys.proc pid).table sys.kernel
    pure (sys.setProc kernel pid .idle)
  | exit pid => do
    let (gone, kernel) ← putFs (sys.proc pid).table sys.kernel
    let tables := if gone then sys.tables.erase (sys.proc pid).table else sys.tables
    pure (sys.removeProc kernel tables pid)
  | chdir pid node => do
    let (_, kernel) ← vfsSetCurdir (sys.proc pid).table node sys.kernel
    pure (sys.setProc kernel pid .idle)
  | lookup node => do
    let (_, kernel) ← inodeRefInc node sys.kernel
    pure { sys with
      kernel := kernel
      outside := update sys.outside node (sys.outside node + 1) }
  | release node => do
    let (_, kernel) ← inodeRefDec node sys.kernel
    pure { sys with
      kernel := kernel
      outside := update sys.outside node (sys.outside node - 1) }

end FdCall

/-- After boot one process has a new table, and no inode is open. -/
structure FdBoot (sys : FdSystem) (pid table : Nat) : Prop where
  tables : sys.tables = {table}
  procs : sys.procs = {pid}
  process : sys.proc pid = ⟨table, .idle⟩
  header : sys.kernel.header table = (none, 1)
  slots : ∀ fd, (sys.kernel.file table fd).status = .none ∧
    (sys.kernel.file table fd).openCount = 0 ∧ (sys.kernel.file table fd).fd = fd
  inodes : ∀ node, (sys.kernel.inodes node).openCount = 0 ∧
    (sys.outside node : Int) ≤ (sys.kernel.inodes node).refCount

inductive FdReaches : FdSystem → Prop
  | boot {sys : FdSystem} {pid table : Nat} : FdBoot sys pid table → FdReaches sys
  | call {sys next : FdSystem} (call : FdCall) :
      FdReaches sys → call.Enabled sys → call.run sys = .ok next → FdReaches next

variable {sys : FdSystem}

namespace FdSystem

section

variable (kernel) (busy : Busy) (member : pid ∈ sys.procs)

include member

theorem tally_setProc (count : FdProcess → Nat) :
    (sys.setProc kernel pid busy).tally count + count (sys.proc pid) =
      sys.tally count + count { sys.proc pid with busy := busy } := by
  have changed := sum_change (f := fun q => count (sys.proc q))
    (g := fun q => count ((sys.setProc kernel pid busy).proc q)) member (by
      intro q _ other
      simp [setProc, other])
  simpa [tally, setProc] using changed

theorem tally_same {count : FdProcess → Nat}
    (same : count { sys.proc pid with busy := busy } = count (sys.proc pid)) :
    (sys.setProc kernel pid busy).tally count = sys.tally count := by
  have moved := tally_setProc kernel busy member count
  omega

theorem sharers_setProc (table : Nat) :
    (sys.setProc kernel pid busy).sharers table = sys.sharers table :=
  tally_same kernel busy member rfl

theorem le_tally (count : FdProcess → Nat) : count (sys.proc pid) ≤ sys.tally count :=
  single_le_sum (f := fun q => count (sys.proc q)) (fun _ _ => Nat.zero_le _) member

end

theorem tally_removeProc (kernel : FileState) (tables : Finset Nat)
    (member : pid ∈ sys.procs) (count : FdProcess → Nat) :
    (sys.removeProc kernel tables pid).tally count + count (sys.proc pid) = sys.tally count :=
  sum_erase_add sys.procs (fun q => count (sys.proc q)) member

theorem tally_addProc (kernel : FileState) (table : Nat) (fresh : pid ∉ sys.procs)
    (count : FdProcess → Nat) :
    (sys.addProc kernel pid table).tally count = sys.tally count + count ⟨table, .idle⟩ := by
  have kept : ∀ q ∈ sys.procs,
      count ((sys.addProc kernel pid table).proc q) = count (sys.proc q) := by
    intro q member
    have other : q ≠ pid := fun same => fresh (same ▸ member)
    simp [addProc, other]
  have added : (sys.addProc kernel pid table).proc pid = ⟨table, .idle⟩ := by
    simp [addProc]
  unfold tally
  rw [show (sys.addProc kernel pid table).procs = insert pid sys.procs from rfl,
    sum_insert fresh, sum_congr rfl kept, added, Nat.add_comm]

end FdSystem

/-- What a process knows about its slot while it is cut off. -/
def FdProcess.BusyOk (process : FdProcess) (kernel : FileState) : Prop :=
  match process.busy with
  | .idle => True
  | .opening fd _ => fd < FILES_STRUCT_NENTRY
  | .holding _ fd node => fd < FILES_STRUCT_NENTRY ∧
      (kernel.file process.table fd).node = some node

variable {next : FileState} {op : SlotOp} {node : Nat}

theorem FdProcess.BusyOk.frame (ok : process.BusyOk kernel)
    (nodes : ∀ op fd node, process.busy = .holding op fd node → fd < FILES_STRUCT_NENTRY →
      (next.file process.table fd).node = (kernel.file process.table fd).node) :
    process.BusyOk next := by
  unfold BusyOk at ok ⊢
  cases state : process.busy with
  | idle => trivial
  | opening fd openFlags =>
    simp only [state] at ok
    exact ok
  | holding op fd node =>
    simp only [state] at ok
    exact ⟨ok.1, (nodes op fd node state ok.1).trans ok.2⟩

structure FdKept (sys : FdSystem) : Prop where
  accounts : Accounts sys.tables sys.holders sys.openers sys.others sys.kernel
  live : ∀ pid ∈ sys.procs, (sys.proc pid).table ∈ sys.tables
  shared : ∀ table ∈ sys.tables, (sys.kernel.header table).2 = sys.sharers table
  busy : ∀ pid ∈ sys.procs, (sys.proc pid).BusyOk sys.kernel

/-- The slots that are held keep their inodes. -/
def FdSystem.KeepsNodes (sys : FdSystem) (kernel : FileState) : Prop :=
  ∀ slot ∈ slotsOf sys.tables, 0 < sys.holders slot →
    (kernel.file slot.1 slot.2).node = (sys.kernel.file slot.1 slot.2).node

namespace FdKept

variable {busy : Busy}

theorem counts_idle (kernel : FileState) (member : pid ∈ sys.procs)
    (idle : (sys.proc pid).busy = .idle) : (sys.setProc kernel pid .idle).holders =
      sys.holders ∧ (sys.setProc kernel pid .idle).openers = sys.openers := by
  constructor
  · exact funext fun _ => tally_same kernel .idle member (by simp [holds, idle])
  · exact funext fun _ => tally_same kernel .idle member (by simp [opens, idle])

section

variable (kept : FdKept sys) (member : pid ∈ sys.procs)

include kept member

theorem shared_pos : 0 < (sys.kernel.header (sys.proc pid).table).2 := by
  have uses : (sys.proc pid).uses (sys.proc pid).table = 1 := if_pos rfl
  have counted := FdSystem.le_tally member fun process => process.uses (sys.proc pid).table
  have shared := kept.shared _ (kept.live pid member)
  simp only [sharers] at shared
  omega

theorem holding_slot (holding : (sys.proc pid).busy = .holding op fd node) :
    ((sys.proc pid).table, fd) ∈ slotsOf sys.tables ∧ 0 < sys.holders ((sys.proc pid).table, fd) ∧
      (sys.kernel.file (sys.proc pid).table fd).node = some node := by
  have busyOk := kept.busy pid member
  simp only [BusyOk, holding] at busyOk
  have held := FdSystem.le_tally member fun process => process.holds ((sys.proc pid).table, fd)
  simp only [holds, holding, if_true] at held
  rw [mem_slotsOf]
  exact ⟨⟨kept.live pid member, busyOk.1⟩, held, busyOk.2⟩

theorem setProcPwd (accounts : Accounts sys.tables (sys.setProc kernel pid busy).holders
      (sys.setProc kernel pid busy).openers (sys.setProc kernel pid busy).others kernel)
    (shared : ∀ t, (kernel.header t).2 = (sys.kernel.header t).2) (nodes : sys.KeepsNodes kernel)
    (busyOk : BusyOk { sys.proc pid with busy := busy } kernel) :
    FdKept (sys.setProc kernel pid busy) := by
  constructor
  · exact accounts
  · intro q inside
    by_cases same : q = pid
    · subst same
      simpa [setProc] using kept.live q member
    · simpa [setProc, same] using kept.live q inside
  · intro table live
    rw [sharers_setProc kernel busy member]
    change (kernel.header table).2 = _
    rw [shared]
    exact kept.shared table live
  intro q inside
  by_cases same : q = pid
  · subst same
    simpa [setProc] using busyOk
  simp only [setProc, update_of_ne same]
  refine (kept.busy q inside).frame fun op fd node holding _ => ?_
  obtain ⟨known, held, -⟩ := kept.holding_slot inside holding
  exact nodes _ known held

theorem setProc {holders openers : Nat × Nat → Nat}
    (accounts : Accounts sys.tables holders openers sys.others kernel)
    (holds' : ∀ slot, holders slot + (sys.proc pid).holds slot =
      sys.holders slot + holds { sys.proc pid with busy := busy } slot)
    (opens' : ∀ slot, openers slot + (sys.proc pid).opens slot =
      sys.openers slot + opens { sys.proc pid with busy := busy } slot)
    (header : ∀ t, kernel.header t = sys.kernel.header t) (nodes : sys.KeepsNodes kernel)
    (busyOk : BusyOk { sys.proc pid with busy := busy } kernel) :
    FdKept (sys.setProc kernel pid busy) := by
  have others : (sys.setProc kernel pid busy).others = sys.others := by
    funext node
    simp [FdSystem.others, FdSystem.pwds, FdSystem.setProc, header]
  have sameHolders : (sys.setProc kernel pid busy).holders = holders := by
    funext slot
    exact Nat.add_right_cancel ((tally_setProc kernel busy member _).trans (holds' slot).symm)
  have sameOpeners : (sys.setProc kernel pid busy).openers = openers := by
    funext slot
    exact Nat.add_right_cancel ((tally_setProc kernel busy member _).trans (opens' slot).symm)
  apply kept.setProcPwd member
  · rw [sameHolders, sameOpeners, others]
    exact accounts
  · intro t
    rw [header t]
  · exact nodes
  · exact busyOk

theorem setProc_idle (idle : (sys.proc pid).busy = .idle)
    (accounts : Accounts sys.tables sys.holders sys.openers sys.others kernel)
    (header : ∀ t, kernel.header t = sys.kernel.header t) (nodes : sys.KeepsNodes kernel) :
    FdKept (sys.setProc kernel pid .idle) := by
  refine kept.setProc member accounts ?_ ?_ header nodes trivial
  · simp [holds, idle]
  · simp [opens, idle]

end

end FdKept

/-- What a call is allowed to do: keep the accounts and run `vop_close` exactly
on the inodes that lose their last slot, or stop on an inode without the
operation asked for. -/
def FdCallOk (sys : FdSystem) : Except FileFault FdSystem → Prop
  | .ok next => FdKept next ∧ ∀ node,
      next.kernel.vopCloses node = sys.kernel.vopCloses node +
        if 0 < (sys.kernel.inodes node).openCount ∧
          (next.kernel.inodes node).openCount = 0 then 1 else 0
  | .error fault => fault = .missingOp

theorem Grows.closesLast {state : FileState}
    (grows : Grows state next) (node : Nat) : next.vopCloses node = state.vopCloses node + if 0 <
      (state.inodes node).openCount ∧ (next.inodes node).openCount = 0 then 1 else 0 := by
  have := grows.more node
  rw [grows.closes, if_neg (by omega), Nat.add_zero]

theorem fdCallOk_bind {α : Type} {routine : FileM α}
    {rest : α × FileState → Except FileFault FdSystem}
    (ends : Ends routine (fun value kernel => FdCallOk sys (rest (value, kernel)))
      (fun _ => False) sys.kernel) :
    FdCallOk sys (routine sys.kernel >>= rest) := by
  obtain ⟨value, kernel, ran, done⟩ := ends.returns
  rw [ran]
  exact done

namespace FdKept

theorem not_held (kept : FdKept sys) (inside : slot ∈ slotsOf sys.tables)
    (status : (sys.kernel.file slot.1 slot.2).status = .none) : sys.holders slot = 0 :=
  (kept.accounts.slotOk slot inside).not_held (.inl status)

/-- A slot that nobody holds, or that keeps its inode. -/
theorem nodes_touched (touches : TouchesOnly (sys.proc pid).table fd sys.kernel kernel)
    (mild : sys.holders ((sys.proc pid).table, fd) = 0 ∨
      (kernel.file (sys.proc pid).table fd).node = (sys.kernel.file (sys.proc pid).table fd).node) :
    sys.KeepsNodes kernel := by
  intro slot _ isHeld
  by_cases same : slot = ((sys.proc pid).table, fd)
  · subst same
    exact mild.resolve_left isHeld.ne'
  · rw [touches.files slot same]

section

variable (kept : FdKept sys) (member : pid ∈ sys.procs)

include kept member

theorem openEnd {openFlags : BitVec 32} (opening : (sys.proc pid).busy = .opening fd openFlags)
    {answers : OpenAnswers} (truncates : ∀ ret, answers.vopTruncate = some ret → ret = 0)
    (fstats : ∀ ret, answers.vopFstat ≠ .error ret) :
    FdCallOk sys ((FdCall.openEnd pid answers).run sys) := by
  have busyOk := kept.busy pid member
  simp only [BusyOk, opening] at busyOk
  have inside := mem_slotsOf.mpr ⟨kept.live pid member, busyOk⟩
  have counted := FdSystem.le_tally member fun process => process.opens ((sys.proc pid).table, fd)
  simp only [opens, opening, if_true] at counted
  have initial := (kept.accounts.slotOk _ inside).initial
  have status : (sys.kernel.file (sys.proc pid).table fd).status = .init := by
    by_contra notInit
    simp only [notInit, if_false, openers, opens] at initial
    omega
  simp only [FdCall.run, opening]
  have ends : Ends (fileOpenEnd _ fd openFlags answers) _ _ _ :=
    fileOpenEnd_ends kept.accounts inside status truncates fstats
  unfold Ends at ends
  split at ends
  case h_1 value kernel ran =>
    rw [ran]
    obtain ⟨accounts, touches, grows⟩ := ends
    have notHeld := (kept.accounts.slotOk _ inside).not_held (.inr status)
    rw [if_pos status] at initial
    refine ⟨kept.setProc member accounts ?_ ?_ touches.header
      (nodes_touched touches (.inl notHeld)) trivial, grows.closesLast⟩
    · simp [holds, opening]
    intro slot
    simp only [opens, opening, update_apply]
    split_ifs with here
    · rw [here, initial]
    · rfl
  case h_2 fault ran =>
    rw [ran]
    exact ends

theorem unhold (holding : (sys.proc pid).busy = .holding op fd node) (ret amount : Int) :
    FdCallOk sys ((FdCall.unhold pid ret amount).run sys) := by
  obtain ⟨inside, counted, -⟩ := kept.holding_slot member holding
  simp only [FdCall.run, holding]
  apply fdCallOk_bind
  apply (fileUnhold_ends kept.accounts inside counted).weaken
  rintro _ kernel ⟨accounts, touches, shrinks, sameNode⟩
  refine ⟨kept.setProc member accounts ?_ ?_ touches.header
    (nodes_touched touches (.inr sameNode)) trivial, shrinks.closes⟩
  · intro slot
    simp only [holds, holding, update_apply]
    split_ifs with here
    · rw [here]
      omega
    · rfl
  · simp [opens, holding]

variable (idle : (sys.proc pid).busy = .idle)

include idle

theorem nothing : FdCallOk sys (.ok (sys.setProc sys.kernel pid .idle)) :=
  ⟨kept.setProc_idle member idle kept.accounts (fun _ => rfl) (fun _ _ _ => rfl),
    (Grows.refl sys.kernel).closesLast⟩

theorem openBegin (openFlags : BitVec 32) :
    FdCallOk sys ((FdCall.openBegin pid openFlags).run sys) := by
  apply fdCallOk_bind
  simp only [fileOpenBegin, ends_ite, ends_pure]
  refine ⟨fun _ => kept.nothing member idle, fun _ => ?_⟩
  apply (fdArrayAlloc_ends kept.accounts (kept.live pid member) (kept.shared_pos member)
    NO_FD).weaken
  intro result kernel outcome
  cases result with
  | error ret =>
    subst outcome
    exact kept.nothing member idle
  | ok slot =>
    obtain ⟨inside, status, accounts, touches, grows, -⟩ := outcome
    have before : sys.openers _ = _ := (kept.accounts.slotOk _ inside).initial
    rw [if_neg (by simp [status])] at before
    refine ⟨kept.setProc member accounts ?_ ?_ touches.header
      (nodes_touched touches (.inl (kept.not_held inside status))) ?_, grows.closesLast⟩
    · simp [holds, idle]
    · intro slot
      simp only [opens, idle, update_apply]
      split_ifs with here
      · rw [here, before]
      · rfl
    · rw [mem_slotsOf] at inside
      exact inside.2

theorem closing (accounts : Accounts sys.tables sys.holders sys.openers sys.others kernel)
    (closes : ClosesSlots (sys.proc pid).table sys.kernel kernel) :
    FdCallOk sys (.ok (sys.setProc kernel pid .idle)) :=
  ⟨kept.setProc_idle member idle accounts closes.header
    (fun slot _ _ => closes.nodes slot.1 slot.2), closes.shrinks.closes⟩

theorem close (fd : Int) : FdCallOk sys ((FdCall.close pid fd).run sys) := by
  apply fdCallOk_bind
  simp only [fileClose, ends_bind]
  refine fd2file_ends (kept.live pid member) (kept.shared_pos member) (kept.nothing member idle)
    fun slot inside status => ?_
  simp only [ends_bind, ends_pure]
  apply (fdArrayClose_ends kept.accounts inside status).weaken
  rintro _ kernel ⟨accounts, touches, shrinks, sameNode, -⟩
  exact kept.closing member idle accounts (touches.closesSlots shrinks sameNode)

theorem exec : FdCallOk sys ((FdCall.exec pid).run sys) := by
  apply fdCallOk_bind
  simp only [filesCloseall, ends_bind, ends_get, ends_check]
  constructor
  · intro _
    apply (closeFds_ends (kept.live pid member) _ kept.accounts (by decide)).weaken
    intro _ kernel closed
    exact kept.closing member idle closed.1 closed.2
  · intro stuck
    exact stuck (kept.shared_pos member)

theorem dup (fd1 fd2 : Int) : FdCallOk sys ((FdCall.dup pid fd1 fd2).run sys) := by
  have live := kept.live pid member
  have shared := kept.shared_pos member
  apply fdCallOk_bind
  simp only [fileDup, ends_bind]
  refine fd2file_ends live shared (kept.nothing member idle)
    fun source sourceInside sourceStatus => ?_
  simp only [ends_bind]
  apply (fdArrayAlloc_ends kept.accounts live shared fd2).weaken
  intro result allocated outcome
  cases result with
  | error ret =>
    subst outcome
    exact kept.nothing member idle
  | ok slot =>
    obtain ⟨inside, free, accounts, touches, grows, status⟩ := outcome
    have distinct : source ≠ slot := by
      intro same
      rw [same, free] at sourceStatus
      cases sourceStatus
    have sameSource : allocated.file (sys.proc pid).table source =
        sys.kernel.file (sys.proc pid).table source :=
      touches.files ((sys.proc pid).table, source) (by simp [distinct])
    simp only [ends_bind, ends_get, ends_pure]
    apply (fdArrayDup_ends accounts inside sourceInside status
      (by rw [sameSource]; exact sourceStatus)).weaken
    rintro _ kernel ⟨final, touches', grows', -⟩
    have notOpening := (kept.accounts.slotOk _ inside).initial
    simp [free] at notOpening
    rw [update_idem, ← notOpening, update_eq_self] at final
    have both := touches.trans touches'
    exact ⟨kept.setProc_idle member idle final both.header
      (nodes_touched both (.inl (kept.not_held inside free))), (grows.trans grows').closesLast⟩

theorem hold (op : SlotOp) (fd : Int) : FdCallOk sys ((FdCall.hold op pid fd).run sys) := by
  apply fdCallOk_bind
  simp only [fileHold, ends_bind]
  refine fd2file_ends (kept.live pid member) (kept.shared_pos member) (kept.nothing member idle)
    fun slot inside status => ?_
  simp only [ends_bind, ends_get, ends_ite, ends_pure]
  refine ⟨fun _ => kept.nothing member idle, fun _ => ?_⟩
  apply (fdArrayAcquire_ends kept.accounts inside status).weaken
  rintro _ kernel ⟨accounts, touches, grows, sameNode⟩
  obtain ⟨node, points⟩ := (kept.accounts.slotOk _ inside).bound (.inl status)
  have points' := sameNode.trans points
  simp only [points']
  refine ⟨kept.setProc member accounts ?_ ?_ touches.header
    (nodes_touched touches (.inr sameNode)) ?_, grows.closesLast⟩
  · intro slot
    simp only [holds, idle, update_apply]
    split_ifs with here
    · rw [here]
    · rfl
  · simp [opens, idle]
  · rw [mem_slotsOf] at inside
    exact ⟨inside.2, points'⟩

end

theorem alone_of_sharers (member : pid ∈ sys.procs)
    (single : sys.sharers (sys.proc pid).table = 1) {q : Nat} (inside : q ∈ sys.procs)
    (other : q ≠ pid) : (sys.proc q).table ≠ (sys.proc pid).table := by
  intro sameTable
  have remaining : q ∈ (sys.removeProc sys.kernel sys.tables pid).procs :=
    mem_erase.mpr ⟨other, inside⟩
  have rest := tally_removeProc sys.kernel sys.tables member
    fun process => process.uses (sys.proc pid).table
  have counted := FdSystem.le_tally remaining fun process => process.uses (sys.proc pid).table
  have mine : (sys.proc pid).uses (sys.proc pid).table = 1 := if_pos rfl
  have theirs : ((sys.removeProc sys.kernel sys.tables pid).proc q).uses
      (sys.proc pid).table = 1 := if_pos sameTable
  simp only [sharers] at single
  omega

/-- No work is cut off in a table. -/
theorem unused (idle : ∀ q ∈ sys.procs, (sys.proc q).table = table → (sys.proc q).busy = .idle)
    (f : Nat) : sys.holders (table, f) = 0 ∧ sys.openers (table, f) = 0 := by
  have nothing : ∀ q ∈ sys.procs, (sys.proc q).holds (table, f) = 0 ∧
      (sys.proc q).opens (table, f) = 0 := by
    intro q inside
    by_cases here : (sys.proc q).table = table
    · simp [holds, opens, idle q inside here]
    · exact ⟨holds_eq_zero here f, opens_eq_zero here f⟩
  exact ⟨sum_eq_zero fun q inside => (nothing q inside).1,
    sum_eq_zero fun q inside => (nothing q inside).2⟩

section

variable (kept : FdKept sys)

include kept

variable {child : Nat}

theorem addProc (newChild : child ∉ sys.procs)
    (accounts : Accounts (insert table sys.tables) sys.holders sys.openers
      (sys.addProc kernel child table).others kernel) (shared : ∀ t ∈ insert table sys.tables,
      (kernel.header t).2 = sys.sharers t + if table = t then 1 else 0)
    (files : ∀ t ∈ sys.tables, ∀ f, kernel.file t f = sys.kernel.file t f) :
    FdKept (sys.addProc kernel child table) := by
  have holders : (sys.addProc kernel child table).holders = sys.holders :=
    funext fun _ => tally_addProc kernel table newChild _
  have openers : (sys.addProc kernel child table).openers = sys.openers :=
    funext fun _ => tally_addProc kernel table newChild _
  constructor
  · rw [holders, openers]
    exact accounts
  · intro q inside
    by_cases isChild : q = child
    · subst isChild
      simp [addProc]
    · have old := mem_of_mem_insert_of_ne inside isChild
      simpa [FdSystem.addProc, isChild] using .inr (kept.live q old)
  · intro t inside
    have counted := tally_addProc kernel table newChild fun process => process.uses t
    simp only [sharers]
    change (kernel.header t).2 = _
    rw [counted, shared t inside]
    simp only [sharers, uses]
    split_ifs <;> simp
  intro q inside
  by_cases isChild : q = child
  · subst isChild
    simp [addProc, BusyOk]
  have old := mem_of_mem_insert_of_ne inside isChild
  simp only [FdSystem.addProc, update_of_ne isChild]
  exact (kept.busy q old).frame fun _ _ _ _ _ => by rw [files _ (kept.live q old)]

section

variable (member : pid ∈ sys.procs)

include member

theorem forkShare (newChild : child ∉ sys.procs) : FdCallOk sys (.ok (sys.addProc
      (sys.kernel.setFilesCount (sys.proc pid).table
        ((sys.kernel.header (sys.proc pid).table).2 + 1)) child (sys.proc pid).table)) := by
  set table := (sys.proc pid).table
  set raised := sys.kernel.setFilesCount table ((sys.kernel.header table).2 + 1) with isRaised
  have sameTables : insert table sys.tables = sys.tables :=
    insert_eq_of_mem (kept.live pid member)
  have others : (sys.addProc raised child table).others = sys.others := by
    funext n
    simp only [FdSystem.others, FdSystem.pwds, FdSystem.addProc, sameTables, isRaised,
      setFilesCount_pwd]
  have grows : Grows sys.kernel raised := Grows.of_same rfl rfl
  refine ⟨kept.addProc newChild ?_ ?_ ?_, grows.closesLast⟩
  · rw [others, sameTables]
    exact kept.accounts.setFilesCount _
  · intro t inside
    rw [sameTables] at inside
    have shared := kept.shared t inside
    by_cases same : t = table
    · rw [← same] at isRaised ⊢
      simp [isRaised, shared]
    · have other : table ≠ t := fun isTable => same isTable.symm
      simp [isRaised, same, other, shared]
  · intro t _ f
    simp [isRaised]

theorem forkCopy (newChild : child ∉ sys.procs) (fresh : table ∉ sys.tables) : Ends (do
        filesCreate table
        dupFs table (sys.proc pid).table
        modify fun state => state.setFilesCount table ((state.files table).filesCount + 1))
      (fun _ next => FdCallOk sys (.ok (sys.addProc next child table)))
      (fun _ => False) sys.kernel := by
  have live := kept.live pid member
  have distinct : table ≠ (sys.proc pid).table := fun same => fresh (same ▸ live)
  simp only [ends_bind, ends_modify]
  apply (filesCreate_ends kept.accounts fresh
    (unused fun q inside same => absurd (same ▸ kept.live q inside) fresh)).weaken
  rintro _ created ⟨accounts, files, header, newHeader, free, grows⟩
  apply (dupFs_ends accounts (mem_insert_self _ _) (mem_insert_of_mem live)
    distinct (by rw [newHeader]) (by rw [header _ distinct.symm]; exact kept.shared_pos member)
    free (fun n => rfl)).weaken
  rintro _ copied ⟨accounts', files', header', newHeader', grows'⟩
  set final := copied.setFilesCount table ((copied.files table).filesCount + 1) with isFinal
  have finalHeader : ∀ t, t ≠ table → final.header t = sys.kernel.header t := by
    intro t other
    rw [isFinal, setFilesCount_header, if_neg other, header' t other, header t other]
  have oldPwd : (created.header (sys.proc pid).table).1 =
      (sys.kernel.header (sys.proc pid).table).1 := by
    rw [header _ distinct.symm]
  have newPwd : (copied.header table).1 = (sys.kernel.header (sys.proc pid).table).1 := by
    rw [newHeader', ← oldPwd]
  have growsAll : Grows sys.kernel final := (grows.trans grows').trans (Grows.of_same rfl rfl)
  refine ⟨kept.addProc newChild ?_ ?_ ?_, growsAll.closesLast⟩
  · have others : (sys.addProc final child table).others = fun n => sys.others n +
        if (created.header (sys.proc pid).table).1 = some n then 1 else 0 := by
      funext n
      have rest : ∑ t ∈ sys.tables, (if (final.header t).1 = some n then 1 else 0) =
          sys.pwds n := by
        apply sum_congr rfl
        intro t inside
        have other : t ≠ table := fun same => fresh (same ▸ inside)
        rw [finalHeader t other]
      change (∑ t ∈ insert table sys.tables, if (final.header t).1 = some n then 1 else 0) +
        sys.outside n = sys.pwds n + sys.outside n + _
      rw [sum_insert fresh, rest, isFinal, setFilesCount_header, if_pos rfl, newPwd, oldPwd]
      omega
    rw [others]
    exact accounts'.setFilesCount _
  · intro t inside
    by_cases same : t = table
    · subst same
      have none : sys.sharers t = 0 := by
        apply sum_eq_zero
        intro q member
        have : (sys.proc q).table ≠ t := fun isTable => fresh (isTable ▸ kept.live q member)
        simp [uses, this]
      have start : (copied.files t).filesCount = 0 := congrArg Prod.snd newHeader'
      simp [isFinal, none, start]
    have old := mem_of_mem_insert_of_ne inside same
    have other : table ≠ t := fun isTable => same isTable.symm
    rw [finalHeader t same, kept.shared t old]
    simp [other]
  · intro t inside f
    have other : t ≠ table := fun same => fresh (same ▸ inside)
    rw [isFinal, setFilesCount_file, files' t f other, files t f other]

theorem fork (newChild : child ∉ sys.procs) (shares : Bool) (fresh : Option Nat)
    (freshTable : ∀ table, fresh = some table → table ∉ sys.tables) :
    FdCallOk sys ((FdCall.fork pid child shares fresh).run sys) := by
  apply fdCallOk_bind
  cases shares with
  | true => exact kept.forkShare member newChild
  | false =>
    cases fresh with
    | none => exact ⟨kept, (Grows.refl sys.kernel).closesLast⟩
    | some table =>
      have copies := kept.forkCopy member newChild (freshTable table rfl)
      simp only [ends_bind, ends_modify] at copies
      simp only [copyFs, Bool.false_eq_true, if_false, ends_bind, ends_modify, ends_pure]
      exact copies

variable (idle : (sys.proc pid).busy = .idle)

include idle

theorem removeProc {tables : Finset Nat} (subset : tables ⊆ sys.tables)
    (accounts : Accounts tables sys.holders sys.openers
      (sys.removeProc kernel tables pid).others kernel)
    (live : ∀ q ∈ sys.procs, q ≠ pid → (sys.proc q).table ∈ tables)
    (shared : ∀ table ∈ tables, (kernel.header table).2 =
      (sys.kernel.header table).2 - (sys.proc pid).uses table)
    (nodes : ∀ t f, (kernel.file t f).node = (sys.kernel.file t f).node) :
    FdKept (sys.removeProc kernel tables pid) := by
  have same : ∀ count : FdProcess → Nat, count (sys.proc pid) = 0 →
      (sys.removeProc kernel tables pid).tally count = sys.tally count := by
    intro count none
    rw [← tally_removeProc kernel tables member count, none, Nat.add_zero]
  have holders : (sys.removeProc kernel tables pid).holders = sys.holders :=
    funext fun _ => same _ (by simp [holds, idle])
  have openers : (sys.removeProc kernel tables pid).openers = sys.openers :=
    funext fun _ => same _ (by simp [opens, idle])
  constructor
  · rw [holders, openers]
    exact accounts
  · intro q inside
    have remaining := mem_erase.mp inside
    exact live q remaining.2 remaining.1
  · intro table inside
    have counted := tally_removeProc kernel tables member fun process => process.uses table
    have before := kept.shared table (subset inside)
    have after := shared table inside
    simp only [sharers] at before ⊢
    change (kernel.header table).2 = _
    omega
  · intro q inside
    exact (kept.busy q (mem_erase.mp inside).2).frame fun _ _ _ _ _ => nodes _ _

theorem exit : FdCallOk sys ((FdCall.exit pid).run sys) := by
  set table := (sys.proc pid).table with isTable
  have live : table ∈ sys.tables := kept.live pid member
  have shared := kept.shared _ live
  have mine : (sys.proc pid).uses table = 1 := if_pos rfl
  set lowered := sys.kernel.setFilesCount table ((sys.kernel.header table).2 - 1) with isLowered
  have counted : Accounts sys.tables sys.holders sys.openers sys.others lowered :=
    kept.accounts.setFilesCount _
  apply fdCallOk_bind
  simp only [putFs, ends_bind, ends_get, ends_set, ends_ite, ends_pure]
  constructor
  · -- the last process of the table
    intro last
    change (sys.kernel.header table).2 - 1 = 0 at last
    have single : sys.sharers table = 1 := by omega
    set rest : Nat → Nat := fun n => (∑ t ∈ sys.tables.erase table,
      if (sys.kernel.header t).1 = some n then 1 else 0) + sys.outside n
    have split : ∀ n, sys.others n =
        rest n + if (lowered.header table).1 = some n then 1 else 0 := by
      intro n
      rw [setFilesCount_pwd, others, pwds, ← sum_erase_add _ _ live]
      exact Nat.add_right_comm _ _ _
    have unused := unused fun q inside here => by
      by_contra busy
      refine alone_of_sharers member single inside ?_ here
      rintro rfl
      exact busy idle
    apply (filesDestroy_ends counted live unused (by simp [isLowered, last]) split).weaken
    rintro _ next ⟨accounts, closes⟩
    refine ⟨kept.removeProc member idle (erase_subset _ _) ?_ ?_ ?_ ?_, ?_⟩
    · have others : (sys.removeProc next (sys.tables.erase table) pid).others = rest := by
        funext n
        simp only [FdSystem.others, FdSystem.pwds, FdSystem.removeProc, closes.header,
          isLowered, setFilesCount_pwd, rest]
      simp only [if_true]
      rw [others]
      exact accounts
    · intro q inside other
      exact mem_erase.mpr ⟨alone_of_sharers member single inside other, kept.live q inside⟩
    · intro t inside
      have other : t ≠ table := ne_of_mem_erase inside
      rw [closes.header t]
      simp [isLowered, other, uses, ← isTable, other.symm]
    · intro t f
      rw [closes.nodes t f]
      simp [isLowered]
    · exact closes.shrinks.closes
  intro notLast
  change FdCallOk sys (.ok (sys.removeProc lowered sys.tables pid))
  have others : (sys.removeProc lowered sys.tables pid).others = sys.others := by
    funext n
    simp only [FdSystem.others, FdSystem.pwds, FdSystem.removeProc, isLowered, setFilesCount_pwd]
  have same : Grows sys.kernel lowered := Grows.of_same rfl rfl
  refine ⟨kept.removeProc member idle (Finset.Subset.refl _) ?_ ?_ ?_ ?_, same.closesLast⟩
  · rw [others]
    exact counted
  · intro q inside _
    exact kept.live q inside
  · intro t inside
    by_cases same : t = table
    · rw [same, mine]
      simp [isLowered]
    · have other : table ≠ t := fun isTable => same isTable.symm
      simp [isLowered, same, uses, ← isTable, other]
  · intro t f
    simp [isLowered]

theorem chdir (dir : Nat) : FdCallOk sys ((FdCall.chdir pid dir).run sys) := by
  set table := (sys.proc pid).table
  have live : table ∈ sys.tables := kept.live pid member
  apply fdCallOk_bind
  simp only [vfsSetCurdir, ends_bind, ends_get, ends_ite, ends_pure, ends_modify]
  constructor
  · intro _
    exact kept.nothing member idle
  intro _
  have raises : Ends (inodeRefIncOpt (some dir)) _ _ _ :=
    inodeRefIncOpt_ends kept.accounts fun n => rfl
  apply raises.weaken
  rintro _ raised ⟨accounts, files, vopCloses, opens⟩
  obtain ⟨pwds, isPwds⟩ : ∃ pwds : Nat → Nat, pwds = fun n => ∑ t ∈ sys.tables,
      if (if t = table then some dir else (sys.kernel.header t).1) = some n then 1 else 0 :=
    ⟨_, rfl⟩
  have moved : ∀ n, pwds n + (if (sys.kernel.header table).1 = some n then 1 else 0) =
      sys.pwds n + if some dir = some n then 1 else 0 := by
    intro n
    have changed := sum_change (f := fun t => if (sys.kernel.header t).1 = some n then 1 else 0)
      (g := fun t => if (if t = table then some dir else (sys.kernel.header t).1) = some n
        then 1 else 0) live (fun t _ other => by simp only [other, if_false])
    simpa [isPwds, FdSystem.pwds] using changed
  have split : ∀ n, (sys.others n + if some dir = some n then 1 else 0) =
      (pwds n + sys.outside n) + if (sys.kernel.files table).pwd = some n then 1 else 0 := by
    intro n
    have := moved n
    change sys.pwds n + sys.outside n + _ = _ +
      if (sys.kernel.header table).1 = some n then 1 else 0
    omega
  have repointed : Accounts sys.tables sys.holders sys.openers _
      (raised.setPwd table (some dir)) := accounts.setPwd _
  apply (inodeRefDecOpt_ends repointed split).weaken
  rintro _ next ⟨accounts', files', vopCloses', opens'⟩
  obtain ⟨holders, openers⟩ := counts_idle next member idle
  have header' : ∀ t, next.header t =
      if t = table then (some dir, (sys.kernel.header t).2) else sys.kernel.header t := by
    intro t
    rw [← header_congr files t, ← setPwd_header, header_congr files']
  have sameFile : ∀ t f, next.file t f = sys.kernel.file t f := by
    intro t f
    rw [file_congr files', setPwd_file, file_congr files]
  have grows : Grows sys.kernel next := by
    constructor
    · intro n
      exact ((opens' n).trans (opens n)).ge
    · exact vopCloses'.trans vopCloses
  refine ⟨kept.setProcPwd member ?_ ?_ ?_ trivial, grows.closesLast⟩
  · have others : (sys.setProc next pid .idle).others = fun n => pwds n + sys.outside n := by
      rw [isPwds]
      funext n
      change (∑ t ∈ sys.tables, if (next.header t).1 = some n then 1 else 0) + sys.outside n = _
      congr 1
      apply sum_congr rfl
      intro t _
      rw [header' t, apply_ite Prod.fst]
    rw [holders, openers, others]
    exact accounts'
  · intro t
    rw [header' t]
    split_ifs <;> rfl
  · intro slot _ _
    rw [sameFile]

end

theorem elsewhere {outside others : Nat → Nat}
    (moves : RefsOnly sys.tables sys.holders sys.openers others sys.kernel kernel)
    (moved : ∀ n, sys.pwds n + outside n = others n) :
    FdCallOk sys (.ok { sys with kernel := kernel, outside := outside }) := by
  obtain ⟨accounts, files, vopCloses, opens⟩ := moves
  have sameHeader := header_congr files
  have grows : Grows sys.kernel kernel := ⟨fun n => (opens n).ge, vopCloses⟩
  refine ⟨?_, grows.closesLast⟩
  constructor
  · have sameOthers : FdSystem.others { sys with kernel := kernel, outside := outside } =
        others := by
      funext n
      rw [← moved n]
      simp only [FdSystem.others, FdSystem.pwds, sameHeader]
    rw [sameOthers]
    exact accounts
  · exact kept.live
  · intro table live
    rw [sameHeader]
    exact kept.shared table live
  intro q inside
  have busyOk := kept.busy q inside
  simp only [BusyOk, file, files] at busyOk ⊢
  exact busyOk

theorem lookup (node : Nat) : FdCallOk sys ((FdCall.lookup node).run sys) := by
  have raises : Ends (inodeRefIncOpt (some node)) _ _ _ :=
    inodeRefIncOpt_ends kept.accounts fun n => rfl
  apply fdCallOk_bind
  apply raises.weaken
  intro _ kernel moves
  apply kept.elsewhere moves
  intro n
  simp only [others, update_apply, Option.some.injEq, eq_comm (a := n)]
  split_ifs with same
  · subst same
    omega
  · omega

theorem release (outside : 0 < sys.outside node) :
    FdCallOk sys ((FdCall.release node).run sys) := by
  have split : ∀ n, sys.others n = (sys.others n - if some node = some n then 1 else 0) +
      if some node = some n then 1 else 0 := by
    intro n
    by_cases same : node = n
    · subst same
      simp only [others, if_true]
      omega
    · simp [same]
  apply fdCallOk_bind
  apply (inodeRefDecOpt_ends kept.accounts split).weaken
  intro _ kernel moves
  apply kept.elsewhere moves
  intro n
  simp only [others, update_apply, Option.some.injEq, eq_comm (a := n)]
  split_ifs with same
  · subst same
    omega
  · omega

theorem call {call : FdCall} (enabled : call.Enabled sys) : FdCallOk sys (call.run sys) := by
  cases call with
  | openBegin pid openFlags => exact kept.openBegin enabled.1 enabled.2 openFlags
  | openEnd pid answers =>
    obtain ⟨member, ⟨fd, openFlags, opening⟩, truncates, fstats⟩ := enabled
    exact kept.openEnd member opening truncates fstats
  | close pid fd => exact kept.close enabled.1 enabled.2 fd
  | dup pid fd1 fd2 => exact kept.dup enabled.1 enabled.2 fd1 fd2
  | hold op pid fd => exact kept.hold enabled.1 enabled.2 op fd
  | unhold pid ret amount =>
    obtain ⟨member, op, fd, node, holding⟩ := enabled
    exact kept.unhold member holding ret amount
  | fork pid child shares fresh =>
    obtain ⟨member, -, newChild, freshTable⟩ := enabled
    exact kept.fork member newChild shares fresh freshTable
  | exec pid => exact kept.exec enabled.1 enabled.2
  | exit pid => exact kept.exit enabled.1 enabled.2
  | chdir pid node => exact kept.chdir enabled.1 enabled.2 node
  | lookup node => exact kept.lookup node
  | release node => exact kept.release enabled

end

end FdKept

theorem FdBoot.kept (boot : FdBoot sys pid table) : FdKept sys := by
  have pointers : ∀ node, sys.kernel.pointers sys.tables node = 0 := by
    intro node
    apply sum_eq_zero
    intro slot inside
    rw [← Prod.mk.eta (p := slot), mem_slotsOf, boot.tables, mem_singleton] at inside
    apply File.pointsTo_eq_zero
    left
    rw [inside.1]
    exact (boot.slots slot.2).1
  constructor
  · constructor
    · intro slot inside
      rw [← Prod.mk.eta (p := slot), mem_slotsOf, boot.tables, mem_singleton] at inside
      obtain ⟨status, count, numbered⟩ := boot.slots slot.2
      rw [inside.1]
      constructor <;> simp [FdSystem.holders, FdSystem.openers, FdSystem.tally, boot.procs,
        boot.process, holds, opens, status, count, numbered]
    · intro node
      rw [(boot.inodes node).1, pointers node]
      rfl
    intro node
    have := (boot.inodes node).2
    rw [pointers node]
    rw [others, pwds, boot.tables, sum_singleton]
    simp [boot.header, this]
  · intro q inside
    rw [boot.procs, mem_singleton] at inside
    simp [inside, boot.process, boot.tables]
  · intro t inside
    rw [boot.tables, mem_singleton] at inside
    rw [inside, FdSystem.sharers, FdSystem.tally, boot.procs, sum_singleton]
    simp [boot.header, boot.process, uses]
  · intro q inside
    rw [boot.procs, mem_singleton] at inside
    simp [inside, boot.process, BusyOk]

theorem FdReaches.kept (reaches : FdReaches sys) : FdKept sys := by
  induction reaches with
  | boot boot => exact boot.kept
  | call call _ enabled ran ih =>
    have done := ih.call enabled
    rw [ran] at done
    exact done.1

theorem FdSystem.card_openSlots (sys : FdSystem) (node : Nat) :
    (sys.openSlots node).card = sys.kernel.pointers sys.tables node := by
  simp only [openSlots, card_filter, pointers, File.pointsTo]

theorem FdKept.openSlots_empty (kept : FdKept sys) (node : Nat) :
    sys.openSlots node = ∅ ↔ (sys.kernel.inodes node).openCount = 0 := by
  rw [kept.accounts.opened node, ← sys.card_openSlots node, Int.natCast_eq_zero, card_eq_zero]

/-- In every history each inode counts the slots that point to it, an operation
in progress has its slot, and the next call runs `vop_close` exactly on the
inodes whose last slot it frees.  Only an open of an inode that lacks
`vop_create` or `vop_truncate` can stop in an assertion. -/
theorem fd_history_accounts (reaches : FdReaches sys) :
    (∀ node, (sys.kernel.inodes node).openCount = (sys.openSlots node).card) ∧
    (∀ pid ∈ sys.procs, ∀ op fd node, (sys.proc pid).busy = .holding op fd node →
      ((sys.proc pid).table, fd) ∈ sys.openSlots node) ∧
    ∀ call : FdCall, call.Enabled sys →
      match call.run sys with
      | .ok next => ∀ node, next.kernel.vopCloses node = sys.kernel.vopCloses node +
          if sys.openSlots node ≠ ∅ ∧ next.openSlots node = ∅ then 1 else 0
      | .error fault => fault = .missingOp := by
  have kept := reaches.kept
  refine ⟨?_, ?_, ?_⟩
  · intro node
    rw [sys.card_openSlots node]
    exact kept.accounts.opened node
  · intro pid member op fd node holding
    obtain ⟨inside, isHeld, points⟩ := kept.holding_slot member holding
    rw [openSlots, mem_filter]
    exact ⟨inside, (kept.accounts.slotOk _ inside).held isHeld, points⟩
  intro call enabled
  have done := kept.call enabled
  cases outcome : call.run sys with
  | error fault =>
    rw [outcome] at done
    exact done
  | ok next =>
    rw [outcome] at done
    intro node
    have notNegative := kept.accounts.openCount_nonneg node
    rw [done.2 node]
    refine congrArg _ (if_congr ?_ rfl rfl)
    rw [ne_eq, kept.openSlots_empty node, done.1.openSlots_empty node]
    omega

/-- One process on an empty table. -/
def bootedSystem : FdSystem where
  kernel :=
    { files := fun _ => ⟨none, fun fd => ⟨.none, false, false, fd, 0, none, 0⟩, 1⟩
      inodes := fun _ => ⟨0, 0⟩
      vopCloses := fun _ => 0 }
  tables := {0}
  procs := {0}
  proc := fun _ => ⟨0, .idle⟩
  outside := fun _ => 0

/-- A descriptor closed while a read of a forked process still holds it. -/
theorem fd_history_accounts_closed_while_read : ∃ sys, FdReaches sys ∧
      (sys.proc 1).busy = .holding .read 0 7 ∧ (sys.kernel.file 0 0).status = .closed ∧
      (sys.kernel.inodes 7).openCount = (sys.openSlots 7).card ∧ (0, 0) ∈ sys.openSlots 7 := by
  have isBoot : FdBoot bootedSystem 0 0 :=
    ⟨rfl, rfl, rfl, rfl, fun _ => ⟨rfl, rfl, rfl⟩, fun _ => ⟨rfl, le_refl _⟩⟩
  have booted := FdReaches.boot isBoot
  have begun := booted.call (.openBegin 0 O_RDONLY) ⟨by decide, rfl⟩ rfl
  have opened := begun.call (.openEnd 0 ⟨.ok 7, 0, 0, none, .ok 0⟩)
    ⟨by decide, ⟨_, _, rfl⟩, by simp, by simp⟩ rfl
  have forked := opened.call (.fork 0 1 true none) ⟨by decide, rfl, by decide, by simp⟩ rfl
  have reading := forked.call (.hold .read 1 0) ⟨by decide, rfl⟩ rfl
  have closed := reading.call (.close 0 0) ⟨by decide, rfl⟩ rfl
  have invariant := fd_history_accounts closed
  exact ⟨_, closed, rfl, rfl, invariant.1 7, invariant.2.1 1 (by decide) .read 0 7 rfl⟩

end UcoreSmp
