import UcoreSmp.FileTable
import UcoreSmp.Tally

/-!
# Accounts of the descriptor tables

Each slot counts the operations that hold it, each inode the slots that point to
it.  `Accounts` states both for given numbers of holders, of opens in progress
and of references from elsewhere; every function of `file.c` is specified by how
it moves these numbers.
-/

namespace UcoreSmp

namespace FileState

section Views

variable (state : FileState) (table fd : Nat) (file : File) (node : Nat) (counts : InodeCounts)

def header : Option Nat × Int :=
  ((state.files table).pwd, (state.files table).filesCount)

@[simp]
theorem setFile_file (table' fd' : Nat) : (state.setFile table fd file).file table' fd' =
      if table' = table ∧ fd' = fd then file else state.file table' fd' := by
  by_cases sameTable : table' = table
  · subst sameTable
    by_cases sameFd : fd' = fd
    · simp [setFile, FileState.file, sameFd]
    · simp [setFile, FileState.file, sameFd]
  · simp [setFile, FileState.file, sameTable]

@[simp]
theorem setFile_header (table' : Nat) :
    (state.setFile table fd file).header table' = state.header table' := by
  by_cases sameTable : table' = table
  · subst sameTable
    simp [setFile, header]
  · simp [setFile, header, sameTable]

@[simp]
theorem setFile_inodes : (state.setFile table fd file).inodes = state.inodes :=
  rfl

@[simp]
theorem setFile_vopCloses : (state.setFile table fd file).vopCloses = state.vopCloses :=
  rfl

@[simp]
theorem setInode_file (table' fd' : Nat) :
    (state.setInode node counts).file table' fd' = state.file table' fd' :=
  rfl

@[simp]
theorem setInode_header (table' : Nat) :
    (state.setInode node counts).header table' = state.header table' :=
  rfl

@[simp]
theorem setInode_vopCloses : (state.setInode node counts).vopCloses = state.vopCloses :=
  rfl

@[simp]
theorem setInode_refCount (node' : Nat) : ((state.setInode node counts).inodes node').refCount =
      if node' = node then counts.refCount else (state.inodes node').refCount := by
  by_cases same : node' = node
  · subst same
    simp [setInode]
  · simp [setInode, same]

@[simp]
theorem setInode_openCount (node' : Nat) : ((state.setInode node counts).inodes node').openCount =
      if node' = node then counts.openCount else (state.inodes node').openCount := by
  by_cases same : node' = node
  · subst same
    simp [setInode]
  · simp [setInode, same]

end Views

variable {state next : FileState}

theorem file_congr (files : next.files = state.files) (t f : Nat) :
    next.file t f = state.file t f := by
  rw [file, file, files]

theorem header_congr (files : next.files = state.files) (t : Nat) :
    next.header t = state.header t := by
  rw [header, header, files]

end FileState

/-- One for a slot that is `FD_OPENED` or `FD_CLOSED` and points to the inode. -/
def File.pointsTo (file : File) (node : Nat) : Nat :=
  if (file.status = .opened ∨ file.status = .closed) ∧ file.node = some node
  then 1 else 0

def slotsOf (tables : Finset Nat) : Finset (Nat × Nat) :=
  tables ×ˢ Finset.range FILES_STRUCT_NENTRY

@[simp]
theorem mem_slotsOf {tables : Finset Nat} {table fd : Nat} :
    (table, fd) ∈ slotsOf tables ↔ table ∈ tables ∧ fd < FILES_STRUCT_NENTRY := by
  simp [slotsOf]

/-- The number of slots that point to the inode. -/
def FileState.pointers (state : FileState) (tables : Finset Nat) (node : Nat) : Nat :=
  ∑ slot ∈ slotsOf tables, (state.file slot.1 slot.2).pointsTo node

structure SlotOk (file : File) (fd holders openers : Nat) : Prop where
  counted : file.openCount = (if file.status = .opened then 1 else 0) + (holders : Int)
  held : 0 < holders → file.status = .opened ∨ file.status = .closed
  closedHeld : file.status = .closed → 0 < holders
  initial : openers = if file.status = .init then 1 else 0
  bound : file.status = .opened ∨ file.status = .closed → ∃ node, file.node = some node
  numbered : file.fd = fd

/-- The counters of all slots and inodes agree. -/
structure Accounts (tables : Finset Nat) (holders openers : Nat × Nat → Nat)
    (others : Nat → Nat) (state : FileState) : Prop where
  slotOk : ∀ slot ∈ slotsOf tables,
    SlotOk (state.file slot.1 slot.2) slot.2 (holders slot) (openers slot)
  opened : ∀ node, (state.inodes node).openCount = state.pointers tables node
  referenced : ∀ node,
    (state.pointers tables node : Int) + others node ≤ (state.inodes node).refCount

/-- No inode loses a slot and `vop_close` does not run. -/
structure Grows (state next : FileState) : Prop where
  more : ∀ node, (state.inodes node).openCount ≤ (next.inodes node).openCount
  closes : next.vopCloses = state.vopCloses

/-- No inode gains a slot, and `vop_close` runs once on each inode that loses
its last one. -/
structure Shrinks (state next : FileState) : Prop where
  fewer : ∀ node, (next.inodes node).openCount ≤ (state.inodes node).openCount
  closes : ∀ node, next.vopCloses node = state.vopCloses node +
    if 0 < (state.inodes node).openCount ∧ (next.inodes node).openCount = 0
    then 1 else 0

namespace Grows

variable {state middle next : FileState}

theorem refl (state : FileState) : Grows state state :=
  ⟨fun _ => le_refl _, rfl⟩

theorem trans (first : Grows state middle) (second : Grows middle next) : Grows state next :=
  ⟨fun node => (first.more node).trans (second.more node), second.closes.trans first.closes⟩

theorem of_same (inodes : next.inodes = state.inodes)
    (closes : next.vopCloses = state.vopCloses) : Grows state next :=
  ⟨fun node => by rw [inodes], closes⟩

end Grows

namespace Shrinks

variable {state middle next : FileState}

theorem of_same (inodes : next.inodes = state.inodes)
    (closes : next.vopCloses = state.vopCloses) : Shrinks state next := by
  refine ⟨fun node => by rw [inodes], fun node => ?_⟩
  rw [inodes, closes, if_neg (by omega), Nat.add_zero]

theorem trans (notNegative : ∀ node, 0 ≤ (next.inodes node).openCount)
    (first : Shrinks state middle) (second : Shrinks middle next) : Shrinks state next := by
  refine ⟨fun node => (second.fewer node).trans (first.fewer node), fun node => ?_⟩
  rw [second.closes node, first.closes node]
  have := first.fewer node
  have := second.fewer node
  have := notNegative node
  split_ifs <;> omega

end Shrinks

namespace Accounts

variable {tables : Finset Nat} {holders openers : Nat × Nat → Nat}
  {others : Nat → Nat} {state next : FileState} {table fd : Nat}

theorem openCount_nonneg (accounts : Accounts tables holders openers others state)
    (node : Nat) : 0 ≤ (state.inodes node).openCount := by
  rw [accounts.opened node]
  omega

theorem change {holders' openers' : Nat × Nat → Nat}
    (accounts : Accounts tables holders openers others state)
    (inside : (table, fd) ∈ slotsOf tables)
    (sameFiles : ∀ slot, slot ≠ (table, fd) → next.file slot.1 slot.2 = state.file slot.1 slot.2)
    (sameHolders : ∀ slot, slot ≠ (table, fd) → holders' slot = holders slot)
    (sameOpeners : ∀ slot, slot ≠ (table, fd) → openers' slot = openers slot)
    (slotOk : SlotOk (next.file table fd) fd (holders' (table, fd)) (openers' (table, fd)))
    (opened : ∀ node, (next.inodes node).openCount + ((state.file table fd).pointsTo node : Int) =
      (state.inodes node).openCount + (next.file table fd).pointsTo node)
    (referenced : ∀ node, (state.inodes node).refCount +
        ((next.file table fd).pointsTo node : Int) ≤
      (next.inodes node).refCount + (state.file table fd).pointsTo node) :
    Accounts tables holders' openers' others next := by
  have pointers : ∀ node, next.pointers tables node + (state.file table fd).pointsTo node =
      state.pointers tables node + (next.file table fd).pointsTo node := by
    intro node
    refine sum_change (f := fun slot => (state.file slot.1 slot.2).pointsTo node)
      (g := fun slot => (next.file slot.1 slot.2).pointsTo node) inside ?_
    intro slot _ other
    simp only [sameFiles slot other]
  refine ⟨?_, ?_, ?_⟩
  · intro slot member
    by_cases same : slot = (table, fd)
    · subst same
      exact slotOk
    · rw [sameFiles slot same, sameHolders slot same, sameOpeners slot same]
      exact accounts.slotOk slot member
  · intro node
    have := accounts.opened node
    have := opened node
    have := pointers node
    omega
  intro node
  have := accounts.referenced node
  have := referenced node
  have := pointers node
  omega

end Accounts

end UcoreSmp
