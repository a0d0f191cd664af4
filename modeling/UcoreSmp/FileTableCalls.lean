import UcoreSmp.FileTableAccounts

/-!
# What the functions of `file.c` do to the accounts
-/

namespace UcoreSmp

open Function FileState

structure TouchesOnly (table fd : Nat) (state next : FileState) : Prop where
  files : ∀ slot, slot ≠ (table, fd) → next.file slot.1 slot.2 = state.file slot.1 slot.2
  header : ∀ t, next.header t = state.header t

variable {node table fd : Nat} {state middle next : FileState} {file : File}

theorem TouchesOnly.trans (first : TouchesOnly table fd state middle)
    (second : TouchesOnly table fd middle next) : TouchesOnly table fd state next :=
  ⟨fun slot other => (second.files slot other).trans (first.files slot other),
    fun t => (second.header t).trans (first.header t)⟩

theorem TouchesOnly.of_files (touches : TouchesOnly table fd middle next)
    (files : middle.files = state.files) : TouchesOnly table fd state next :=
  ⟨fun slot other => (touches.files slot other).trans (file_congr files _ _),
    fun t => (touches.header t).trans (header_congr files t)⟩

theorem touchesOnly_setFile (state : FileState) (table fd : Nat) (file : File) :
    TouchesOnly table fd state (state.setFile table fd file) := by
  refine ⟨?_, by simp⟩
  intro slot other
  rw [setFile_file, if_neg]
  rintro ⟨sameTable, sameFd⟩
  exact other (Prod.ext sameTable sameFd)

theorem File.pointsTo_congr {file' : File} (status : file'.status = file.status)
    (sameNode : file'.node = file.node) : file'.pointsTo node = file.pointsTo node := by
  simp [File.pointsTo, status, sameNode]

theorem File.pointsTo_eq_zero
    (status : file.status = .none ∨ file.status = .init) : file.pointsTo node = 0 := by
  rcases status with status | status <;> simp [File.pointsTo, status]

theorem File.pointsTo_in_use {node' : Nat} (status : file.status = .opened ∨ file.status = .closed)
    (points : file.node = some node) : file.pointsTo node' = if node' = node then 1 else 0 := by
  simp only [File.pointsTo, status, points, Option.some.injEq, true_and]
  exact if_congr eq_comm rfl rfl

/-- Both counters of the inode are one less, and `vop_close` has run for the last
slot. -/
structure ClosedOnce (node : Nat) (state next : FileState) : Prop where
  opens : ∀ n, (next.inodes n).openCount = (state.inodes n).openCount - if n = node then 1 else 0
  refs : ∀ n, (next.inodes n).refCount = (state.inodes n).refCount - if n = node then 1 else 0
  closes : ∀ n, next.vopCloses n = state.vopCloses n +
    if n = node ∧ (state.inodes n).openCount = 1 then 1 else 0

theorem vfsClose_ends (open_ : 0 < (state.inodes node).openCount)
    (referenced : 0 < (state.inodes node).refCount) :
    Ends (vfsClose node) (fun _ next => next.files = state.files ∧ ClosedOnce node state next)
      (fun _ => False) state := by
  simp only [vfsClose, inodeOpenDec, inodeRefDec, ends_bind, ends_get, ends_check,
    ends_set, ends_ite, ends_modify, ends_pure]
  refine ⟨fun _ => ⟨fun last => ⟨fun _ => ?_, fun none => ?_⟩,
    fun notLast => ⟨fun _ => ?_, fun none => ?_⟩⟩, fun stuck => stuck open_⟩
  · refine ⟨rfl, ?_, ?_, ?_⟩
    · intro n
      by_cases same : n = node <;> simp [addVopClose, setInode, same]
    · intro n
      by_cases same : n = node <;> simp [addVopClose, setInode, same]
    intro n
    have lastCount : (state.inodes node).openCount = 1 := by omega
    by_cases same : n = node
    · simp [addVopClose, setInode, same, lastCount]
    · simp [addVopClose, setInode, same]
  · simp [addVopClose, setInode] at none
    omega
  · refine ⟨rfl, ?_, ?_, ?_⟩
    · intro n
      by_cases same : n = node <;> simp [setInode, same]
    · intro n
      by_cases same : n = node <;> simp [setInode, same]
    intro n
    have : ¬ (n = node ∧ (state.inodes n).openCount = 1) := by
      rintro ⟨rfl, single⟩
      omega
    simp [this]
  · simp [setInode] at none
    omega

theorem fdArrayFree_closed_ends
    (status : (state.file table fd).status = .closed) (count : (state.file table fd).openCount = 0)
    (points : (state.file table fd).node = some node) (open_ : 0 < (state.inodes node).openCount)
    (referenced : 0 < (state.inodes node).refCount) :
    Ends (fdArrayFree table fd) (fun _ next => TouchesOnly table fd state next ∧
        next.file table fd = { state.file table fd with status := .none } ∧
        ClosedOnce node state next)
      (fun _ => False) state := by
  simp only [fdArrayFree, ends_bind, ends_get, ends_check, status, count, points,
    or_true, if_true, ends_modify]
  refine ⟨fun _ => ⟨fun _ => ?_, fun stuck => stuck trivial⟩, fun stuck => stuck trivial⟩
  refine (vfsClose_ends open_ referenced).weaken ?_
  rintro _ closed ⟨files, opens, refs, closes⟩
  refine ⟨(touchesOnly_setFile closed _ _ _).of_files files, ?_, opens, refs, closes⟩
  simp [file_congr files, points, count]

theorem SlotOk.not_held {holders openers : Nat} (slotOk : SlotOk file fd holders openers)
    (status : file.status = .none ∨ file.status = .init) : holders = 0 := by
  by_contra isHeld
  have inUse := slotOk.held (by omega)
  rcases status with status | status <;> simp [status] at inUse

section

variable (tables : Finset Nat) (holders openers : Nat × Nat → Nat) (others : Nat → Nat)

/-- A slot has one holder less and still points to its inode. -/
def Released (table fd : Nat) (state next : FileState) : Prop :=
  Accounts tables (update holders (table, fd) (holders (table, fd) - 1)) openers others next ∧
    TouchesOnly table fd state next ∧ Shrinks state next ∧
    (next.file table fd).node = (state.file table fd).node

/-- A slot has one holder more. -/
def Acquired (table fd : Nat) (state next : FileState) : Prop :=
  Accounts tables (update holders (table, fd) (holders (table, fd) + 1)) openers others next ∧
    TouchesOnly table fd state next ∧ Grows state next ∧
    (next.file table fd).node = (state.file table fd).node

/-- A free slot is being opened, or nothing has happened. -/
def Allocated (table : Nat) (state : FileState) (result : Except Int Nat)
    (next : FileState) : Prop :=
  match result with
  | .error _ => next = state
  | .ok slot => (table, slot) ∈ slotsOf tables ∧ (state.file table slot).status = .none ∧
      Accounts tables holders (update openers (table, slot) 1) others next ∧
      TouchesOnly table slot state next ∧ Grows state next ∧
      (next.file table slot).status = .init

/-- An open of the slot is over. -/
def OpenEnded (table fd : Nat) (state next : FileState) : Prop :=
  Accounts tables holders (update openers (table, fd) 0) others next ∧
    TouchesOnly table fd state next ∧ Grows state next

end

section Slots

variable {tables : Finset Nat} {holders openers : Nat × Nat → Nat} {others : Nat → Nat}
  {openFlags : BitVec 32} {answers : OpenAnswers}

theorem fd2file_ends {fd : Int} {post : Option Nat → FileState → Prop} (live : table ∈ tables)
    (shared : 0 < (state.header table).2) (absent : post none state)
    (opened : ∀ slot, (table, slot) ∈ slotsOf tables →
      (state.file table slot).status = .opened → post (some slot) state) :
    Ends (fd2file table fd) post (fun _ => False) state := by
  simp only [fd2file, getFdArray, ends_ite, ends_bind, ends_get, ends_check, ends_pure]
  refine ⟨fun valid => ⟨fun _ => ⟨fun found => ?_, fun _ => absent⟩,
    fun stuck => stuck shared⟩, fun _ => absent⟩
  simp only [testfd, decide_eq_true_eq] at valid
  exact opened _ (mem_slotsOf.mpr ⟨live, by omega⟩) found.1

theorem findFdNone_spec {fdArray : Nat → File} (count : Nat) :
    ∀ {fd found : Nat}, findFdNone fdArray fd count = some found →
      (fdArray found).status = .none ∧ found < fd + count := by
  induction count with
  | zero =>
    intro fd found result
    simp [findFdNone] at result
  | succ count ih =>
    intro fd found result
    unfold findFdNone at result
    split_ifs at result with isNone
    · cases result
      exact ⟨isNone, by omega⟩
    · have := ih result
      exact ⟨this.1, by omega⟩

/-- Only the counters of one inode have changed. -/
def Recounted (node : Nat) (opens refs : Int) (state next : FileState) : Prop :=
  next.files = state.files ∧ next.vopCloses = state.vopCloses ∧ ∀ n,
    (next.inodes n).openCount = (state.inodes n).openCount + (if n = node then opens else 0) ∧
    (next.inodes n).refCount = (state.inodes n).refCount + if n = node then refs else 0

theorem recounted_setInode (state : FileState) (node : Nat) (opens refs : Int) :
    Recounted node opens refs state (state.setInode node
      ⟨(state.inodes node).refCount + refs, (state.inodes node).openCount + opens⟩) := by
  refine ⟨rfl, rfl, fun n => ?_⟩
  by_cases same : n = node <;> simp [same]

theorem Recounted.trans {opens opens' refs refs' : Int}
    (first : Recounted node opens refs state middle)
    (second : Recounted node opens' refs' middle next) :
    Recounted node (opens + opens') (refs + refs') state next := by
  refine ⟨second.1.trans first.1, second.2.1.trans first.2.1, fun n => ?_⟩
  rw [(second.2.2 n).1, (second.2.2 n).2, (first.2.2 n).1, (first.2.2 n).2]
  split_ifs <;> omega

/-- The tail of `vfs_open`, when truncating to length zero succeeds. -/
theorem vfsOpenNode_ends (truncates : ∀ ret, answers.vopTruncate = some ret → ret = 0)
    (referenced : 0 < (state.inodes node).refCount) :
    Ends (vfsOpenNode openFlags answers node) (fun result next => match result with
        | .error _ => Recounted node 0 (-1) state next
        | .ok opened => opened = node ∧ Recounted node 1 0 state next)
      (fun fault => fault = .missingOp) state := by
  have raised := recounted_setInode state node 1 0
  rw [add_zero] at raised
  simp only [vfsOpenNode, inodeRefDec, inodeOpenInc, ends_ite, ends_bind, ends_get,
    ends_check, ends_set, ends_modify, ends_pure]
  refine ⟨fun _ => ⟨fun _ => ?_, fun stuck => absurd referenced stuck⟩,
    fun _ => ⟨fun _ => ?_, fun _ => ⟨trivial, raised⟩⟩⟩
  · have lowered := recounted_setInode state node 0 (-1)
    rwa [add_zero] at lowered
  cases answer : answers.vopTruncate with
  | none => simp
  | some ret =>
    have isZero := truncates ret answer
    simp only [isZero, ne_eq, not_true_eq_false, if_false, ends_pure]
    exact ⟨trivial, raised⟩

/-- `vfs_open` takes an open count and a reference, or at most leaves a
reference behind. -/
theorem vfsOpen_ends (truncates : ∀ ret, answers.vopTruncate = some ret → ret = 0)
    (notNegative : ∀ n, 0 ≤ (state.inodes n).refCount) :
    Ends (vfsOpen openFlags answers) (fun result next => match result with
        | .error _ => ∃ node refs, 0 ≤ refs ∧ Recounted node 0 refs state next
        | .ok node => Recounted node 1 1 state next)
      (fun fault => fault = .missingOp) state := by
  have same : ∃ node refs, 0 ≤ refs ∧ Recounted node 0 refs state state :=
    ⟨0, 0, le_rfl, rfl, rfl, by simp⟩
  simp only [vfsOpen, ends_ite, ends_pure]
  refine ⟨fun _ => same, fun _ => ⟨fun _ => same, fun _ => ?_⟩⟩
  cases answers.lookup with
  | error ret => simp [same]
  | ok node =>
    have raised := recounted_setInode state node 0 1
    rw [add_zero] at raised
    simp only [inodeRefInc, ends_bind, ends_modify, ends_ite, ends_pure]
    refine ⟨fun _ => ⟨node, 1, Int.one_nonneg, raised⟩, fun _ => ?_⟩
    have referenced := notNegative node
    refine (vfsOpenNode_ends truncates (by simp; omega)).weaken ?_
    intro result next recounted
    cases result with
    | error ret => exact ⟨node, 0, le_rfl, raised.trans recounted⟩
    | ok opened =>
      obtain ⟨rfl, recounted⟩ := recounted
      exact raised.trans recounted

variable (accounts : Accounts tables holders openers others state)
  (inside : (table, fd) ∈ slotsOf tables)

include accounts

theorem Accounts.of_slots
    (sameFile : ∀ slot ∈ slotsOf tables, next.file slot.1 slot.2 = state.file slot.1 slot.2)
    (opens : ∀ n, (next.inodes n).openCount = (state.inodes n).openCount) {others' : Nat → Nat}
    (refs : ∀ n, (state.inodes n).refCount + others' n ≤ (next.inodes n).refCount + others n) :
    Accounts tables holders openers others' next := by
  have pointers : ∀ n, next.pointers tables n = state.pointers tables n := by
    intro n
    apply Finset.sum_congr rfl
    intro slot member
    rw [sameFile slot member]
  constructor
  · intro slot member
    rw [sameFile slot member]
    exact accounts.slotOk slot member
  · intro n
    rw [opens n, pointers n]
    exact accounts.opened n
  intro n
  have := accounts.referenced n
  have := refs n
  rw [pointers n]
  omega

include inside

theorem Accounts.retag {holders' openers' : Nat × Nat → Nat}
    (touches : TouchesOnly table fd state next) (inodes : next.inodes = state.inodes)
    (sameHolders : ∀ slot, slot ≠ (table, fd) → holders' slot = holders slot)
    (sameOpeners : ∀ slot, slot ≠ (table, fd) → openers' slot = openers slot)
    (slotOk : SlotOk (next.file table fd) fd (holders' (table, fd)) (openers' (table, fd)))
    (pointsSame : ∀ n, (next.file table fd).pointsTo n = (state.file table fd).pointsTo n) :
    Accounts tables holders' openers' others next := by
  refine accounts.change inside touches.files sameHolders sameOpeners slotOk ?_ ?_
  · intro n
    rw [pointsSame n, inodes]
  · intro n
    rw [pointsSame n, inodes]

section

variable (status : (state.file table fd).status = .opened ∨ (state.file table fd).status = .closed)

include status

theorem Accounts.in_use : ∃ node, (state.file table fd).node = some node ∧
      0 < (state.inodes node).openCount ∧ 0 < (state.inodes node).refCount := by
  obtain ⟨node, points⟩ := (accounts.slotOk _ inside).bound status
  have counted : (state.file table fd).pointsTo node = 1 := by
    simp [File.pointsTo_in_use status points]
  have atLeast : (state.file table fd).pointsTo node ≤ state.pointers tables node :=
    Finset.single_le_sum (f := fun slot => (state.file slot.1 slot.2).pointsTo node)
      (fun _ _ => Nat.zero_le _) inside
  have := accounts.opened node
  have := accounts.referenced node
  exact ⟨node, points, by omega, by omega⟩

theorem Accounts.free (points : (state.file table fd).node = some node)
    (sameFiles : ∀ slot, slot ≠ (table, fd) → next.file slot.1 slot.2 = state.file slot.1 slot.2)
    (freed : (next.file table fd).status = .none) (freedCount : (next.file table fd).openCount = 0)
    (freedFd : (next.file table fd).fd = (state.file table fd).fd)
    (once : ClosedOnce node state next) :
    Accounts tables (update holders (table, fd) 0) openers others next := by
  have slotOk := accounts.slotOk _ inside
  have notInit : openers (table, fd) = 0 := by
    rw [slotOk.initial]
    rcases status with status | status <;> simp [status]
  have pointed : ∀ n, (state.file table fd).pointsTo n = if n = node then 1 else 0 :=
    fun n => File.pointsTo_in_use status points
  have gone : ∀ n, (next.file table fd).pointsTo n = 0 :=
    fun n => File.pointsTo_eq_zero (.inl freed)
  refine accounts.change inside sameFiles ?_ (fun _ _ => rfl) ?_ ?_ ?_
  · intro slot other
    simp [other]
  · have numbered := freedFd.trans slotOk.numbered
    constructor <;> simp [freed, freedCount, notInit, numbered]
  · intro n
    rw [gone n, pointed n, once.opens n]
    by_cases same : n = node <;> simp [same]
  · intro n
    rw [gone n, pointed n, once.refs n]
    by_cases same : n = node <;> simp [same]

/-- The tail of `fd_array_release` and `fd_array_close` on a closed slot that
`remaining` operations still hold. -/
theorem dropClosed_ends {dropped : FileState} (remaining : Nat)
    (touched : TouchesOnly table fd state dropped) (inodes : dropped.inodes = state.inodes)
    (vopCloses : dropped.vopCloses = state.vopCloses)
    (closed : (dropped.file table fd).status = .closed)
    (count : (dropped.file table fd).openCount = remaining)
    (sameNode : (dropped.file table fd).node = (state.file table fd).node)
    (sameFd : (dropped.file table fd).fd = (state.file table fd).fd) :
    Ends (if (remaining : Int) = 0 then fdArrayFree table fd else pure ()) (fun _ next =>
        Accounts tables (update holders (table, fd) remaining) openers others next ∧
        TouchesOnly table fd state next ∧ Shrinks state next ∧
        (next.file table fd).node = (state.file table fd).node ∧
        (next.file table fd).status = if remaining = 0 then .none else .closed)
      (fun _ => False) dropped := by
  obtain ⟨node, points, open_, referenced⟩ := accounts.in_use inside status
  have slotOk := accounts.slotOk _ inside
  rw [ends_ite]
  refine ⟨fun isLast => ?_, fun notLast => ?_⟩
  · have isLast : remaining = 0 := by omega
    subst isLast
    refine (fdArrayFree_closed_ends closed (by simpa using count)
      (sameNode.trans points) (by rwa [inodes]) (by rwa [inodes])).mono ?_
      (fun _ stops => stops)
    rintro _ next ⟨touches, freed, opens, refs, closes⟩
    rw [inodes] at opens refs closes
    rw [vopCloses] at closes
    refine ⟨accounts.free inside status points (touched.trans touches).files
      (by rw [freed]) (by rw [freed]; simpa using count) (by rw [freed]; exact sameFd)
      ⟨opens, refs, closes⟩, touched.trans touches, ⟨?_, ?_⟩, by rw [freed]; exact sameNode,
      by rw [freed]; rfl⟩
    · intro n
      rw [opens n]
      split_ifs <;> omega
    intro n
    rw [closes n, opens n]
    by_cases same : n = node
    · split_ifs <;> omega
    · split_ifs <;> omega
  have positive : 0 < remaining := by omega
  have notInit : openers (table, fd) = 0 := by
    rw [slotOk.initial]
    rcases status with status | status <;> simp [status]
  have sameTarget : ∀ n, (dropped.file table fd).pointsTo n = (state.file table fd).pointsTo n := by
    intro n
    rw [File.pointsTo_in_use status points,
      File.pointsTo_in_use (.inr closed) (sameNode.trans points)]
  refine ⟨accounts.retag inside touched inodes ?_ (fun _ _ => rfl) ?_ sameTarget,
    touched, Shrinks.of_same inodes vopCloses, sameNode, ?_⟩
  · intro slot other
    simp [other]
  · have numbered := sameFd.trans slotOk.numbered
    have bound := sameNode.trans points
    constructor <;> simp [closed, count, notInit, positive, numbered, bound]
  · rw [closed, if_neg (by omega)]

end

/-- `fd_array_close` gives up the slot's own count. -/
theorem fdArrayClose_ends (status : (state.file table fd).status = .opened) :
    Ends (fdArrayClose table fd) (fun _ next =>
        Accounts tables holders openers others next ∧
        TouchesOnly table fd state next ∧ Shrinks state next ∧
        (next.file table fd).node = (state.file table fd).node ∧
        (next.file table fd).status = if holders (table, fd) = 0 then .none else .closed)
      (fun _ => False) state := by
  have counted := (accounts.slotOk _ inside).counted
  simp only [status, if_true] at counted
  have oneLess : (state.file table fd).openCount - 1 = holders (table, fd) := by omega
  simp only [fdArrayClose, ends_bind, ends_get, ends_check, ends_set, oneLess]
  refine ⟨fun _ => ⟨fun _ => ?_, fun stuck => absurd (by omega) stuck⟩, fun stuck => stuck status⟩
  refine (dropClosed_ends accounts inside (.inl status) (holders (table, fd))
    (touchesOnly_setFile _ _ _ _) rfl rfl ?_ ?_ ?_ ?_).weaken ?_
  · simp
  · simp
  · simp
  · simp
  · rintro _ next ⟨accounts', rest⟩
    rw [update_eq_self] at accounts'
    exact ⟨accounts', rest⟩

/-- `fd_array_release` gives up the count of one holder. -/
theorem fdArrayRelease_ends (isHeld : 0 < holders (table, fd)) : Ends (fdArrayRelease table fd)
      (fun _ next => Released tables holders openers others table fd state next)
      (fun _ => False) state := by
  have slotOk := accounts.slotOk _ inside
  have counted := slotOk.counted
  have status := slotOk.held isHeld
  have positive : 0 < (state.file table fd).openCount := by
    simp only at counted
    split_ifs at counted <;> omega
  simp only [fdArrayRelease, ends_bind, ends_get, ends_check, ends_set]
  refine ⟨fun _ => ⟨fun _ => ?_, fun stuck => stuck positive⟩, fun stuck => stuck status⟩
  have touches := touchesOnly_setFile state table fd
    { state.file table fd with openCount := (state.file table fd).openCount - 1 }
  rcases status with opened | closed
  · -- the slot's own count remains
    simp only [opened, if_true] at counted
    rw [if_neg (by omega), ends_pure]
    have notInit := slotOk.initial
    have numbered := slotOk.numbered
    have bound := slotOk.bound (.inl opened)
    refine ⟨accounts.retag inside touches rfl ?_ (fun _ _ => rfl) ?_
      (fun n => File.pointsTo_congr (by simp) (by simp)), touches,
      Shrinks.of_same rfl rfl, by simp⟩
    · intro slot other
      simp [other]
    · constructor <;> simp [opened, notInit, numbered, bound]
      omega
  simp only [closed] at counted
  have oneLess : (state.file table fd).openCount - 1 = ((holders (table, fd) - 1 : Nat) : Int) := by
    simp at counted
    omega
  rw [oneLess] at touches ⊢
  refine (dropClosed_ends accounts inside (.inr closed) (holders (table, fd) - 1)
    touches rfl rfl ?_ ?_ ?_ ?_).weaken ?_
  · simpa using closed
  · simp
  · simp
  · simp
  · rintro _ next ⟨accounts', touches', shrinks, sameNode, -⟩
    exact ⟨accounts', touches', shrinks, sameNode⟩

theorem fdArrayAcquire_ends (status : (state.file table fd).status = .opened) :
    Ends (fdArrayAcquire table fd)
      (fun _ next => Acquired tables holders openers others table fd state next)
      (fun _ => False) state := by
  have slotOk := accounts.slotOk _ inside
  have counted := slotOk.counted
  have notInit := slotOk.initial
  have numbered := slotOk.numbered
  have bound := slotOk.bound (.inl status)
  simp only [status, if_true] at counted notInit numbered
  have touches := touchesOnly_setFile state table fd
    { state.file table fd with openCount := (state.file table fd).openCount + 1 }
  simp only [fdArrayAcquire, ends_bind, ends_get, ends_check, ends_set]
  refine ⟨fun _ => ?_, fun stuck => stuck status⟩
  refine ⟨accounts.retag inside touches rfl ?_ (fun _ _ => rfl) ?_
    (fun n => File.pointsTo_congr (by simp) (by simp)), touches,
    Grows.of_same rfl rfl, by simp⟩
  · intro slot other
    simp [other]
  · constructor <;> simp [status, notInit, numbered, bound]
    omega

/-- The `found` label of `fd_array_alloc` starts an open. -/
theorem fdArrayFound_ends (status : (state.file table fd).status = .none) :
    Ends (fdArrayFound table fd) (fun _ next =>
        Accounts tables holders (update openers (table, fd) 1) others next ∧
        TouchesOnly table fd state next ∧ Grows state next ∧
        (next.file table fd).status = .init)
      (fun _ => False) state := by
  have slotOk := accounts.slotOk _ inside
  have notHeld := slotOk.not_held (.inl status)
  have counted := slotOk.counted
  have numbered := slotOk.numbered
  simp [status, notHeld] at counted numbered
  have touches := touchesOnly_setFile state table fd
    { state.file table fd with status := .init, node := none }
  simp only [fdArrayFound, ends_bind, ends_get, ends_check, ends_set]
  refine ⟨fun _ => ?_, fun stuck => stuck counted⟩
  refine ⟨accounts.retag inside touches rfl (fun _ _ => rfl) ?_ ?_ ?_, touches,
    Grows.of_same rfl rfl, by simp⟩
  · intro slot other
    simp [other]
  · constructor <;> simp [notHeld, counted, numbered]
  · intro n
    rw [File.pointsTo_eq_zero (.inl status), File.pointsTo_eq_zero (.inr (by simp))]

theorem fdArrayFree_init_ends (status : (state.file table fd).status = .init) :
    Ends (fdArrayFree table fd) (fun _ next =>
        Accounts tables holders (update openers (table, fd) 0) others next ∧
        TouchesOnly table fd state next ∧ next.inodes = state.inodes ∧
        next.vopCloses = state.vopCloses)
      (fun _ => False) state := by
  have slotOk := accounts.slotOk _ inside
  have notHeld := slotOk.not_held (.inr status)
  have counted := slotOk.counted
  have numbered := slotOk.numbered
  simp [status, notHeld] at counted numbered
  have touches := touchesOnly_setFile state table fd { state.file table fd with status := .none }
  simp only [fdArrayFree, ends_bind, ends_get, ends_check, ends_modify, status,
    reduceCtorEq, if_false]
  refine ⟨fun _ => ⟨fun _ => ?_, fun stuck => stuck counted⟩,
    fun stuck => absurd (.inl trivial) stuck⟩
  refine ⟨accounts.retag inside touches rfl (fun _ _ => rfl) ?_ ?_ ?_, touches, rfl, rfl⟩
  · intro slot other
    simp [other]
  · constructor <;> simp [notHeld, counted, numbered]
  · intro n
    rw [File.pointsTo_eq_zero (.inr status), File.pointsTo_eq_zero (.inl (by simp))]

theorem Accounts.occupy (node : Nat) (status : (state.file table fd).status = .init)
    (touches : TouchesOnly table fd state next) (opened : (next.file table fd).status = .opened)
    (count : (next.file table fd).openCount = (state.file table fd).openCount + 1)
    (points : (next.file table fd).node = some node)
    (sameFd : (next.file table fd).fd = (state.file table fd).fd)
    (opens : ∀ n, (next.inodes n).openCount =
      (state.inodes n).openCount + if n = node then 1 else 0)
    (refs : ∀ n, (state.inodes n).refCount + (if n = node then 1 else 0) ≤
      (next.inodes n).refCount) :
    Accounts tables holders (update openers (table, fd) 0) others next := by
  have slotOk := accounts.slotOk _ inside
  have notHeld := slotOk.not_held (.inr status)
  have counted := slotOk.counted
  simp [status, notHeld] at counted
  have before : ∀ n, (state.file table fd).pointsTo n = 0 := fun n =>
    File.pointsTo_eq_zero (.inr status)
  have after : ∀ n, (next.file table fd).pointsTo n = if n = node then 1 else 0 :=
    fun n => File.pointsTo_in_use (.inl opened) points
  refine accounts.change inside touches.files (fun _ _ => rfl) ?_ ?_ ?_ ?_
  · intro slot other
    simp [other]
  · have numbered := sameFd.trans slotOk.numbered
    constructor <;> simp [opened, notHeld, count, counted, points, numbered]
  · intro n
    rw [before n, after n, opens n]
    by_cases same : n = node <;> simp [same]
  intro n
  have := refs n
  rw [before n, after n]
  by_cases same : n = node <;> simp [same] at this ⊢ <;> exact this

/-- `fd_array_dup` into a slot that is being opened. -/
theorem fdArrayDup_ends {fromTable fromFd : Nat} (fromInside : (fromTable, fromFd) ∈ slotsOf tables)
    (status : (state.file table fd).status = .init)
    (fromStatus : (state.file fromTable fromFd).status = .opened) :
    Ends (fdArrayDup table fd fromTable fromFd) (fun _ next =>
        Accounts tables holders (update openers (table, fd) 0) others next ∧
        TouchesOnly table fd state next ∧ Grows state next ∧
        (next.file table fd).fd = (state.file table fd).fd)
      (fun _ => False) state := by
  obtain ⟨node, points, -, -⟩ := accounts.in_use fromInside (.inl fromStatus)
  simp only [fdArrayDup, fdArrayOpen, inodeRefInc, inodeOpenInc, ends_bind, ends_get,
    ends_check, ends_modify, ends_set, points]
  refine ⟨fun _ => ?_, fun stuck => stuck ⟨status, fromStatus⟩⟩
  refine ⟨fun _ => ?_, fun stuck => stuck (by simpa using status)⟩
  refine ⟨accounts.occupy inside node status ?touches ?_ ?_ ?_ ?_ ?_ ?_, ?touches, ⟨?_, ?_⟩, ?_⟩
  case touches =>
    refine ⟨fun slot other => ?_, fun _ => by simp⟩
    have notSame : ¬ (slot.1 = table ∧ slot.2 = fd) := fun same =>
      other (Prod.ext same.1 same.2)
    simp [notSame]
  · simp
  · simp
  · simp
  · simp
  · intro n
    by_cases same : n = node <;> simp [same]
  · intro n
    by_cases same : n = node <;> simp [same]
  · intro n
    by_cases same : n = node <;> simp [same]
  · simp
  · simp

omit inside in
/-- `fd_array_alloc` starts an open on a free slot, or changes nothing. -/
theorem fdArrayAlloc_ends (live : table ∈ tables) (shared : 0 < (state.header table).2) (fd : Int) :
    Ends (fdArrayAlloc table fd)
      (Allocated tables holders openers others table state) (fun _ => False) state := by
  simp only [fdArrayAlloc, getFdArray, ends_bind, ends_get, ends_check, ends_ite]
  refine ⟨fun _ => ⟨fun _ => ?_, fun _ => ⟨fun valid => ⟨fun isNone => ?_, ?_⟩, ?_⟩⟩,
    fun stuck => stuck shared⟩
  · cases search : findFdNone (state.files table).fdArray 0 FILES_STRUCT_NENTRY with
    | none => exact rfl
    | some slot =>
      have found := findFdNone_spec _ search
      have inside : (table, slot) ∈ slotsOf tables := mem_slotsOf.mpr ⟨live, by omega⟩
      simp only [ends_bind, ends_pure]
      refine (fdArrayFound_ends accounts inside found.1).weaken ?_
      rintro _ next rest
      exact ⟨inside, found.1, rest⟩
  · have inside : (table, fd.toNat) ∈ slotsOf tables := by
      simp only [testfd, decide_eq_true_eq] at valid
      rw [mem_slotsOf]
      exact ⟨live, by omega⟩
    refine (fdArrayFound_ends accounts inside isNone).weaken ?_
    rintro _ next rest
    exact ⟨inside, isNone, rest⟩
  · exact fun _ => rfl
  · exact fun _ => rfl

theorem fileOpenSlot_ends {opened : FileState} {pos : Int}
    (status : (state.file table fd).status = .init) (recounted : Recounted node 1 1 state opened) :
    Ends (fileOpenSlot table fd openFlags pos node)
      (fun _ next => OpenEnded tables holders openers others table fd state next)
      (fun _ => False) opened := by
  obtain ⟨files, closes, counts⟩ := recounted
  have sameFile := file_congr files
  simp only [fileOpenSlot, fdArrayOpen, ends_bind, ends_modify, ends_get, ends_check,
    ends_set, ends_pure]
  refine ⟨fun _ => ?_, fun stuck => stuck (by simpa [sameFile] using status)⟩
  have touches : ∀ first second : File, TouchesOnly table fd state
      ((opened.setFile table fd first).setFile table fd second) := fun first second =>
    ((touchesOnly_setFile _ _ _ _).trans (touchesOnly_setFile _ _ _ _)).of_files files
  refine ⟨accounts.occupy inside node status (touches _ _) ?_ ?_ ?_ ?_ ?_ ?_,
    touches _ _, ⟨?_, closes⟩⟩
  · simp
  · simp [sameFile]
  · simp
  · simp [sameFile]
  · intro n
    exact (counts n).1
  · intro n
    exact (counts n).2.ge
  intro n
  have := (counts n).1
  simp only [setFile_inodes, this]
  split_ifs <;> omega

theorem fileOpenEnd_ends (status : (state.file table fd).status = .init)
    (truncates : ∀ ret, answers.vopTruncate = some ret → ret = 0)
    (fstats : ∀ ret, answers.vopFstat ≠ .error ret) :
    Ends (fileOpenEnd table fd openFlags answers)
      (fun _ next => OpenEnded tables holders openers others table fd state next)
      (fun fault => fault = .missingOp) state := by
  simp only [fileOpenEnd, ends_bind]
  refine (vfsOpen_ends truncates ?_).weaken ?_
  · intro n
    have := accounts.referenced n
    omega
  intro result opened recounted
  cases result with
  | error ret =>
    obtain ⟨node, refs, more, files, closes, counts⟩ := recounted
    have opens : ∀ n, (opened.inodes n).openCount = (state.inodes n).openCount := by
      intro n
      rw [(counts n).1, ite_self, add_zero]
    have sameFile := file_congr files
    have accounts' : Accounts tables holders openers others opened :=
      accounts.of_slots (fun slot _ => sameFile slot.1 slot.2)
        opens (fun n => by rw [(counts n).2]; split_ifs <;> omega)
    simp only [ends_bind, ends_pure]
    refine (fdArrayFree_init_ends accounts' inside (by rw [sameFile]; exact status)).mono
      ?_ (fun _ stops => stops.elim)
    rintro _ next ⟨final, touches, inodes, vopCloses⟩
    refine ⟨final, touches.of_files files, ⟨fun n => ?_, vopCloses.trans closes⟩⟩
    rw [inodes, opens]
  | ok node =>
    have slot : ∀ pos, Ends (fileOpenSlot table fd openFlags pos node)
        (fun _ next => OpenEnded tables holders openers others table fd state next)
        (fun fault => fault = .missingOp) opened := fun pos =>
      (fileOpenSlot_ends accounts inside status recounted).mono
        (fun _ _ post => post) (fun _ stops => stops.elim)
    simp only [ends_ite]
    refine ⟨fun _ => ?_, fun _ => slot 0⟩
    cases answer : answers.vopFstat with
    | error ret => exact absurd answer (fstats ret)
    | ok size => exact slot size

theorem Accounts.reposition (pos : Int) : Accounts tables holders openers others
      (state.setFile table fd { state.file table fd with pos := pos }) := by
  have slotOk := accounts.slotOk _ inside
  apply accounts.retag inside (touchesOnly_setFile _ _ _ _) rfl (fun _ _ => rfl) (fun _ _ => rfl)
  · constructor
    · simpa using slotOk.counted
    · simpa using slotOk.held
    · simpa using slotOk.closedHeld
    · simpa using slotOk.initial
    · simpa using slotOk.bound
    · simpa using slotOk.numbered
  · intro n
    exact File.pointsTo_congr (by simp) (by simp)

theorem fileUnhold_ends {op : SlotOp} {ret amount : Int} (isHeld : 0 < holders (table, fd)) :
    Ends (fileUnhold op table fd ret amount)
      (fun _ next => Released tables holders openers others table fd state next)
      (fun _ => False) state := by
  have released := fdArrayRelease_ends accounts inside isHeld
  have moved : ∀ pos, Ends (fdArrayRelease table fd)
      (fun _ next => Released tables holders openers others table fd state next) (fun _ => False)
      (state.setFile table fd { state.file table fd with pos := pos }) := by
    intro pos
    apply (fdArrayRelease_ends (accounts.reposition inside pos) inside isHeld).weaken
    rintro _ next ⟨accounts', touches, shrinks, sameNode⟩
    refine ⟨accounts', (touchesOnly_setFile _ _ _ _).trans touches,
      ⟨shrinks.fewer, shrinks.closes⟩, ?_⟩
    rw [sameNode]
    simp
  cases op with
  | read | write | seek =>
    simp only [fileUnhold, ends_bind, ends_get, ends_ite, ends_set, ends_pure]
    exact ⟨fun _ => moved _, fun _ => released⟩
  | fstat =>
    simp only [fileUnhold, ends_bind, ends_get, ends_pure]
    exact released

end Slots

end UcoreSmp
