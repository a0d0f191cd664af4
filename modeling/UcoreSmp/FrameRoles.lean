import UcoreSmp.PageTables

/-!
# The role of every page frame

Every frame has one role: free, owned by the kernel, a page directory, a page
table of one directory, allocated but not mapped yet, or mapped into user space.
In a well-formed memory the directories and tables point to frames of the right
role, and the counter of a mapped frame is the number of entries that map it.
-/

namespace UcoreSmp

open Function PhysState Finset

inductive FrameRole where
  | outside
  | free
  | kernel
  | directory
  | table (dir index : Nat)
  | held
  | user
  deriving DecidableEq

/-- The directories and tables agree with the roles of the frames. -/
structure TableLayout (state : PhysState) (role : Nat → FrameRole) : Prop where
  table_iff : ∀ {dir index table}, role dir = .directory → index < USERTABLES →
    (state.table dir index = some table ↔ role table = .table dir index)
  table_dir : ∀ {dir index table}, role table = .table dir index →
    role dir = .directory ∧ index < USERTABLES
  user_of_mapped : ∀ {dir page frame}, role dir = .directory → page < USERPAGES →
    state.mapped dir page = some frame → role frame = .user
  present : ∀ {dir page}, role dir = .directory → page < USERPAGES →
    state.mapped dir page = none → state.pte dir page = 0

/-- Well-formed physical memory.  A `pending` frame has been counted once more
than it is mapped. -/
structure Paged (state : PhysState) (dirs : Finset Nat) (role : Nat → FrameRole)
    (pending : Option Nat) : Prop where
  small : state.npage ≤ 2 ^ 20
  inside : ∀ {frame}, role frame ≠ .outside → frame < state.npage
  free_iff : ∀ frame, frame ∈ state.free ↔ role frame = .free
  dirs_iff : ∀ dir, dir ∈ dirs ↔ role dir = .directory
  layout : TableLayout state role
  pending_user : ∀ {frame}, pending = some frame → role frame = .user
  counted : ∀ {frame}, role frame = .user →
    state.ref frame = state.mappers dirs frame + (if pending = some frame then 1 else 0)
  used : ∀ {frame}, role frame = .user → pending ≠ some frame → 0 < state.mappers dirs frame
  idle : ∀ {frame}, role frame = .free ∨ role frame = .held → state.ref frame = 0

variable {role : Nat → FrameRole} {page dir other place frame index table position value : Nat}
  {state next : PhysState} {new third : FrameRole} {dirs : Finset Nat} {pending : Option Nat}

theorem Paged.isDir (paged : Paged state dirs role pending) (member : dir ∈ dirs) :
    role dir = .directory := (paged.dirs_iff dir).mp member

theorem Paged.mem_dirs (paged : Paged state dirs role pending) (isDir : role dir = .directory) :
    dir ∈ dirs := (paged.dirs_iff dir).mpr isDir

section Layout

variable {role' : Nat → FrameRole}

/-- Other tables that map the same pages. -/
theorem TableLayout.retable (layout : TableLayout state role)
    (pte : ∀ {dir page}, role dir = .directory → page < USERPAGES →
      next.pte dir page = state.pte dir page)
    (dirs : ∀ dir, role' dir = .directory ↔ role dir = .directory)
    (users : ∀ frame, role frame = .user → role' frame = .user)
    (table_iff : ∀ {dir index table}, role dir = .directory → index < USERTABLES →
      (next.table dir index = some table ↔ role' table = .table dir index))
    (table_dir : ∀ {dir index table}, role' table = .table dir index →
      role dir = .directory ∧ index < USERTABLES) : TableLayout next role' where
  table_iff isDir inside := table_iff ((dirs _).mp isDir) inside
  table_dir isTable := ⟨(dirs _).mpr (table_dir isTable).1, (table_dir isTable).2⟩
  user_of_mapped isDir inside maps := by
    rw [dirs] at isDir
    rw [mapped_congr (pte isDir inside)] at maps
    exact users _ (layout.user_of_mapped isDir inside maps)
  present isDir inside unmapped := by
    rw [dirs] at isDir
    rw [mapped_congr (pte isDir inside)] at unmapped
    rw [pte isDir inside]
    exact layout.present isDir inside unmapped

/-- The layout reads the memory only through the tables, and the roles only of
directories, tables and mapped frames. -/
theorem TableLayout.congr (layout : TableLayout state role)
    (table : ∀ {dir index}, role dir = .directory → index < USERTABLES →
      next.table dir index = state.table dir index)
    (pte : ∀ {dir page}, role dir = .directory → page < USERPAGES →
      next.pte dir page = state.pte dir page)
    (dirs : ∀ dir, role' dir = .directory ↔ role dir = .directory)
    (tables : ∀ frame dir index, role' frame = .table dir index ↔ role frame = .table dir index)
    (users : ∀ frame, role frame = .user → role' frame = .user) : TableLayout next role' := by
  apply layout.retable pte dirs users
  · intro dir index found isDir inside
    rw [table isDir inside, tables]
    exact layout.table_iff isDir inside
  · intro dir index found isTable
    exact layout.table_dir ((tables _ _ _).mp isTable)

theorem page_table_lt (inside : page < USERPAGES) : page / 1024 < USERTABLES := by
  unfold USERPAGES at inside
  unfold USERTABLES
  omega

theorem TableLayout.pte_of_mem (layout : TableLayout state role)
    (same : ∀ frame, role frame = .directory ∨ (∃ dir index, role frame = .table dir index) →
      next.mem frame = state.mem frame)
    (isDir : role dir = .directory) (inside : page < USERPAGES) :
    next.pte dir page = state.pte dir page := by
  apply pte_congr
  · exact table_congr (same dir (.inl isDir))
  intro table found
  have isTable := (layout.table_iff isDir (page_table_lt inside)).mp found
  exact entry_congr (same table (.inr ⟨_, _, isTable⟩))

theorem table_setEntry (isTable : role table = .table dir index) (place value : Nat)
    (isDir : role other = .directory) :
    (state.setEntry table place value).table other position = state.table other position := by
  apply table_congr
  apply mem_setMem_of_ne
  intro same
  rw [same, isTable] at isDir
  cases isDir

section

variable (layout : TableLayout state role) (isTable : role table = .table dir index)

include layout isTable

theorem TableLayout.pte_setEntry_of_ne (value : Nat) (isDir : role other = .directory)
    (inside : page < USERPAGES) (apart : ¬ (other = dir ∧ page = index * 1024 + place)) :
    (state.setEntry table place value).pte other page = state.pte other page := by
  apply pte_congr
  · exact table_setEntry isTable place value isDir
  intro found foundTable
  apply entry_setEntry_of_ne
  by_contra both
  push Not at both
  obtain ⟨sameTable, samePlace⟩ := both
  have isFound := (layout.table_iff isDir (page_table_lt inside)).mp foundTable
  rw [sameTable, isTable] at isFound
  injection isFound with sameDir sameIndex
  exact apart ⟨sameDir.symm, by omega⟩

theorem TableLayout.pte_eq (small : place < 1024) :
    state.pte dir (index * 1024 + place) = state.entry table place := by
  obtain ⟨isDir, inside⟩ := layout.table_dir isTable
  have position : (index * 1024 + place) / 1024 = index := by omega
  have found : state.table dir ((index * 1024 + place) / 1024) = some table := by
    rw [position]
    exact (layout.table_iff isDir inside).mpr isTable
  rw [pte_of_table found]
  congr 1
  omega

theorem TableLayout.pte_setEntry_self (small : place < 1024) (fits : value < 2 ^ 32) :
    (state.setEntry table place value).pte dir (index * 1024 + place) = value := by
  obtain ⟨isDir, inside⟩ := layout.table_dir isTable
  have position : (index * 1024 + place) / 1024 = index := by omega
  have found : (state.setEntry table place value).table dir ((index * 1024 + place) / 1024) =
      some table := by
    rw [table_setEntry isTable place value isDir, position]
    exact (layout.table_iff isDir inside).mpr isTable
  rw [pte_of_table found, show (index * 1024 + place) % 1024 = place by omega]
  exact entry_setEntry_self fits

end

end Layout

theorem ne_of_role {first second : FrameRole} (isFirst : role frame = first)
    (isSecond : role other = second) (apart : first ≠ second) : frame ≠ other := by
  rintro rfl
  exact apart (isFirst.symm.trans isSecond)

/-- Changing the role of a frame from one role to another leaves the holders of
every third role alone. -/
theorem update_role_iff (old : role frame ≠ third) (fresh : new ≠ third) :
    update role frame new other = third ↔ role other = third := by
  by_cases same : other = frame
  · subst same
    rw [update_self]
    exact ⟨fun holds => absurd holds fresh, fun holds => absurd holds old⟩
  · rw [update_of_ne same]

theorem role_kept {old : FrameRole} (isOld : role frame = old) (third : FrameRole)
    (notOld : third ≠ old) (notNew : third ≠ new) :
    update role frame new other = third ↔ role other = third :=
  update_role_iff (fun same => notOld (same.symm.trans isOld)) notNew.symm

theorem mappers_congr (same : ∀ {dir page}, dir ∈ dirs → page < USERPAGES →
      next.mapped dir page = state.mapped dir page) (frame : Nat) :
    next.mappers dirs frame = state.mappers dirs frame := by
  apply references_congr
  intro place member
  rw [mem_product, mem_range] at member
  exact same member.1 member.2

theorem pte_of_sameMem (mem : next.mem = state.mem) : next.pte dir page = state.pte dir page :=
  pte_congr (table_congr (congrFun mem dir)) fun table _ => entry_congr (congrFun mem table)

def FrameRole.Idle (role : FrameRole) : Prop := role = .free ∨ role = .held

section

variable (paged : Paged state dirs role pending)

include paged

/-- A frame that is not mapped gets another role. -/
theorem Paged.change {dirs' : Finset Nat}
    (old : role frame ≠ .outside ∧ role frame ≠ .user) (fresh : new ≠ .outside ∧ new ≠ .user)
    (npage : next.npage = state.npage)
    (free : ∀ other, other ∈ next.free ↔ update role frame new other = .free)
    (dirs_iff : ∀ dir, dir ∈ dirs' ↔ update role frame new dir = .directory)
    (layout : TableLayout next (update role frame new))
    (mappers : ∀ other, next.mappers dirs' other = state.mappers dirs other)
    (ref : ∀ other, other ≠ frame → next.ref other = state.ref other)
    (idle : new.Idle → next.ref frame = 0) :
    Paged next dirs' (update role frame new) pending := by
  have isUser : ∀ {other}, update role frame new other = .user ↔ role other = .user :=
    update_role_iff old.2 fresh.2
  have distinct : ∀ {other}, role other = .user → other ≠ frame := by
    rintro other user rfl
    exact old.2 user
  refine ⟨npage ▸ paged.small, ?_, free, dirs_iff, layout, ?_, ?_, ?_, ?_⟩
  · intro other inside
    rw [npage]
    apply paged.inside
    rwa [Ne, ← update_role_iff old.1 fresh.1]
  · exact fun owed => isUser.mpr (paged.pending_user owed)
  · intro other user
    rw [isUser] at user
    rw [mappers, ref other (distinct user)]
    exact paged.counted user
  · intro other user free'
    rw [mappers]
    exact paged.used (isUser.mp user) free'
  intro other either
  by_cases same : other = frame
  · subst same
    rw [update_self] at either
    exact idle either
  rw [update_of_ne same] at either
  rw [ref other same]
  exact paged.idle either

theorem Paged.free_insert (other : Nat) :
    other ∈ insert frame state.free ↔ update role frame .free other = .free := by
  by_cases same : other = frame
  · simp [same]
  · rw [update_of_ne same, ← paged.free_iff]
    simp [same]

theorem Paged.free_erase (notFree : new ≠ .free) (other : Nat) :
    other ∈ state.free.erase frame ↔ update role frame new other = .free := by
  by_cases same : other = frame
  · simp [same, notFree]
  · rw [update_of_ne same, ← paged.free_iff]
    simp [same]

theorem Paged.reassign (idle : (role frame).Idle) {role' : FrameRole} (idle' : role'.Idle)
    (npage : next.npage = state.npage) (mem : next.mem = state.mem) (ref : next.ref = state.ref)
    (free : ∀ other, other ∈ next.free ↔ update role frame role' other = .free) :
    Paged next dirs (update role frame role') pending := by
  have kept : ∀ {other} (structural : FrameRole), ¬ structural.Idle →
      (update role frame role' other = structural ↔ role other = structural) :=
    fun structural busy =>
      update_role_iff (fun same => busy (same ▸ idle)) (fun same => busy (same ▸ idle'))
  apply paged.change ?_ ?_ npage free
  · intro dir
    rw [kept .directory (by simp [FrameRole.Idle])]
    exact paged.dirs_iff dir
  · apply paged.layout.congr
    · exact fun {dir _} _ _ => table_congr (congrFun mem dir)
    · exact fun _ _ => pte_of_sameMem mem
    · exact fun _ => kept .directory (by simp [FrameRole.Idle])
    · exact fun _ _ _ => kept (.table _ _) (by simp [FrameRole.Idle])
    · exact fun _ => (kept .user (by simp [FrameRole.Idle])).mpr
  · exact mappers_congr fun _ _ => mapped_congr (pte_of_sameMem mem)
  · exact fun _ _ => congrFun ref _
  · exact fun _ => (congrFun ref frame).trans (paged.idle idle)
  · rcases idle with same | same <;> simp [same]
  · rcases idle' with rfl | rfl <;> simp

theorem Paged.take (isFree : role frame = .free) :
    Paged (state.take frame) dirs (update role frame .held) pending :=
  Paged.reassign paged (.inl isFree) (.inr rfl) rfl rfl rfl (paged.free_erase (by simp))

theorem Paged.congr (npage : next.npage = state.npage) (mem : next.mem = state.mem)
    (ref : next.ref = state.ref) (free : next.free = state.free) :
    Paged next dirs role pending := by
  have mappers : ∀ other, next.mappers dirs other = state.mappers dirs other :=
    mappers_congr fun _ _ => mapped_congr (pte_of_sameMem mem)
  refine ⟨npage ▸ paged.small, npage ▸ paged.inside, free ▸ paged.free_iff, paged.dirs_iff, ?_,
    paged.pending_user, ?_, ?_, ref ▸ paged.idle⟩
  · exact paged.layout.congr (fun {dir _} _ _ => table_congr (congrFun mem dir))
      (fun _ _ => pte_of_sameMem mem) (fun _ => Iff.rfl) (fun _ _ _ => Iff.rfl) (fun _ user => user)
  · intro frame user
    rw [ref, mappers]
    exact paged.counted user
  · intro frame user free'
    rw [mappers]
    exact paged.used user free'

theorem Paged.deny : Paged state.deny dirs role pending :=
  paged.congr rfl rfl rfl rfl

theorem Paged.giveHeld (isHeld : role frame = .held) :
    Paged (state.give frame) dirs (update role frame .free) pending := by
  refine Paged.reassign paged (.inr isHeld) (.inl rfl) rfl rfl ?_ paged.free_insert
  have cleared := paged.idle (.inr isHeld)
  change update state.ref frame 0 = state.ref
  rw [← cleared, update_eq_self]

end

theorem Paged.mappers_eq_zero (paged : Paged state dirs role pending)
    (other : role frame ≠ .user) : state.mappers dirs frame = 0 := by
  apply references_eq_zero.mpr
  intro spot member maps
  rw [mem_product, mem_range, paged.dirs_iff] at member
  exact other (paged.layout.user_of_mapped member.1 member.2 maps)

/-- `page_ref_inc` before the frame is mapped. -/
theorem Paged.hold (paged : Paged state dirs role none)
    (owned : role frame = .user ∨ role frame = .held) :
    Paged (state.setRef frame (state.ref frame + 1)) dirs (update role frame .user)
      (some frame) := by
  have ref : state.ref frame = state.mappers dirs frame := by
    cases owned with
    | inl user => simpa using paged.counted user
    | inr held =>
      rw [paged.idle (.inr held), paged.mappers_eq_zero (by simp [held])]
      rfl
  have kept : ∀ {other} (structural : FrameRole), structural ≠ .user → structural ≠ .held →
      (update role frame .user other = structural ↔ role other = structural) := by
    intro other structural notUser notHeld
    apply update_role_iff _ notUser.symm
    rintro rfl
    exact absurd owned (by simp [notUser, notHeld])
  constructor
  · exact paged.small
  · intro other inside
    apply paged.inside
    rw [Ne, ← kept .outside (by simp) (by simp)]
    exact inside
  · intro other
    rw [kept .free (by simp) (by simp)]
    exact paged.free_iff other
  · intro other
    rw [kept .directory (by simp) (by simp)]
    exact paged.dirs_iff other
  · apply paged.layout.congr
    · exact fun _ _ => rfl
    · exact fun _ _ => rfl
    · exact fun _ => kept .directory (by simp) (by simp)
    · exact fun _ _ _ => kept (.table _ _) (by simp) (by simp)
    intro other user
    by_cases same : other = frame
    · rw [same, update_self]
    · rwa [update_of_ne same]
  · intro other owed
    cases owed
    exact update_self _ _ _
  · intro other user
    by_cases same : other = frame
    · subst same
      rw [if_pos rfl]
      change update state.ref other (state.ref other + 1) other = state.mappers dirs other + 1
      rw [update_self, ref]
    rw [update_of_ne same] at user
    rw [if_neg (fun owed => same (Option.some.inj owed).symm)]
    change update state.ref frame (state.ref frame + 1) other = state.mappers dirs other + 0
    rw [update_of_ne same]
    simpa using paged.counted user
  · intro other user free
    have distinct : other ≠ frame := fun same => free (congrArg some same.symm)
    rw [update_of_ne distinct] at user
    exact paged.used user (by simp)
  intro other either
  by_cases same : other = frame
  · rw [same, update_self] at either
    simp at either
  rw [update_of_ne same] at either
  change update state.ref frame (state.ref frame + 1) other = 0
  rw [update_of_ne same]
  exact paged.idle either

/-- `page_ref_dec` on a frame that is mapped already. -/
theorem Paged.unhold (paged : Paged state dirs role (some frame))
    (maps : 0 < state.mappers dirs frame) :
    Paged (state.setRef frame (state.ref frame - 1)) dirs role none := by
  constructor
  · exact paged.small
  · exact paged.inside
  · exact paged.free_iff
  · exact paged.dirs_iff
  · exact ⟨paged.layout.table_iff, paged.layout.table_dir, paged.layout.user_of_mapped,
      paged.layout.present⟩
  · intro other owed
    cases owed
  · intro other user
    change update state.ref frame (state.ref frame - 1) other = state.mappers dirs other + 0
    have count := paged.counted user
    by_cases same : other = frame
    · subst same
      rw [update_self, count, if_pos rfl]
      omega
    rw [if_neg (fun owed => same (Option.some.inj owed).symm)] at count
    rw [update_of_ne same]
    exact count
  · intro other user _
    by_cases same : other = frame
    · exact same ▸ maps
    · exact paged.used user (fun owed => same (Option.some.inj owed).symm)
  intro other either
  have distinct : other ≠ frame := by
    rintro rfl
    rw [paged.pending_user rfl] at either
    simp at either
  change update state.ref frame (state.ref frame - 1) other = 0
  rw [update_of_ne distinct]
  exact paged.idle either

theorem TableLayout.setEntry (layout : TableLayout state role)
    (isTable : role table = .table dir index) (small : place < 1024) (fits : value < 2 ^ 32)
    (points : ∀ {frame}, entryFrame value = some frame → role frame = .user)
    (empty : entryFrame value = none → value = 0) :
    TableLayout (state.setEntry table place value) role where
  table_iff isDir inside := by
    rw [table_setEntry isTable place value isDir]
    exact layout.table_iff isDir inside
  table_dir := layout.table_dir
  user_of_mapped {other page frame} isDir inside maps := by
    by_cases here : other = dir ∧ page = index * 1024 + place
    · obtain ⟨rfl, rfl⟩ := here
      rw [mapped, layout.pte_setEntry_self isTable small fits] at maps
      exact points maps
    · rw [mapped_congr (layout.pte_setEntry_of_ne isTable value isDir inside here)] at maps
      exact layout.user_of_mapped isDir inside maps
  present {other page} isDir inside unmapped := by
    by_cases here : other = dir ∧ page = index * 1024 + place
    · obtain ⟨rfl, rfl⟩ := here
      rw [mapped, layout.pte_setEntry_self isTable small fits] at unmapped
      rw [layout.pte_setEntry_self isTable small fits]
      exact empty unmapped
    have same : (state.setEntry table place value).pte other page = state.pte other page :=
      layout.pte_setEntry_of_ne isTable value isDir inside here
    rw [mapped_congr same] at unmapped
    rw [same]
    exact layout.present isDir inside unmapped

theorem TableLayout.retire (layout : TableLayout state role) (isUser : role frame = .user)
    (unmapped : ∀ {dir page}, role dir = .directory → page < USERPAGES →
      state.mapped dir page ≠ some frame) :
    TableLayout state (update role frame .free) := by
  constructor
  · intro dir index table isDir inside
    rw [role_kept isUser _ (by simp) (by simp)] at isDir
    rw [role_kept isUser _ (by simp) (by simp)]
    exact layout.table_iff isDir inside
  · intro dir index table isTable
    rw [role_kept isUser _ (by simp) (by simp)] at isTable
    rw [role_kept isUser _ (by simp) (by simp)]
    exact layout.table_dir isTable
  · intro dir page other isDir inside maps
    rw [role_kept isUser _ (by simp) (by simp)] at isDir
    have distinct : other ≠ frame := by
      rintro rfl
      exact unmapped isDir inside maps
    rw [update_of_ne distinct]
    exact layout.user_of_mapped isDir inside maps
  · intro dir page isDir inside
    rw [role_kept isUser _ (by simp) (by simp)] at isDir
    exact layout.present isDir inside

section

variable (paged : Paged state dirs role pending) (isTable : role table = .table dir index)

include paged isTable

theorem place_mem (small : place < 1024) :
    (dir, index * 1024 + place) ∈ dirs ×ˢ Finset.range USERPAGES := by
  obtain ⟨isDir, inside⟩ := paged.layout.table_dir isTable
  rw [mem_product, mem_range, paged.dirs_iff]
  unfold USERTABLES at inside
  unfold USERPAGES
  exact ⟨isDir, by simp only; omega⟩

theorem Paged.user_of_place (small : place < 1024)
    (maps : state.mapped dir (index * 1024 + place) = some frame) : role frame = .user := by
  have member := place_mem paged isTable small
  rw [mem_product, mem_range, paged.dirs_iff] at member
  exact paged.layout.user_of_mapped member.1 member.2 maps

theorem mapped_setEntry_of_ne :
    ∀ other ∈ dirs ×ˢ Finset.range USERPAGES, other ≠ (dir, index * 1024 + place) →
      (state.setEntry table place value).mapped other.1 other.2 = state.mapped other.1 other.2 := by
  rintro ⟨other, page⟩ member distinct
  rw [mem_product, mem_range, paged.dirs_iff] at member
  apply mapped_congr
  apply paged.layout.pte_setEntry_of_ne isTable value member.1 member.2
  rintro ⟨rfl, rfl⟩
  exact distinct rfl

theorem mapped_setEntry_self (small : place < 1024) (fits : value < 2 ^ 32) :
    (state.setEntry table place value).mapped dir (index * 1024 + place) = entryFrame value := by
  rw [mapped, paged.layout.pte_setEntry_self isTable small fits]

end

theorem Paged.map (paged : Paged state dirs role (some frame))
    (isTable : role table = .table dir index) (small : place < 1024) (fits : value < 2 ^ 32)
    (unmapped : state.mapped dir (index * 1024 + place) = none)
    (points : entryFrame value = some frame) :
    Paged (state.setEntry table place value) dirs role none := by
  have count := references_acquire (place_mem paged isTable small) unmapped
    ((mapped_setEntry_self paged isTable small fits).trans points)
    (mapped_setEntry_of_ne paged isTable)
  have mappers : ∀ other, (state.setEntry table place value).mappers dirs other =
      state.mappers dirs other + if other = frame then 1 else 0 := count
  constructor
  · exact paged.small
  · exact paged.inside
  · exact paged.free_iff
  · exact paged.dirs_iff
  · apply paged.layout.setEntry isTable small fits
    · intro other isOther
      rw [points] at isOther
      cases isOther
      exact paged.pending_user rfl
    · intro empty
      rw [points] at empty
      cases empty
  · intro other owed
    cases owed
  · intro other user
    change state.ref other = _
    rw [mappers, paged.counted user]
    by_cases same : other = frame
    · simp [same]
    · have unlike : ¬ (some frame = some other) := fun owed => same (Option.some.inj owed).symm
      simp [same, unlike]
  · intro other user _
    rw [mappers]
    by_cases same : other = frame
    · simp [same]
    · have := paged.used user (fun owed => same (Option.some.inj owed).symm)
      omega
  · exact paged.idle

theorem Paged.remap (paged : Paged state dirs role pending)
    (isTable : role table = .table dir index) (small : place < 1024) (fits : value < 2 ^ 32)
    (maps : state.mapped dir (index * 1024 + place) = some frame)
    (points : entryFrame value = some frame) :
    Paged (state.setEntry table place value) dirs role pending := by
  have mappers : ∀ other, (state.setEntry table place value).mappers dirs other =
      state.mappers dirs other := by
    apply references_congr
    intro spot member
    by_cases here : spot = (dir, index * 1024 + place)
    · subst here
      rw [mapped_setEntry_self paged isTable small fits, maps, points]
    · exact mapped_setEntry_of_ne paged isTable spot member here
  constructor
  · exact paged.small
  · exact paged.inside
  · exact paged.free_iff
  · exact paged.dirs_iff
  · apply paged.layout.setEntry isTable small fits
    · intro other isOther
      rw [points] at isOther
      cases isOther
      exact paged.user_of_place isTable small maps
    · intro empty
      rw [points] at empty
      cases empty
  · exact paged.pending_user
  · intro other user
    rw [mappers]
    exact paged.counted user
  · intro other user free
    rw [mappers]
    exact paged.used user free
  · exact paged.idle

section

variable (paged : Paged state dirs role pending) (isTable : role table = .table dir index)
  (small : place < 1024) (maps : state.mapped dir (index * 1024 + place) = some frame)

include paged isTable small

theorem Paged.layout_cleared : TableLayout (state.setEntry table place 0) role :=
  paged.layout.setEntry isTable small (by decide) (by simp) (by simp)

include maps

theorem Paged.mappers_cleared (other : Nat) : state.mappers dirs other =
      (state.setEntry table place 0).mappers dirs other + if other = frame then 1 else 0 :=
  references_release (place_mem paged isTable small) maps
    (mapped_setEntry_self paged isTable small (by decide))
    (mapped_setEntry_of_ne paged isTable) other

theorem Paged.unmap (more : state.ref frame - 1 ≠ 0) :
    Paged ((state.setRef frame (state.ref frame - 1)).setEntry table place 0) dirs role
      pending := by
  have cleared := paged.mappers_cleared isTable small maps
  have isUser := paged.user_of_place isTable small maps
  have layout := paged.layout_cleared isTable small
  constructor
  · exact paged.small
  · exact paged.inside
  · exact paged.free_iff
  · exact paged.dirs_iff
  · exact ⟨layout.table_iff, layout.table_dir, layout.user_of_mapped, layout.present⟩
  · exact paged.pending_user
  · intro other user
    have count := paged.counted user
    rw [cleared other] at count
    change update state.ref frame (state.ref frame - 1) other =
      (state.setEntry table place 0).mappers dirs other + _
    by_cases same : other = frame
    · subst same
      rw [update_self]
      rw [if_pos rfl] at count
      omega
    · rw [update_of_ne same]
      rw [if_neg same] at count
      exact count
  · intro other user free
    have count := paged.counted user
    have positive := paged.used user free
    rw [cleared other] at count positive
    change 0 < (state.setEntry table place 0).mappers dirs other
    by_cases same : other = frame
    · subst same
      rw [if_pos rfl, if_neg free] at count
      omega
    · rw [if_neg same] at positive
      exact positive
  intro other either
  have distinct : other ≠ frame := by
    rintro rfl
    rw [isUser] at either
    simp at either
  change update state.ref frame (state.ref frame - 1) other = 0
  rw [update_of_ne distinct]
  exact paged.idle either

theorem Paged.unmapLast (last : state.ref frame - 1 = 0) :
    Paged (((state.setRef frame (state.ref frame - 1)).give frame).setEntry table place 0) dirs
      (update role frame .free) pending := by
  have cleared := paged.mappers_cleared isTable small maps
  have isUser := paged.user_of_place isTable small maps
  have layout := paged.layout_cleared isTable small
  have count := paged.counted isUser
  rw [cleared frame, if_pos rfl] at count
  have unmapped : (state.setEntry table place 0).mappers dirs frame = 0 := by
    split at count <;> omega
  have settled : pending ≠ some frame := by
    intro owed
    rw [if_pos owed] at count
    omega
  have user_of : ∀ {other}, update role frame .free other = .user →
      other ≠ frame ∧ role other = .user := by
    intro other user
    by_cases same : other = frame
    · rw [same, update_self] at user
      cases user
    · rw [update_of_ne same] at user
      exact ⟨same, user⟩
  constructor
  · exact paged.small
  · intro other inside
    apply paged.inside
    exact mt (role_kept isUser _ (by simp) (by simp)).mpr inside
  · exact paged.free_insert
  · intro other
    rw [role_kept isUser _ (by simp) (by simp)]
    exact paged.dirs_iff other
  · have retired := layout.retire isUser (by
      intro other page isDir inside maps'
      refine references_eq_zero.mp unmapped (other, page) ?_ maps'
      rw [mem_product, mem_range, paged.dirs_iff]
      exact ⟨isDir, inside⟩)
    exact ⟨retired.table_iff, retired.table_dir, retired.user_of_mapped, retired.present⟩
  · intro other owed
    have distinct : other ≠ frame := by
      rintro rfl
      exact settled owed
    rw [update_of_ne distinct]
    exact paged.pending_user owed
  · intro other user
    obtain ⟨distinct, user⟩ := user_of user
    have count := paged.counted user
    rw [cleared other, if_neg distinct] at count
    change update (update state.ref frame _) frame 0 other =
      (state.setEntry table place 0).mappers dirs other + _
    rw [update_of_ne distinct, update_of_ne distinct]
    exact count
  · intro other user free
    obtain ⟨distinct, user⟩ := user_of user
    have positive := paged.used user free
    rw [cleared other, if_neg distinct] at positive
    exact positive
  intro other either
  change update (update state.ref frame _) frame 0 other = 0
  by_cases same : other = frame
  · rw [same, update_self]
  rw [update_of_ne same] at either
  rw [update_of_ne same, update_of_ne same]
  exact paged.idle either

end

def PhysState.addTable (state : PhysState) (dir index table : Nat) : PhysState :=
  ((state.setRef table 1).setMem table ((state.mem table).blit 0 (fun _ => 0) 0 PGSIZE)).setEntry
    dir index (page2pa table ||| PTE_U ||| PTE_W ||| PTE_P)

theorem mem_addTable (notTable : frame ≠ table) (notDir : frame ≠ dir) :
    (state.addTable dir index table).mem frame = state.mem frame := by
  rw [addTable, setEntry, mem_setMem_of_ne notDir, mem_setMem_of_ne notTable]
  rfl

theorem entry_addTable_dir (notTable : other ≠ table) (apart : other ≠ dir ∨ place ≠ index) :
    (state.addTable dir index table).entry other place = state.entry other place := by
  rw [addTable, entry_setEntry_of_ne apart]
  apply entry_congr
  exact mem_setMem_of_ne notTable _

theorem table_addTable_self (small : table < 2 ^ 20) :
    (state.addTable dir index table).table dir index = some table := by
  rw [PhysState.table, PhysState.addTable, tableEntry_eq,
    entry_setEntry_self (page2pa_or_lt (by decide) small)]
  exact entryFrame_page2pa (by decide) (by decide)

theorem entry_addTable_table (distinct : table ≠ dir) (small : place < 1024) :
    (state.addTable dir index table).entry table place = 0 := by
  rw [addTable, entry_setEntry_of_ne (.inl distinct)]
  exact entry_cleared (state.setRef table 1) table small

section

variable (paged : Paged state dirs role pending) (isHeld : role table = .held)

include paged isHeld

theorem Paged.table_addTable (otherDir : role other = .directory) :
    (state.addTable dir index table).table other position =
      if other = dir ∧ position = index then some table else state.table other position := by
  have notTable : other ≠ table := ne_of_role otherDir isHeld (by simp)
  have small : table < 2 ^ 20 :=
    (paged.inside (by simp [isHeld])).trans_le paged.small
  by_cases here : other = dir ∧ position = index
  · obtain ⟨rfl, rfl⟩ := here
    rw [if_pos ⟨rfl, rfl⟩, table_addTable_self small]
  · rw [if_neg here, PhysState.table, PhysState.table, entry_addTable_dir notTable (by tauto)]

theorem Paged.pte_addTable (isDir : role dir = .directory) (missing : state.table dir index = none)
    (otherDir : role other = .directory) (inside : page < USERPAGES) :
    (state.addTable dir index table).pte other page = state.pte other page := by
  have found : (state.addTable dir index table).table other (page / 1024) = _ :=
    paged.table_addTable isHeld otherDir
  by_cases here : other = dir ∧ page / 1024 = index
  · rw [if_pos here] at found
    obtain ⟨rfl, rfl⟩ := here
    rw [pte_of_none missing, pte_of_table found]
    exact entry_addTable_table (ne_of_role isHeld isDir (by simp)) (Nat.mod_lt _ (by decide))
  rw [if_neg here] at found
  apply pte_congr found
  intro found isFound
  have isTable := (paged.layout.table_iff otherDir (page_table_lt inside)).mp isFound
  apply entry_addTable_dir (ne_of_role isTable isHeld (by simp))
  exact .inl (ne_of_role isTable isDir (by simp))

theorem Paged.addTable (isDir : role dir = .directory) (inside : index < USERTABLES)
    (missing : state.table dir index = none) :
    Paged (state.addTable dir index table) dirs (update role table (.table dir index)) pending := by
  have pte : ∀ {other page}, role other = .directory → page < USERPAGES →
      (state.addTable dir index table).pte other page = state.pte other page :=
    paged.pte_addTable isHeld isDir missing
  refine paged.change (by simp [isHeld]) (by simp) rfl ?_ ?_ ?_ ?_ ?_ ?_
  · intro other
    rw [role_kept isHeld .free (by simp) (by simp)]
    exact paged.free_iff other
  · intro other
    rw [role_kept isHeld .directory (by simp) (by simp)]
    exact paged.dirs_iff other
  · apply paged.layout.retable pte (fun _ => role_kept isHeld .directory (by simp) (by simp))
      (fun _ => (role_kept isHeld .user (by simp) (by simp)).mpr)
    · intro other position found otherDir small
      rw [paged.table_addTable isHeld otherDir]
      by_cases here : other = dir ∧ position = index
      · obtain ⟨rfl, rfl⟩ := here
        by_cases same : found = table
        · simp [same]
        · rw [update_of_ne same, ← paged.layout.table_iff otherDir small, missing]
          simp [Ne.symm same]
      have third : FrameRole.table other position ≠ .table dir index := by simpa using here
      rw [if_neg here, role_kept isHeld _ (by simp) third]
      exact paged.layout.table_iff otherDir small
    intro other position found isTable
    by_cases same : found = table
    · rw [same, update_self] at isTable
      injection isTable with sameDir sameIndex
      exact ⟨sameDir ▸ isDir, sameIndex ▸ inside⟩
    · rw [update_of_ne same] at isTable
      exact paged.layout.table_dir isTable
  · exact mappers_congr fun member small =>
      mapped_congr (pte (paged.isDir member) small)
  · exact fun _ distinct => update_of_ne distinct _ _
  · simp [FrameRole.Idle]

end

end UcoreSmp
