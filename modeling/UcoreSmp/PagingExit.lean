import UcoreSmp.PagingRanges

/-!
# Page tables and directories come and go

Installing a page directory, and giving back the page tables of a directory and
the directory itself once nothing is mapped in it any more.
-/

namespace UcoreSmp

open Function PhysState Finset

variable {dirs : Finset Nat} {role role' : Nat → FrameRole} {dir index table frame page : Nat}
  {state next : PhysState}

section DropTable

def PhysState.dropTable (state : PhysState) (dir index table : Nat) : PhysState :=
  (state.give table).setEntry dir index 0

theorem mem_dropTable (distinct : frame ≠ dir) :
    (state.dropTable dir index table).mem frame = state.mem frame :=
  mem_setMem_of_ne distinct _

theorem table_dropTable (state : PhysState) (dir index table other place : Nat) :
    (state.dropTable dir index table).table other place =
      if other = dir ∧ place = index then none else state.table other place := by
  by_cases here : other = dir ∧ place = index
  · obtain ⟨rfl, rfl⟩ := here
    rw [if_pos ⟨rfl, rfl⟩, PhysState.table, PhysState.dropTable, entry_setEntry_self (by decide)]
    rfl
  · rw [if_neg here, PhysState.table, PhysState.dropTable, entry_setEntry_of_ne (by tauto)]
    rfl

variable (paged : Paged state dirs role none) (isTable : role table = .table dir index)
  (clear : ∀ {page}, page < USERPAGES → page / 1024 = index → state.pte dir page = 0)

include paged isTable clear

theorem Paged.pte_dropTable {other : Nat} (isDir : role other = .directory)
    (inside : page < USERPAGES) :
    (state.dropTable dir index table).pte other page = state.pte other page := by
  have isOwner := (paged.layout.table_dir isTable).1
  by_cases here : other = dir ∧ page / 1024 = index
  · obtain ⟨rfl, position⟩ := here
    rw [clear inside position]
    apply pte_of_none
    rw [table_dropTable, if_pos ⟨rfl, position⟩]
  apply pte_congr
  · rw [table_dropTable, if_neg here]
  intro found isFound
  have isTable' := (paged.layout.table_iff isDir (page_table_lt inside)).mp isFound
  exact entry_congr (mem_dropTable (ne_of_role isTable' isOwner (by simp)))

theorem Paged.dropTable :
    Paged (state.dropTable dir index table) dirs (update role table .free) none := by
  have pte : ∀ {other page}, role other = .directory → page < USERPAGES →
      (state.dropTable dir index table).pte other page = state.pte other page :=
    paged.pte_dropTable isTable clear
  refine paged.change (by simp [isTable]) (by simp) rfl paged.free_insert ?_ ?_ ?_ ?_ ?_
  · intro other
    rw [role_kept isTable .directory (by simp) (by simp)]
    exact paged.dirs_iff other
  · apply paged.layout.retable pte (fun _ => role_kept isTable .directory (by simp) (by simp))
      (fun _ => (role_kept isTable .user (by simp) (by simp)).mpr)
    · intro other place found otherDir small
      rw [table_dropTable]
      by_cases here : other = dir ∧ place = index
      · obtain ⟨rfl, rfl⟩ := here
        by_cases same : found = table
        · simp [same]
        rw [update_of_ne same, ← paged.layout.table_iff otherDir small,
          (paged.layout.table_iff otherDir small).mpr isTable]
        simp [Ne.symm same]
      have third : FrameRole.table other place ≠ .table dir index := by simpa using here
      rw [if_neg here, role_kept isTable _ third (by simp)]
      exact paged.layout.table_iff otherDir small
    intro other place found isTable'
    by_cases same : found = table
    · rw [same, update_self] at isTable'
      cases isTable'
    · rw [update_of_ne same] at isTable'
      exact paged.layout.table_dir isTable'
  · exact mappers_congr fun member small =>
      mapped_congr (pte (paged.isDir member) small)
  · exact fun _ distinct => update_of_ne distinct _ _
  · exact fun _ => update_self _ _ _

theorem Paged.touches_dropTable :
    Touches (dirs.erase dir) Nowhere state role (state.dropTable dir index table)
      (update role table .free) := by
  have isOwner := (paged.layout.table_dir isTable).1
  have isOther : ∀ {other}, other ∈ dirs.erase dir → other ≠ dir ∧ role other = .directory := by
    intro other member
    rw [mem_erase, paged.dirs_iff] at member
    exact member
  have tables : ∀ {other place}, other ∈ dirs.erase dir →
      (state.dropTable dir index table).table other place = state.table other place := by
    intro other place member
    rw [table_dropTable, if_neg (fun here => (isOther member).1 here.1)]
  refine ⟨rfl, rfl, le_rfl, ?_, ?_, ?_, ?_, ?_, ?_, ?_⟩
  · exact fun _ => update_role_iff (by simp [isTable]) (by simp)
  · exact fun _ => update_role_iff (by simp [isTable]) (by simp)
  · exact fun member inside _ => paged.pte_dropTable isTable clear (isOther member).2 inside
  · intro other place found member _ isFound
    rw [tables member, isFound]
  · intro other place member _ missing found
    rw [tables member] at found
    exact absurd missing found
  · intro other page frame member inside _ maps
    have isUser := paged.layout.user_of_mapped (isOther member).2 inside maps
    exact mem_dropTable (ne_of_role isUser isOwner (by simp))
  · intro frame isKernel
    exact mem_dropTable (ne_of_role isKernel isOwner (by simp))

omit clear in
theorem Paged.held_dropTable :
    HeldKept state role (state.dropTable dir index table) (update role table .free) := by
  have isOwner := (paged.layout.table_dir isTable).1
  constructor
  · exact fun _ => update_role_iff (by simp [isTable]) (by simp)
  · exact fun isHeld => mem_dropTable (ne_of_role isHeld isOwner (by simp))

end DropTable

section ExitRange

variable {last : PhysState} {role'' : Nat → FrameRole}

/-- Page tables of an empty directory have been given back. -/
structure ExitStep (dirs : Finset Nat) (dir : Nat) (state : PhysState) (role : Nat → FrameRole)
    (next : PhysState) (role' : Nat → FrameRole) : Prop where
  paged : Paged next dirs role' none
  touches : Touches (dirs.erase dir) Nowhere state role next role'
  held : HeldKept state role next role'
  empty : ∀ {page}, page < USERPAGES → next.pte dir page = 0
  tables : ∀ {index table}, next.table dir index = some table → state.table dir index = some table

theorem ExitStep.refl (paged : Paged state dirs role none)
    (empty : ∀ {page}, page < USERPAGES → state.pte dir page = 0) :
    ExitStep dirs dir state role state role :=
  ⟨paged, Touches.refl state role, HeldKept.refl state role, empty, id⟩

theorem ExitStep.trans (first : ExitStep dirs dir state role next role')
    (second : ExitStep dirs dir next role' last role'') :
    ExitStep dirs dir state role last role'' :=
  ⟨second.paged, first.touches.trans second.touches, first.held.trans second.held, second.empty,
    fun found => first.tables (second.tables found)⟩

theorem Paged.exitStep (paged : Paged state dirs role none)
    (empty : ∀ {page}, page < USERPAGES → state.pte dir page = 0)
    (isTable : role table = .table dir index) :
    ExitStep dirs dir state role (state.dropTable dir index table) (update role table .free) := by
  have clear : ∀ {page}, page < USERPAGES → page / 1024 = index → state.pte dir page = 0 :=
    fun inside _ => empty inside
  refine ⟨paged.dropTable isTable clear, paged.touches_dropTable isTable clear,
    paged.held_dropTable isTable, ?_, ?_⟩
  · intro page inside
    rw [paged.pte_dropTable isTable clear (paged.layout.table_dir isTable).1 inside]
    exact empty inside
  intro place found isFound
  rw [table_dropTable] at isFound
  by_cases here : dir = dir ∧ place = index
  · rw [if_pos here] at isFound
    cases isFound
  · rwa [if_neg here] at isFound

variable {post : PUnit → PhysState → Prop} {failed : Int → PhysState → Prop}
  {faulty : MmFault → Prop}

theorem pdx_table (inside : index < USERTABLES) : pdx (index * PTSIZE) = index := by
  unfold USERTABLES at inside
  unfold pdx PTSIZE
  omega

variable {lastPage : Nat}

theorem table_address_lt : index * PTSIZE < lastPage * PGSIZE ↔ index * 1024 < lastPage := by
  unfold PTSIZE PGSIZE
  omega

section

variable (paged : Paged state dirs role none) (isDir : role dir = .directory)
  (empty : ∀ {page}, page < USERPAGES → state.pte dir page = 0)

include paged isDir empty

theorem exitTables_ends {fuel : Nat} (user : lastPage ≤ USERPAGES)
    (inside : index * 1024 < lastPage) (budget : lastPage < (index + fuel) * 1024)
    (done : ∀ next role', ExitStep dirs dir state role next role' →
      (∀ place, index ≤ place → place * 1024 < lastPage → next.table dir place = none) →
      post () next) :
    CallEnds (exitTables dir (lastPage * PGSIZE) fuel (index * PTSIZE)) post failed faulty
      state := by
  induction fuel generalizing index state role with
  | zero => omega
  | succ fuel ih =>
    have small : index < USERTABLES := by
      unfold USERPAGES at user
      unfold USERTABLES
      omega
    have onwards : word (index * PTSIZE + PTSIZE) = (index + 1) * PTSIZE := by
      unfold USERTABLES at small
      unfold word PTSIZE
      omega
    -- What is left to do once this table is gone.
    have rest : ∀ {current role'}, ExitStep dirs dir state role current role' →
        current.table dir index = none →
        CallEnds (if (index + 1) * PTSIZE ≠ 0 ∧ (index + 1) * PTSIZE < lastPage * PGSIZE then
          exitTables dir (lastPage * PGSIZE) fuel ((index + 1) * PTSIZE) else pure ())
          post failed faulty current := by
      intro current role' step gone
      have stays : ∀ {next role''}, ExitStep dirs dir current role' next role'' →
          next.table dir index = none := by
        intro next role'' later
        cases found : next.table dir index with
        | none => rfl
        | some table =>
          have := later.tables found
          rw [gone] at this
          cases this
      rw [callEnds_ite]
      constructor
      · rintro ⟨_, before⟩
        have budget' : lastPage < (index + 1 + fuel) * 1024 := by
          rw [Nat.add_assoc, Nat.add_comm 1]
          exact budget
        have isDir' := step.paged.isDir (paged.mem_dirs isDir)
        apply ih step.paged isDir' step.empty (table_address_lt.mp before) budget'
        intro next role'' later cleared
        apply done next role'' (step.trans later)
        intro place above below
        by_cases here : place = index
        · rw [here]
          exact stays later
        · exact cleared place (by omega) below
      intro beyond
      apply done current role' step
      intro place above below
      have here : place = index := by
        have positive : (index + 1) * PTSIZE ≠ 0 := Nat.mul_ne_zero (by simp) (by decide)
        rw [table_address_lt] at beyond
        omega
      rw [here]
      exact gone
    rw [exitTables, callEnds_bind, callEnds_readPte]
    rw [pdx_table small, onwards]
    rw [callEnds_ite]
    constructor
    · intro present
      have found : state.table dir index = some (ppn (state.entry dir index)) :=
        entryFrame_eq_some.mpr ⟨present, rfl⟩
      have isTable := (paged.layout.table_iff isDir small).mp found
      have isInside : ppn (entryAddr (state.entry dir index)) < state.npage := by
        rw [ppn_entryAddr]
        exact paged.inside (by simp [isTable])
      have taken : ppn (entryAddr (state.entry dir index)) ∉ state.free := by
        rw [ppn_entryAddr, paged.free_iff, isTable]
        simp
      rw [callEnds_bind, pde2page, callEnds_pa2page isInside, callEnds_bind,
        callEnds_freePage taken, callEnds_bind, writePte, callEnds_modify, ppn_entryAddr]
      apply rest (paged.exitStep empty isTable)
      rw [table_dropTable, if_pos ⟨rfl, rfl⟩]
    · intro absent
      apply rest (ExitStep.refl paged empty)
      exact entryFrame_eq_none.mpr (by_contra absent)

/-- `exit_range` on an empty directory gives back the tables of the range. -/
theorem exitRange_ends {start last : Nat} (range : PageRange start last)
    (done : ∀ next role', ExitStep dirs dir state role next role' →
      (∀ page, pageNumber start ≤ page → page < pageNumber last →
        next.table dir (page / 1024) = none) → post () next) :
    CallEnds (exitRange dir start last) post failed faulty state := by
  have first := range.first_lt
  have budget := range.budget
  rw [exitRange, callEnds_bind, callEnds_checkRange range]
  have begin : rounddown start PTSIZE = pageNumber start / 1024 * PTSIZE := by
    unfold rounddown pageNumber PTSIZE PGSIZE
    omega
  rw [begin]
  suffices loop : CallEnds (exitTables dir (pageNumber last * PGSIZE) (rangeBudget start last)
      (pageNumber start / 1024 * PTSIZE)) post failed faulty state by
    rwa [range.last_eq] at loop
  apply exitTables_ends paged isDir empty range.last_le
  · omega
  · omega
  intro next role' step cleared
  apply done next role' step
  intro page above below
  exact cleared (page / 1024) (by omega) (by omega)

end

end ExitRange

section Directories

theorem mapped_of_clear (clear : ∀ index, index < USERTABLES → state.table dir index = none)
    (inside : page < USERPAGES) : state.mapped dir page = none := by
  rw [mapped, pte_of_none (clear _ (page_table_lt inside))]
  rfl

theorem mappers_insert (clear : ∀ index, index < USERTABLES → state.table dir index = none)
    (frame : Nat) : state.mappers (insert dir dirs) frame = state.mappers dirs frame := by
  apply references_places
  · exact product_subset_product (subset_insert _ _) (Finset.Subset.refl _)
  rintro ⟨other, page⟩ member missing
  simp only [mem_product, mem_insert, mem_range] at member missing
  have isDir : other = dir := by tauto
  rw [isDir]
  exact mapped_of_clear clear member.2

variable (paged : Paged state dirs role none)
  (clear : ∀ index, index < USERTABLES → state.table dir index = none)

include paged clear

theorem Paged.makeDir (isHeld : role dir = .held) :
    Paged state (insert dir dirs) (update role dir .directory) none := by
  have dirs_iff : ∀ other, update role dir .directory other = .directory ↔
      other = dir ∨ role other = .directory := by
    intro other
    by_cases same : other = dir
    · simp [same]
    · simp [same]
  have noTable : ∀ {table index}, role table ≠ .table dir index := by
    intro table index isTable
    have := (paged.layout.table_dir isTable).1
    rw [isHeld] at this
    cases this
  refine paged.change (by simp [isHeld]) (by simp) rfl ?_ ?_ ?_ ?_ ?_ ?_
  · intro other
    rw [role_kept isHeld .free (by simp) (by simp)]
    exact paged.free_iff other
  · intro other
    rw [dirs_iff, mem_insert, paged.dirs_iff]
  · constructor
    · intro other index table isDir inside
      rw [role_kept isHeld (.table _ _) (by simp) (by simp)]
      rcases (dirs_iff other).mp isDir with rfl | old
      · rw [clear index inside]
        simp [noTable]
      · exact paged.layout.table_iff old inside
    · intro other index table isTable
      rw [role_kept isHeld (.table _ _) (by simp) (by simp)] at isTable
      rw [dirs_iff]
      obtain ⟨isDir, inside⟩ := paged.layout.table_dir isTable
      exact ⟨.inr isDir, inside⟩
    · intro other page frame isDir inside maps
      rw [role_kept isHeld .user (by simp) (by simp)]
      rcases (dirs_iff other).mp isDir with rfl | old
      · rw [mapped_of_clear clear inside] at maps
        cases maps
      · exact paged.layout.user_of_mapped old inside maps
    intro other page isDir inside unmapped
    rcases (dirs_iff other).mp isDir with rfl | old
    · exact pte_of_none (clear _ (page_table_lt inside))
    · exact paged.layout.present old inside unmapped
  · exact mappers_insert clear
  · exact fun _ _ => rfl
  · simp [FrameRole.Idle]

theorem Paged.dropDir (isDir : role dir = .directory) :
    Paged (state.give dir) (dirs.erase dir) (update role dir .free) none := by
  have dirs_iff : ∀ other, update role dir .free other = .directory ↔
      other ≠ dir ∧ role other = .directory := by
    intro other
    by_cases same : other = dir
    · simp [same]
    · simp [same]
  have noTable : ∀ {table index}, role table ≠ .table dir index := by
    intro table index isTable
    have inside := (paged.layout.table_dir isTable).2
    have found := (paged.layout.table_iff isDir inside).mpr isTable
    rw [clear index inside] at found
    cases found
  refine paged.change (by simp [isDir]) (by simp) rfl paged.free_insert ?_ ?_ ?_ ?_ ?_
  · intro other
    rw [dirs_iff, mem_erase, paged.dirs_iff]
  · constructor
    · intro other index table otherDir inside
      rw [role_kept isDir (.table _ _) (by simp) (by simp)]
      exact paged.layout.table_iff ((dirs_iff other).mp otherDir).2 inside
    · intro other index table isTable
      rw [role_kept isDir (.table _ _) (by simp) (by simp)] at isTable
      obtain ⟨otherDir, inside⟩ := paged.layout.table_dir isTable
      rw [dirs_iff]
      refine ⟨⟨?_, otherDir⟩, inside⟩
      rintro rfl
      exact noTable isTable
    · intro other page frame otherDir inside maps
      rw [role_kept isDir .user (by simp) (by simp)]
      exact paged.layout.user_of_mapped ((dirs_iff other).mp otherDir).2 inside maps
    · intro other page otherDir inside
      exact paged.layout.present ((dirs_iff other).mp otherDir).2 inside
  · intro frame
    have added : state.mappers (insert dir (dirs.erase dir)) frame =
        state.mappers (dirs.erase dir) frame := mappers_insert clear frame
    rw [insert_erase (paged.mem_dirs isDir)] at added
    exact added.symm
  · exact fun _ distinct => update_of_ne distinct _ _
  · exact fun _ => update_self _ _ _

end Directories

theorem Touches.table_eq {area : Nat → Nat → Prop}
    (touches : Touches dirs area state role next role') (member : dir ∈ dirs)
    (inside : index < USERTABLES) (away : ∀ page, ¬ area dir page) :
    next.table dir index = state.table dir index := by
  cases found : state.table dir index with
  | some table => exact touches.table member inside found
  | none =>
    by_contra new
    obtain ⟨page, near, _⟩ := touches.tableNew member inside found new
    exact away page near

end UcoreSmp
