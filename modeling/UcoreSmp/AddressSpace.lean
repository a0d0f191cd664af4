import UcoreSmp.PagingExit
import UcoreSmp.VmaList

/-!
# Building and tearing down an address space

The pages and page tables of an address space lie in its areas.  From this follows
what the routines of `vmm.c` that walk the areas do: `dup_mmap` copies all pages,
and `exit_mmap`, `put_pgdir` and `mm_destroy` give everything back.
-/

namespace UcoreSmp

open Function List PhysState

/-- The pages of an area. -/
def Vma.Covers (vma : Vma) (page : Nat) : Prop :=
  pageNumber vma.vmStart ≤ page ∧ page < pageNumber vma.vmEnd

def InVmas (dir : Nat) (list : List Vma) : Nat → Nat → Prop :=
  fun other page => other = dir ∧ ∃ vma ∈ list, vma.Covers page

def MmStruct.blocks (struct : MmStruct) : List Nat := struct.mmapList.map Vma.block

/-- An address space with sorted areas of whole pages, everything that it maps in
them, and its page tables where the areas are. -/
structure SpaceOk (state : MmState) (mm dir : Nat) : Prop where
  pgdir : (state.mms mm).pgdir = some dir
  ordered : VmasOrdered (state.mms mm).mmapList
  cached : (state.mms mm).Cached
  ranges : ∀ vma ∈ (state.mms mm).mmapList, PageRange vma.vmStart vma.vmEnd
  mapped : ∀ {page}, page < USERPAGES → state.phys.pte dir page ≠ 0 →
    ∃ vma ∈ (state.mms mm).mmapList, vma.Covers page
  tables : ∀ {index}, index < USERTABLES → state.phys.table dir index ≠ none →
    ∃ vma ∈ (state.mms mm).mmapList, ∃ page, vma.Covers page ∧ page / 1024 = index

/-- The blocks of an address space are live and distinct. -/
structure BlocksOk (state : MmState) (mm : Nat) : Prop where
  nodup : (mm :: (state.mms mm).blocks).Nodup
  live : ∀ block ∈ mm :: (state.mms mm).blocks, block ∈ state.heap

variable {failed : Int → MmState → Prop} {faulty : MmFault → Prop} {mm dir block : Nat}
  {dirs : Finset Nat} {role : Nat → FrameRole}

section Rules

variable {α : Type} {state : MmState} {post : α → MmState → Prop}

theorem callEnds_onPhys (call : Paging α) : CallEnds (onPhys call) post failed faulty state ↔
      CallEnds call (fun value phys => post value (state.setPhys phys))
        (fun code phys => failed code (state.setPhys phys)) faulty state.phys :=
  callEnds_within _ _ _ _

theorem callEnds_pgdirOf {post : Nat → MmState → Prop} (isDir : (state.mms mm).pgdir = some dir) :
    CallEnds (pgdirOf mm) post failed faulty state ↔ post dir state := by
  simp [pgdirOf, isDir]

theorem callEnds_kfree {post : PUnit → MmState → Prop} (live : block ∈ state.heap) :
    CallEnds (kfree block) post failed faulty state ↔ post () (state.give block) := by
  simp [kfree, live]

end Rules

section Exit

variable {state : MmState} {post : PUnit → MmState → Prop}

section

variable (list : List Vma) (paged : Paged state.phys dirs role none) (isDir : role dir = .directory)
  (ranges : ∀ vma ∈ list, PageRange vma.vmStart vma.vmEnd)

include list paged isDir ranges

theorem unmapVmas_ends
    (done : ∀ phys role', PagedStep dirs (InVmas dir list) state.phys role phys role' →
      (∀ vma ∈ list, ∀ page, vma.Covers page → phys.pte dir page = 0) →
      post () (state.setPhys phys)) :
    CallEnds (unmapVmas dir list) post failed faulty state := by
  induction list generalizing state role with
  | nil => exact done state.phys role (PagedStep.refl paged) (by simp)
  | cons vma rest ih =>
    obtain ⟨range, later⟩ := forall_mem_cons.mp ranges
    rw [unmapVmas, callEnds_bind, callEnds_onPhys]
    apply unmapRange_ends paged isDir range
    intro phys role' step clear
    have member := paged.mem_dirs isDir
    have paged' : Paged (state.setPhys phys).phys dirs role' none := step.paged
    apply ih paged' (paged'.isDir member) later
    intro phys' role'' step' clear'
    refine done phys' role'' ((step.mono ?_).trans (step'.mono ?_)) ?_
    · rintro other page ⟨same, inside⟩
      exact ⟨same, vma, mem_cons_self, inside⟩
    · rintro other page ⟨same, area, inRest, covers⟩
      exact ⟨same, area, mem_cons_of_mem vma inRest, covers⟩
    intro area isArea page covers
    cases mem_cons.mp isArea with
    | inr inRest => exact clear' area inRest page covers
    | inl same =>
      subst same
      have inside : page < USERPAGES := covers.2.trans_le range.last_le
      by_cases again : ∃ other ∈ rest, other.Covers page
      · obtain ⟨other, inRest, coversToo⟩ := again
        exact clear' other inRest page coversToo
      have same := step'.touches.pte member inside (fun near => again near.2)
      rw [same]
      exact clear page covers.1 covers.2

theorem exitVmas_ends (empty : ∀ {page}, page < USERPAGES → state.phys.pte dir page = 0)
    (done : ∀ phys role', ExitStep dirs dir state.phys role phys role' →
      (∀ vma ∈ list, ∀ page, vma.Covers page → phys.table dir (page / 1024) = none) →
      post () (state.setPhys phys)) :
    CallEnds (exitVmas dir list) post failed faulty state := by
  induction list generalizing state role with
  | nil => exact done state.phys role (ExitStep.refl paged empty) (by simp)
  | cons vma rest ih =>
    obtain ⟨range, later⟩ := forall_mem_cons.mp ranges
    rw [exitVmas, callEnds_bind, callEnds_onPhys]
    apply exitRange_ends paged isDir empty range
    intro phys role' step gone
    have member := paged.mem_dirs isDir
    have paged' : Paged (state.setPhys phys).phys dirs role' none := step.paged
    apply ih paged' (paged'.isDir member) later step.empty
    intro phys' role'' step' gone'
    apply done phys' role'' (step.trans step')
    intro area isArea page covers
    cases mem_cons.mp isArea with
    | inr inRest => exact gone' area inRest page covers
    | inl same =>
      subst same
      cases found : phys'.table dir (page / 1024) with
      | none => rfl
      | some table =>
        have old := step'.tables found
        change phys.table dir (page / 1024) = some table at old
        rw [gone page covers.1 covers.2] at old
        cases old

end

/-- Nothing of a directory is left but the directory. -/
structure Emptied (dirs : Finset Nat) (dir : Nat) (state : PhysState) (role : Nat → FrameRole)
    (next : PhysState) (role' : Nat → FrameRole) : Prop where
  paged : Paged next dirs role' none
  touches : Touches (dirs.erase dir) Nowhere state role next role'
  held : HeldKept state role next role'
  clear : ∀ index, index < USERTABLES → next.table dir index = none

theorem exitMmap_ends (paged : Paged state.phys dirs role none)
    (isDir : role dir = .directory) (space : SpaceOk state mm dir)
    (unused : (state.mms mm).mmCount = 0)
    (done : ∀ phys role', Emptied dirs dir state.phys role phys role' →
      post () (state.setPhys phys)) :
    CallEnds (exitMmap mm) post failed faulty state := by
  have member := paged.mem_dirs isDir
  rw [exitMmap, callEnds_bind, callEnds_get, callEnds_bind, callEnds_ensure]
  refine ⟨fun _ => ?_, fun used => absurd unused used⟩
  rw [callEnds_bind, callEnds_pgdirOf space.pgdir, callEnds_bind]
  apply unmapVmas_ends _ paged isDir space.ranges
  intro phys role' step clear
  -- The pages outside the areas were not mapped in the first place.
  have empty : ∀ {page}, page < USERPAGES → phys.pte dir page = 0 := by
    intro page inside
    by_cases covered : ∃ vma ∈ (state.mms mm).mmapList, vma.Covers page
    · obtain ⟨vma, isVma, covers⟩ := covered
      exact clear vma isVma page covers
    rw [step.touches.pte member inside (fun near => covered near.2)]
    by_contra mapped
    exact covered (space.mapped inside mapped)
  have paged' : Paged (state.setPhys phys).phys dirs role' none := step.paged
  apply exitVmas_ends _ paged' (paged'.isDir member) space.ranges empty
  intro phys' role'' exit gone
  refine done phys' role'' ⟨exit.paged, ?_, step.held.trans exit.held, ?_⟩
  · apply Touches.trans _ exit.touches
    apply step.touches.restrict (Finset.erase_subset _ _)
    intro other isOther page near
    exact absurd near.1 (Finset.ne_of_mem_erase isOther)
  intro index inside
  by_contra found
  have before : state.phys.table dir index ≠ none ∨ ∃ vma ∈ (state.mms mm).mmapList,
      ∃ page, vma.Covers page ∧ page / 1024 = index := by
    by_cases old : state.phys.table dir index = none
    · right
      have new : phys.table dir index ≠ none := by
        intro missing
        apply found
        cases isFound : phys'.table dir index with
        | none => rfl
        | some table =>
          have := exit.tables isFound
          change phys.table dir index = some table at this
          rw [missing] at this
          cases this
      obtain ⟨page, near, position⟩ := step.touches.tableNew member inside old new
      obtain ⟨vma, isVma, covers⟩ := near.2
      exact ⟨vma, isVma, page, covers, position⟩
    · exact .inl old
  have covered : ∃ vma ∈ (state.mms mm).mmapList, ∃ page, vma.Covers page ∧
      page / 1024 = index := before.elim (space.tables inside) id
  obtain ⟨vma, isVma, page, covers, position⟩ := covered
  apply found
  rw [← position]
  exact gone vma isVma page covers

def MmState.release (state : MmState) (blocks : List Nat) : MmState :=
  { state with heap := state.heap \ blocks.toFinset }

theorem release_cons (block : Nat) (blocks : List Nat) :
    (state.give block).release blocks = state.release (block :: blocks) := by
  unfold MmState.release MmState.give
  simp only [toFinset_cons]
  congr 1
  ext other
  simp only [Finset.mem_sdiff, Finset.mem_erase, Finset.mem_insert]
  tauto

theorem destroyVmas_ends (list : List Vma) (nodup : (list.map Vma.block).Nodup)
    (live : ∀ vma ∈ list, vma.block ∈ state.heap)
    (done : post () (state.release (list.map Vma.block))) :
    CallEnds (destroyVmas list) post failed faulty state := by
  induction list generalizing state with
  | nil => simpa [destroyVmas, MmState.release] using done
  | cons vma rest ih =>
    rw [map_cons, nodup_cons] at nodup
    rw [destroyVmas, callEnds_bind, callEnds_kfree (live vma mem_cons_self)]
    apply ih nodup.2
    · intro other member
      apply Finset.mem_erase.mpr
      refine ⟨?_, live other (mem_cons_of_mem vma member)⟩
      intro same
      exact nodup.1 (same ▸ mem_map_of_mem member)
    · rw [release_cons]
      exact done

theorem mem_release {blocks : List Nat} :
    block ∈ (state.release blocks).heap ↔ block ∈ state.heap ∧ block ∉ blocks := by
  simp [MmState.release]

theorem mmDestroy_ends (blocks : BlocksOk state mm) (unused : (state.mms mm).mmCount = 0)
    (done : post () (state.release ((state.mms mm).blocks ++ [mm]))) :
    CallEnds (mmDestroy mm) post failed faulty state := by
  have nodup := nodup_cons.mp blocks.nodup
  rw [mmDestroy, callEnds_bind, callEnds_get, callEnds_bind, callEnds_ensure]
  refine ⟨fun _ => ?_, fun used => absurd unused used⟩
  rw [callEnds_bind]
  apply destroyVmas_ends _ nodup.2
  · intro vma member
    exact blocks.live vma.block (mem_cons_of_mem mm (mem_map_of_mem member))
  rw [callEnds_kfree]
  · have same : (state.release ((state.mms mm).mmapList.map Vma.block)).give mm =
        state.release ((state.mms mm).blocks ++ [mm]) := by
      unfold MmState.release MmState.give MmStruct.blocks
      congr 1
      ext other
      simp only [Finset.mem_erase, Finset.mem_sdiff, mem_toFinset, mem_append, mem_singleton]
      tauto
    rw [same]
    exact done
  · exact mem_release.mpr ⟨blocks.live mm mem_cons_self, nodup.1⟩

/-- An address space is gone, and the other directories did not notice. -/
structure SpaceGone (dirs : Finset Nat) (dir : Nat) (state : PhysState) (role : Nat → FrameRole)
    (next : PhysState) (role' : Nat → FrameRole) : Prop where
  paged : Paged next (dirs.erase dir) role' none
  touches : Touches (dirs.erase dir) Nowhere state role next role'
  held : HeldKept state role next role'

theorem destroySpace_ends (paged : Paged state.phys dirs role none)
    (isDir : role dir = .directory) (space : SpaceOk state mm dir) (blocks : BlocksOk state mm)
    (unused : (state.mms mm).mmCount = 0)
    (done : ∀ phys role', SpaceGone dirs dir state.phys role phys role' →
      post () ((state.setPhys phys).release ((state.mms mm).blocks ++ [mm]))) :
    CallEnds (destroySpace mm) post failed faulty state := by
  have member := paged.mem_dirs isDir
  rw [destroySpace, callEnds_bind]
  apply exitMmap_ends paged isDir space unused
  intro phys role' emptied
  have isDir' := emptied.paged.isDir member
  have taken : dir ∉ phys.free := by
    rw [emptied.paged.free_iff, isDir']
    simp
  have isPgdir : ((state.setPhys phys).mms mm).pgdir = some dir := space.pgdir
  rw [callEnds_bind, putPgdir, callEnds_bind, callEnds_pgdirOf isPgdir, callEnds_onPhys]
  change CallEnds (freePage dir) _ _ _ phys
  rw [callEnds_freePage taken]
  apply mmDestroy_ends (⟨blocks.nodup, blocks.live⟩ : BlocksOk ((state.setPhys phys).setPhys
    (phys.give dir)) mm) unused
  apply done (phys.give dir) (update role' dir .free)
  refine ⟨emptied.paged.dropDir emptied.clear isDir', ?_, ?_⟩
  · apply emptied.touches.trans
    exact Touches.of_mem rfl rfl rfl le_rfl
      (fun _ => update_role_iff (by simp [isDir']) (by simp))
      (fun _ => update_role_iff (by simp [isDir']) (by simp))
  · apply emptied.held.trans
    exact ⟨fun _ => update_role_iff (by simp [isDir']) (by simp), fun _ => rfl⟩

end Exit

section Setup

variable {state : MmState} {post : PUnit → MmState → Prop}

/-- The directory of the kernel has no page tables for user space. -/
structure BootOk (state : PhysState) (role : Nat → FrameRole) (boot : Nat) : Prop where
  kernel : role boot = .kernel
  clear : ∀ index, index < USERTABLES → state.table boot index = none

variable {index boot : Nat}

theorem entry_copied (phys : PhysState) (target source : Nat) (inside : index < 1024) :
    (phys.setMem target ((phys.mem target).blit 0 (phys.mem source) 0 PGSIZE)).entry target index =
      phys.entry source index := by
  rw [entry, mem_setMem_self]
  apply leNat_congr
  intro j small
  rw [Bytes.blit_inside _ (by unfold PGSIZE; omega)]
  congr 1
  omega

/-- The memory after `setup_pgdir` has filled a new directory. -/
def PhysState.newDir (phys : PhysState) (boot dir : Nat) : PhysState :=
  ((phys.take dir).setMem dir ((phys.mem dir).blit 0 (phys.mem boot) 0 PGSIZE)).setEntry dir
    VPT_INDEX (page2pa dir ||| PTE_P ||| PTE_W)

variable {phys : PhysState}

theorem table_newDir (bootOk : BootOk phys role boot)
    (inside : index < USERTABLES) : (phys.newDir boot dir).table dir index = none := by
  unfold USERTABLES at inside
  rw [table, newDir, entry_setEntry_of_ne (.inr (by unfold VPT_INDEX; omega))]
  have copied := entry_copied (phys.take dir) dir boot (show index < 1024 by omega)
  have same : (phys.take dir).entry boot index = phys.entry boot index := rfl
  change entryFrame (((phys.take dir).setMem dir (((phys.take dir).mem dir).blit 0
    ((phys.take dir).mem boot) 0 PGSIZE)).entry dir index) = none
  rw [copied, same]
  exact bootOk.clear index inside

/-- A new, empty directory. -/
structure DirMade (dirs : Finset Nat) (state : PhysState) (role : Nat → FrameRole) (dir : Nat)
    (next : PhysState) (role' : Nat → FrameRole) : Prop where
  paged : Paged next (insert dir dirs) role' none
  touches : Touches dirs Nowhere state role next role'
  held : HeldKept state role next role'
  new : dir ∉ dirs
  clear : ∀ index, index < USERTABLES → next.table dir index = none

theorem Paged.newDir (paged : Paged phys dirs role none)
    (bootOk : BootOk phys role boot) (picked : phys.pick = some dir) :
    DirMade dirs phys role dir (phys.newDir boot dir) (update role dir .directory) := by
  have isFree := paged.free_of_pick picked
  have isHeld : update role dir .held dir = .held := update_self _ _ _
  have taken := paged.take isFree
  have filled := taken.fill isHeld ((phys.mem dir).blit 0 (phys.mem boot) 0 PGSIZE)
  have marked : Paged (phys.newDir boot dir) dirs (update role dir .held) none :=
    filled.fill isHeld _
  have clear : ∀ index, index < USERTABLES → (phys.newDir boot dir).table dir index = none :=
    fun index inside => table_newDir bootOk inside
  have made := marked.makeDir clear isHeld
  rw [update_idem] at made
  refine ⟨made, ?_, ⟨?_, ?_⟩, ?_, clear⟩
  · have first : Touches dirs Nowhere phys role (phys.newDir boot dir) (update role dir .held) :=
      ((touches_take isFree Nowhere).trans (taken.touches_fill isHeld _ Nowhere)).trans
        (filled.touches_fill isHeld _ Nowhere)
    apply first.trans
    exact Touches.of_mem rfl rfl rfl le_rfl (fun frame => by
        rw [update_role_iff (by simp [isFree]) (by simp),
          update_role_iff (by simp [isFree]) (by simp)])
      (fun frame => by
        rw [update_role_iff (by simp [isFree]) (by simp),
          update_role_iff (by simp [isFree]) (by simp)])
  · exact fun _ => update_role_iff (by simp [isFree]) (by simp)
  · intro frame isOther
    have distinct : frame ≠ dir := ne_of_role isOther isFree (by simp)
    rw [PhysState.newDir, mem_setEntry distinct, PhysState.mem_setMem_of_ne distinct]
    rfl
  · rw [paged.dirs_iff, isFree]
    simp

theorem setupPgdir_ends (paged : Paged state.phys dirs role none)
    (boot : BootOk state.phys role state.bootPgdir)
    (done : ∀ dir phys role', DirMade dirs state.phys role dir phys role' →
      post () ((state.setPhys phys).setMm mm { state.mms mm with pgdir := some dir }))
    (short : state.phys.pick = none → state.phys.swapInitOk = false →
      failed (-E_NO_MEM) (state.setPhys state.phys.deny))
    (stuck : state.phys.pick = none → state.phys.swapInitOk = true → faulty .swapOut) :
    CallEnds (setupPgdir mm) post failed faulty state := by
  rw [setupPgdir, callEnds_bind, callEnds_onPhys, callEnds_allocPage]
  constructor
  · intro dir picked
    have isFree := paged.free_of_pick picked
    have inside : ppn (page2pa dir) < (state.phys.take dir).npage := by
      rw [ppn_page2pa]
      exact paged.inside (by simp [isFree])
    rw [callEnds_bind, callEnds_get, callEnds_bind, callEnds_onPhys, fillPgdir, callEnds_bind]
    change CallEnds (kaddr (page2pa dir)) _ _ _ (state.phys.take dir)
    rw [callEnds_kaddr inside, ppn_page2pa, callEnds_bind, copyPageBytes, callEnds_modify,
      writePte, callEnds_modify, callEnds_modify]
    exact done dir _ _ (paged.newDir boot picked)
  · intro refused
    exact ⟨stuck refused, short refused⟩

end Setup

end UcoreSmp
