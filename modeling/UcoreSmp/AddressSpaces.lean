import UcoreSmp.DupMmap

/-!
# All address spaces together

The live address spaces have directories and heap blocks of their own.  A routine
on one of them changes only pages in its areas, so the others stay as they are.
-/

namespace UcoreSmp

open Finset Function PhysState

def OwnsFrame (state : MmState) (mm frame : Nat) : Prop :=
  ∃ dir, (state.mms mm).pgdir = some dir ∧
    (frame = dir ∨ (∃ index < USERTABLES, state.phys.table dir index = some frame) ∨
      ∃ page < USERPAGES, state.phys.mapped dir page = some frame)

/-- Well-formed memory with these live address spaces.  The kernel has some frames,
and others were handed out for other purposes than user memory. -/
structure SpacesKept (kernel held : Finset Nat) (dirOf : Nat → Nat) (live : Finset Nat)
    (state : MmState) (role : Nat → FrameRole) : Prop
    extends PagingKept (live.image dirOf) kernel held state.phys role where
  boot : BootOk state.phys role state.bootPgdir
  distinct : ∀ {mm other}, mm ∈ live → other ∈ live → dirOf mm = dirOf other → mm = other
  space : ∀ {mm}, mm ∈ live → SpaceOk state mm (dirOf mm)
  blocks : ∀ {mm}, mm ∈ live → BlocksOk state mm
  apart : ∀ {mm other}, mm ∈ live → other ∈ live → mm ≠ other →
    ∀ block ∈ mm :: (state.mms mm).blocks, block ∉ other :: (state.mms other).blocks

variable {area : Nat → Nat → Prop} {role role' : Nat → FrameRole} {mm dir : Nat} {phys : PhysState}
  {state next : MmState}

section Frame

variable {dirs : Finset Nat}

section

variable (space : SpaceOk state mm dir)
  (touches : Touches dirs area state.phys role next.phys role') (member : dir ∈ dirs)

include space touches member

theorem SpaceOk.later
    (inside : ∀ page, area dir page → ∃ vma ∈ (next.mms mm).mmapList, vma.Covers page)
    (more : ∀ vma ∈ (state.mms mm).mmapList, vma ∈ (next.mms mm).mmapList)
    (pgdir : (next.mms mm).pgdir = (state.mms mm).pgdir)
    (ordered : VmasOrdered (next.mms mm).mmapList) (cached : (next.mms mm).Cached)
    (ranges : ∀ vma ∈ (next.mms mm).mmapList, PageRange vma.vmStart vma.vmEnd) :
    SpaceOk next mm dir where
  pgdir := pgdir.trans space.pgdir
  ordered := ordered
  cached := cached
  ranges := ranges
  mapped {page} small present := by
    by_cases near : area dir page
    · exact inside page near
    rw [touches.pte member small near] at present
    obtain ⟨vma, isVma, covers⟩ := space.mapped small present
    exact ⟨vma, more vma isVma, covers⟩
  tables {index} small found := by
    by_cases old : state.phys.table dir index = none
    · obtain ⟨page, near, position⟩ := touches.tableNew member small old found
      obtain ⟨vma, isVma, covers⟩ := inside page near
      exact ⟨vma, isVma, page, covers, position⟩
    · obtain ⟨vma, isVma, page, covers, position⟩ := space.tables small old
      exact ⟨vma, more vma isVma, page, covers, position⟩

theorem SpaceOk.unharmed (away : ∀ page, ¬ area dir page) (same : next.mms mm = state.mms mm) :
    SpaceOk next mm dir := by
  apply space.later touches member
  · exact fun page near => absurd near (away page)
  · rw [same]
    exact fun vma isVma => isVma
  · rw [same]
  · rw [same]
    exact space.ordered
  · rw [same]
    exact space.cached
  · rw [same]
    exact space.ranges

end

theorem BootOk.later {phys' : PhysState} {boot : Nat} (ok : BootOk phys role boot)
    (touches : Touches dirs area phys role phys' role') : BootOk phys' role' boot where
  kernel := (touches.kernel boot).mpr ok.kernel
  clear index inside := by
    rw [table_congr (touches.kernelMem ok.kernel)]
    exact ok.clear index inside

theorem BlocksOk.congr (blocks : BlocksOk state mm)
    (same : (next.mms mm).blocks = (state.mms mm).blocks)
    (heap : ∀ block ∈ mm :: (state.mms mm).blocks, block ∈ next.heap) : BlocksOk next mm where
  nodup := by
    rw [same]
    exact blocks.nodup
  live := by
    rw [same]
    exact heap

end Frame

section Kept

variable {kernel held live : Finset Nat} {dirOf : Nat → Nat}

theorem SpacesKept.member (isLive : mm ∈ live) : dirOf mm ∈ live.image dirOf :=
  mem_image_of_mem dirOf isLive

section

variable (kept : SpacesKept kernel held dirOf live state role)

include kept

theorem SpacesKept.isDir (isLive : mm ∈ live) : role (dirOf mm) = .directory :=
  kept.paged.isDir (SpacesKept.member isLive)

theorem SpacesKept.free_iff {frame : Nat} : frame ∈ state.phys.free ↔ frame < state.phys.npage ∧
      frame ∉ kernel ∧ frame ∉ held ∧ ∀ mm ∈ live, ¬ OwnsFrame state mm frame := by
  rw [kept.paged.free_iff, kept.kernel, kept.held]
  constructor
  · intro isFree
    refine ⟨kept.paged.inside (by simp [isFree]), by simp [isFree], by simp [isFree], ?_⟩
    rintro mm isLive ⟨dir, isPgdir, owns⟩
    obtain rfl : dirOf mm = dir := Option.some.inj ((kept.space isLive).pgdir.symm.trans isPgdir)
    have isDir := kept.isDir isLive
    rcases owns with rfl | ⟨index, small, found⟩ | ⟨page, small, maps⟩
    · rw [isDir] at isFree
      cases isFree
    · rw [(kept.paged.layout.table_iff isDir small).mp found] at isFree
      cases isFree
    · rw [kept.paged.layout.user_of_mapped isDir small maps] at isFree
      cases isFree
  rintro ⟨inside, notKernel, notHeld, unowned⟩
  have owner : ∀ {dir}, dir ∈ live.image dirOf → ∃ mm ∈ live, (state.mms mm).pgdir = some dir := by
    intro dir member
    obtain ⟨mm, isLive, rfl⟩ := mem_image.mp member
    exact ⟨mm, isLive, (kept.space isLive).pgdir⟩
  cases isRole : role frame with
  | outside => exact absurd ((kept.outside frame).mp isRole) (by omega)
  | free => rfl
  | kernel => exact absurd isRole notKernel
  | held => exact absurd isRole notHeld
  | directory =>
    obtain ⟨mm, isLive, isPgdir⟩ := owner (kept.paged.mem_dirs isRole)
    exact absurd ⟨frame, isPgdir, .inl rfl⟩ (unowned mm isLive)
  | table dir index =>
    obtain ⟨isDir, small⟩ := kept.paged.layout.table_dir isRole
    obtain ⟨mm, isLive, isPgdir⟩ := owner (kept.paged.mem_dirs isDir)
    have found := (kept.paged.layout.table_iff isDir small).mpr isRole
    exact absurd ⟨dir, isPgdir, .inr (.inl ⟨index, small, found⟩)⟩ (unowned mm isLive)
  | user =>
    obtain ⟨⟨dir, page⟩, member, maps⟩ := references_pos.mp (kept.paged.used isRole (by simp))
    rw [mem_product, mem_range] at member
    obtain ⟨mm, isLive, isPgdir⟩ := owner member.1
    exact absurd ⟨dir, isPgdir, .inr (.inr ⟨page, member.2, maps⟩)⟩ (unowned mm isLive)

theorem SpacesKept.of_step
    (step : PagedStep (live.image dirOf) area state.phys role next.phys role')
    (bootPgdir : next.bootPgdir = state.bootPgdir)
    (space : ∀ {mm}, mm ∈ live → SpaceOk next mm (dirOf mm))
    (blocks : ∀ {mm}, mm ∈ live → BlocksOk next mm)
    (apart : ∀ {mm other}, mm ∈ live → other ∈ live → mm ≠ other →
      ∀ block ∈ mm :: (next.mms mm).blocks, block ∉ other :: (next.mms other).blocks) :
    SpacesKept kernel held dirOf live next role' where
  toPagingKept := kept.toPagingKept.step step
  boot := by
    rw [bootPgdir]
    exact kept.boot.later step.touches
  distinct := kept.distinct
  space := space
  blocks := blocks
  apart := apart

theorem SpacesKept.update (isLive : mm ∈ live)
    (step : PagedStep (live.image dirOf) area state.phys role next.phys role')
    (own : ∀ dir page, area dir page → dir = dirOf mm)
    (others : ∀ other ∈ live, other ≠ mm → next.mms other = state.mms other)
    (bootPgdir : next.bootPgdir = state.bootPgdir) (space : SpaceOk next mm (dirOf mm))
    (blocks : BlocksOk next mm)
    (fresh : ∀ block ∈ (next.mms mm).blocks, block ∈ (state.mms mm).blocks ∨ block ∉ state.heap)
    (heap : ∀ block ∈ state.heap, block ∈ next.heap) :
    SpacesKept kernel held dirOf live next role' := by
  have outsiders : ∀ {other}, other ∈ live → other ≠ mm →
      ∀ block ∈ mm :: (next.mms mm).blocks, block ∉ other :: (next.mms other).blocks := by
    intro other isOther distinct block mine theirs
    rw [others other isOther distinct] at theirs
    have old : block ∈ mm :: (state.mms mm).blocks := by
      cases List.mem_cons.mp mine with
      | inl same => exact List.mem_cons.mpr (.inl same)
      | inr inList =>
        cases fresh block inList with
        | inl old => exact List.mem_cons_of_mem mm old
        | inr new => exact absurd ((kept.blocks isOther).live block theirs) new
    exact kept.apart isLive isOther distinct.symm block old theirs
  apply kept.of_step step bootPgdir
  · intro other isOther
    by_cases same : other = mm
    · rw [same]
      exact space
    apply (kept.space isOther).unharmed step.touches (SpacesKept.member isOther)
    · intro page near
      exact same (kept.distinct isOther isLive (own _ page near))
    · exact others other isOther same
  · intro other isOther
    by_cases same : other = mm
    · rw [same]
      exact blocks
    apply (kept.blocks isOther).congr
    · rw [others other isOther same]
    · exact fun block member => heap block ((kept.blocks isOther).live block member)
  intro first second isFirst isSecond distinct block mine theirs
  by_cases same : first = mm
  · subst same
    exact outsiders isSecond distinct.symm block mine theirs
  by_cases same' : second = mm
  · subst same'
    exact outsiders isFirst same block theirs mine
  rw [others first isFirst same] at mine
  rw [others second isSecond same'] at theirs
  exact kept.apart isFirst isSecond distinct block mine theirs

theorem SpacesKept.setMm (isLive : mm ∈ live) {struct : MmStruct}
    (list : struct.mmapList = (state.mms mm).mmapList) (pgdir : struct.pgdir = (state.mms mm).pgdir)
    (cached : struct.Cached) : SpacesKept kernel held dirOf live (state.setMm mm struct) role := by
  have step : PagedStep (live.image dirOf) Nowhere state.phys role
    (state.setMm mm struct).phys role := PagedStep.refl kept.paged
  have was := kept.space isLive
  have blocks : ((state.setMm mm struct).mms mm).blocks = (state.mms mm).blocks := by
    rw [mms_setMm, MmStruct.blocks, MmStruct.blocks, list]
  apply kept.update isLive step
  · exact fun dir page near => near.elim
  · exact fun other _ distinct => mms_setMm_of_ne distinct struct
  · rfl
  · apply was.later step.touches (SpacesKept.member isLive)
    · exact fun page near => near.elim
    · rw [mms_setMm, list]
      exact fun vma member => member
    · rw [mms_setMm, pgdir]
    · rw [mms_setMm, list]
      exact was.ordered
    · rw [mms_setMm]
      exact cached
    · rw [mms_setMm, list]
      exact was.ranges
  · exact (kept.blocks isLive).congr blocks (kept.blocks isLive).live
  · rw [blocks]
    exact fun block member => .inl member
  · exact fun block member => member

/-- Every live address space is as it was, and so is the heap. -/
structure Unharmed (dirs : Finset Nat) (state : MmState) (role : Nat → FrameRole)
    (next : MmState) (role' : Nat → FrameRole) : Prop where
  step : PagedStep dirs Nowhere state.phys role next.phys role'
  heap : next.heap = state.heap
  structs : ∀ mm ∈ state.heap, next.mms mm = state.mms mm
  bootPgdir : next.bootPgdir = state.bootPgdir

theorem SpacesKept.unharmed (same : Unharmed (live.image dirOf) state role next role') :
    SpacesKept kernel held dirOf live next role' := by
  have struct : ∀ {mm}, mm ∈ live → next.mms mm = state.mms mm :=
    fun isLive => same.structs _ ((kept.blocks isLive).live _ List.mem_cons_self)
  apply kept.of_step same.step same.bootPgdir
  · exact fun isLive => (kept.space isLive).unharmed same.step.touches
      (SpacesKept.member isLive) (fun page near => near) (struct isLive)
  · intro mm isLive
    apply (kept.blocks isLive).congr
    · rw [struct isLive]
    · rw [same.heap]
      exact (kept.blocks isLive).live
  · intro first second isFirst isSecond
    rw [struct isFirst, struct isSecond]
    exact kept.apart isFirst isSecond

end

theorem image_erase (distinct : ∀ {mm other}, mm ∈ live → other ∈ live →
      dirOf mm = dirOf other → mm = other) (isLive : mm ∈ live) :
    (live.erase mm).image dirOf = (live.image dirOf).erase (dirOf mm) := by
  ext dir
  simp only [mem_image, mem_erase]
  constructor
  · rintro ⟨other, ⟨differs, isOther⟩, rfl⟩
    exact ⟨fun same => differs (distinct isOther isLive same), other, isOther, rfl⟩
  · rintro ⟨differs, other, isOther, rfl⟩
    exact ⟨other, ⟨fun same => differs (by rw [same]), isOther⟩, rfl⟩

/-- The others after `exit_mmap`, `put_pgdir` and `mm_destroy`. -/
theorem SpacesKept.remove (kept : SpacesKept kernel held dirOf live state role) (isLive : mm ∈ live)
    (gone : SpaceGone (live.image dirOf) (dirOf mm) state.phys role phys role') :
    SpacesKept kernel held dirOf (live.erase mm)
      ((state.setPhys phys).release ((state.mms mm).blocks ++ [mm])) role' := by
  have dirs := image_erase kept.distinct isLive
  have others : ∀ {other}, other ∈ live.erase mm → other ≠ mm ∧ other ∈ live :=
    fun isOther => mem_erase.mp isOther
  constructor
  · rw [dirs]
    exact kept.toPagingKept.later gone.paged gone.touches gone.held.same
  · exact kept.boot.later gone.touches
  · exact fun isFirst isSecond => kept.distinct (others isFirst).2 (others isSecond).2
  · intro other isOther
    have touches : Touches ((live.image dirOf).erase (dirOf mm)) Nowhere state.phys role
      ((state.setPhys phys).release ((state.mms mm).blocks ++ [mm])).phys role' := gone.touches
    apply (kept.space (others isOther).2).unharmed touches
    · rw [← dirs]
      exact SpacesKept.member isOther
    · exact fun page near => near
    · rfl
  · intro other isOther
    have was := kept.blocks (others isOther).2
    refine was.congr rfl ?_
    intro block member
    apply mem_release.mpr
    refine ⟨was.live block member, ?_⟩
    intro released
    apply kept.apart (others isOther).2 isLive (others isOther).1 block member
    rwa [List.mem_append, List.mem_singleton, or_comm, ← List.mem_cons] at released
  · exact fun isFirst isSecond => kept.apart (others isFirst).2 (others isSecond).2

theorem image_insert_update (new : mm ∉ live) :
    (insert mm live).image (update dirOf mm dir) = insert dir (live.image dirOf) := by
  rw [image_insert, update_self]
  congr 1
  apply image_congr
  intro other isOther
  apply update_of_ne
  rintro rfl
  exact new isOther

/-- A new address space has no areas and an empty directory. -/
structure SpaceMade (dirs : Finset Nat) (state : MmState) (role : Nat → FrameRole) (mm dir : Nat)
    (next : MmState) (role' : Nat → FrameRole) : Prop where
  made : DirMade dirs state.phys role dir next.phys role'
  unused : mm ∉ state.heap
  struct : next.mms mm = ⟨[], none, some dir, 0, 0⟩
  others : ∀ other, other ≠ mm → next.mms other = state.mms other
  heap : next.heap = insert mm state.heap
  bootPgdir : next.bootPgdir = state.bootPgdir

theorem SpacesKept.add (kept : SpacesKept kernel held dirOf live state role)
    (space : SpaceMade (live.image dirOf) state role mm dir next role') :
    SpacesKept kernel held (Function.update dirOf mm dir) (insert mm live) next role' := by
  obtain ⟨made, unused, struct, others, heap, bootPgdir⟩ := space
  have inHeap : ∀ {other}, other ∈ live → ∀ block ∈ other :: (state.mms other).blocks,
      block ∈ state.heap := fun isOther => (kept.blocks isOther).live
  have differs : ∀ {other}, other ∈ live → other ≠ mm := by
    rintro other isOther rfl
    exact unused (inHeap isOther other List.mem_cons_self)
  have dirOther : ∀ {other}, other ∈ live → Function.update dirOf mm dir other = dirOf other :=
    fun isOther => update_of_ne (differs isOther) _ _
  have dirNew : Function.update dirOf mm dir mm = dir := Function.update_self _ _ _
  have dirs : (insert mm live).image (Function.update dirOf mm dir) =
      insert dir (live.image dirOf) := image_insert_update fun isLive => differs isLive rfl
  have notOld : ∀ {other}, other ∈ live → dirOf other ≠ dir := by
    rintro other isOther rfl
    exact made.new (SpacesKept.member isOther)
  constructor
  · rw [dirs]
    exact kept.toPagingKept.later made.paged made.touches made.held.same
  · rw [bootPgdir]
    exact kept.boot.later made.touches
  · intro first second isFirst isSecond same
    rcases mem_insert.mp isFirst with rfl | old <;> rcases mem_insert.mp isSecond with rfl | old'
    · rfl
    · rw [dirNew, dirOther old'] at same
      exact absurd same.symm (notOld old')
    · rw [dirOther old, dirNew] at same
      exact absurd same (notOld old)
    · rw [dirOther old, dirOther old'] at same
      exact kept.distinct old old' same
  · intro other isOther
    cases mem_insert.mp isOther with
    | inr old =>
      rw [dirOther old]
      exact (kept.space old).unharmed made.touches (SpacesKept.member old)
        (fun page near => near) (others other (differs old))
    | inl new =>
      subst new
      rw [dirNew]
      constructor
      · rw [struct]
      · rw [struct]
        exact ⟨List.Pairwise.nil, fun vma member => absurd member List.not_mem_nil⟩
      · rw [struct]
        exact fun vma isCache => absurd isCache (by simp)
      · rw [struct]
        exact fun vma member => absurd member List.not_mem_nil
      · intro page inside present
        rw [pte_of_none (made.clear _ (page_table_lt inside))] at present
        exact absurd rfl present
      · intro index inside found
        exact absurd (made.clear index inside) found
  · intro other isOther
    cases mem_insert.mp isOther with
    | inr old =>
      apply (kept.blocks old).congr
      · rw [others other (differs old)]
      intro block member
      rw [heap]
      exact mem_insert_of_mem (inHeap old block member)
    | inl new =>
      subst new
      constructor
      · simp [struct, MmStruct.blocks]
      · simp [struct, MmStruct.blocks, heap]
  intro first second isFirst isSecond distinct block mine theirs
  rcases mem_insert.mp isFirst with rfl | old <;> rcases mem_insert.mp isSecond with rfl | old'
  · exact distinct rfl
  · rw [others second (differs old')] at theirs
    obtain rfl : block = first := by simpa [struct, MmStruct.blocks] using mine
    exact unused (inHeap old' _ theirs)
  · rw [others first (differs old)] at mine
    obtain rfl : block = second := by simpa [struct, MmStruct.blocks] using theirs
    exact unused (inHeap old _ mine)
  · rw [others first (differs old)] at mine
    rw [others second (differs old')] at theirs
    exact kept.apart old old' distinct block mine theirs

end Kept

end UcoreSmp
