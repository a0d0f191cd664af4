import UcoreSmp.AddressSpaces

/-!
# Calls on address spaces

What `mm_map`, `do_pgfault`, `copy_mm` and the routines that make and end an
address space do to all live address spaces together.
-/

namespace UcoreSmp

open Function List SpacesKept PhysState

variable {dirs : Finset Nat} {role : Nat → FrameRole} {failed : Int → MmState → Prop}
  {faulty : MmFault → Prop} {state : MmState} {dirOf : Nat → Nat} {vma : Vma} {phys : PhysState}

section New

variable {post : Nat → MmState → Prop}

theorem Paged.unharmed_deny (paged : Paged state.phys dirs role none) :
    Unharmed dirs state role state.deny role where
  step := paged.step_congr Nowhere rfl rfl rfl rfl rfl (Nat.le_succ _)
  heap := rfl
  structs _ _ := rfl
  bootPgdir := rfl

theorem newSpace_ends (paged : Paged state.phys dirs role none)
    (boot : BootOk state.phys role state.bootPgdir)
    (done : ∀ mm dir next role', SpaceMade dirs state role mm dir next role' → post mm next)
    (short : ∀ next, Unharmed dirs state role next role → failed (-E_NO_MEM) next)
    (stuck : faulty .swapOut) :
    CallEnds newSpace post failed faulty state := by
  rw [newSpace, callEnds_bind, mmCreate, callEnds_bind, callEnds_kmalloc]
  constructor
  · exact fun _ => ⟨fun _ => stuck, fun _ => short state.deny paged.unharmed_deny⟩
  intro mm picked
  rw [callEnds_bind, callEnds_modify, callEnds_pure]
  have unused := pick_unused picked
  set made := (state.take mm).setMm mm ⟨[], none, none, 0, 0⟩
  have struct : made.mms mm = ⟨[], none, none, 0, 0⟩ := mms_setMm _
  have others : ∀ other, other ≠ mm → made.mms other = state.mms other :=
    fun other distinct => mms_setMm_of_ne distinct _
  change Paged made.phys dirs role none at paged
  change BootOk made.phys role made.bootPgdir at boot
  rw [callEnds_bind, callEnds_attempt]
  apply setupPgdir_ends paged boot
  · intro dir phys' role' isDir
    apply done mm dir _ role'
    refine ⟨isDir, unused, ?_, ?_, rfl, rfl⟩
    · rw [mms_setMm, struct]
    intro other distinct
    rw [mms_setMm_of_ne distinct]
    exact others other distinct
  · intro _ _
    have blocks : BlocksOk (made.setPhys made.phys.deny) mm := by
      constructor
      · change (mm :: (made.mms mm).blocks).Nodup
        simp [struct, MmStruct.blocks]
      · change ∀ block ∈ mm :: (made.mms mm).blocks, block ∈ insert mm state.heap
        simp [struct, MmStruct.blocks]
    have idle : ((made.setPhys made.phys.deny).mms mm).mmCount = 0 := by
      change (made.mms mm).mmCount = 0
      rw [struct]
    rw [callEnds_bind]
    apply mmDestroy_ends blocks idle
    apply short
    refine ⟨paged.step_deny Nowhere, ?_, ?_, rfl⟩
    · ext block
      rw [mem_release]
      change block ∈ insert mm state.heap ∧ block ∉ (made.mms mm).blocks ++ [mm] ↔ _
      rw [struct, Finset.mem_insert]
      simp only [MmStruct.blocks, map_nil, nil_append, mem_singleton]
      constructor
      · exact fun both => both.1.resolve_left both.2
      · exact fun old => ⟨.inr old, fun same => unused (same ▸ old)⟩
    · exact fun other used => others other fun same => unused (same ▸ used)
  · exact fun _ _ => stuck

end New

variable {kernel held live : Finset Nat} {next : MmState} {role' : Nat → FrameRole}
  {mm child dir addr : Nat} {added : List Vma}

/-- The areas that `dup_mmap` has linked in, complete or not, are those of a
well-formed address space. -/
theorem DupPart.kept (kept : SpacesKept kernel held dirOf live state role) (isLive : mm ∈ live)
    (part : DupPart (live.image dirOf) state role mm (dirOf mm) added next role')
    (ranges : ∀ vma ∈ added, PageRange vma.vmStart vma.vmEnd) :
    SpacesKept kernel held dirOf live next role' := by
  have was := kept.space isLive
  have owned := kept.blocks isLive
  have list : (next.mms mm).mmapList = added ++ (state.mms mm).mmapList := by rw [part.struct]
  have blocks : (next.mms mm).blocks = added.map Vma.block ++ (state.mms mm).blocks := by
    rw [MmStruct.blocks, list, map_append]
    rfl
  have fresh : ∀ block ∈ added.map Vma.block, block ∉ state.heap := by
    intro block member
    obtain ⟨vma, isVma, rfl⟩ := mem_map.mp member
    exact part.fresh vma isVma
  have more : ∀ vma ∈ (state.mms mm).mmapList, vma ∈ (next.mms mm).mmapList := by
    rw [list]
    exact fun vma member => mem_append_right added member
  apply kept.update isLive part.step
  · exact fun dir page near => near.1
  · exact fun other _ distinct => part.others other distinct
  · exact part.boot
  · apply was.later part.step.touches (member isLive)
    · rintro page ⟨_, vma, isVma, covers⟩
      exact ⟨vma, by rw [list]; exact mem_append_left _ isVma, covers⟩
    · exact more
    · rw [part.struct]
    · exact part.ordered
    · intro vma isCache
      rw [part.struct] at isCache
      exact more vma (was.cached vma isCache)
    · intro vma isVma
      rw [list, mem_append] at isVma
      exact isVma.elim (ranges vma) (was.ranges vma)
  · have apart := nodup_cons.mp owned.nodup
    constructor
    · rw [blocks, nodup_cons, mem_append, not_or, nodup_append]
      refine ⟨⟨fun new => fresh mm new (owned.live mm mem_cons_self), apart.1⟩,
        part.nodup, apart.2, ?_⟩
      rintro block new other old rfl
      exact fresh block new (owned.live block (mem_cons_of_mem mm old))
    rw [blocks]
    intro block member
    rw [part.heap]
    rw [mem_cons, mem_append] at member
    rcases member with rfl | new | old
    · exact .inl (owned.live _ mem_cons_self)
    · exact .inr new
    · exact .inl (owned.live _ (mem_cons_of_mem mm old))
  · rw [blocks]
    intro block member
    rw [mem_append] at member
    exact member.symm.imp id (fresh block)
  · exact fun block old => (part.heap block).mpr (.inl old)

variable (kept : SpacesKept kernel held dirOf live state role) (isLive : mm ∈ live)

section Copy

variable {post : Option Nat → MmState → Prop}

section

variable (made : SpaceMade (live.image dirOf) state role child dir next role')

include made

include kept isLive in
theorem SpaceMade.dupReady :
    DupReady (insert dir (live.image dirOf)) next role' mm child (dirOf mm) dir := by
  have distinct : mm ≠ child := by
    rintro rfl
    exact made.unused ((kept.blocks isLive).live mm mem_cons_self)
  refine ⟨made.made.paged, ?_, ?_, ?_, distinct, ?_, ?_, ?_⟩
  · rw [← made.made.paged.dirs_iff]
    exact Finset.mem_insert_of_mem (member isLive)
  · rw [← made.made.paged.dirs_iff]
    exact Finset.mem_insert_self _ _
  · rintro same
    exact made.made.new (same ▸ member isLive)
  · rw [made.others mm distinct]
    exact (kept.space isLive).pgdir
  · rw [made.struct]
  · rw [made.struct]
    exact ⟨List.Pairwise.nil, fun vma member => absurd member not_mem_nil⟩

include kept isLive

theorem SpaceMade.ranges :
    ∀ vma ∈ (next.mms mm).mmapList.reverse, PageRange vma.vmStart vma.vmEnd := by
  rw [made.others mm (made.dupReady kept isLive).distinctMms]
  exact fun vma member => (kept.space isLive).ranges vma (mem_reverse.mp member)

end

section Parts

variable {last : MmState} {role₁ role₂ : Nat → FrameRole}
  (made : SpaceMade (live.image dirOf) state role child dir next role₁)
  (part : DupPart (insert dir (live.image dirOf)) next role₁ child dir added last role₂)

include made part

theorem SpaceMade.touches : Touches (live.image dirOf) Nowhere state.phys role last.phys role₂ := by
  apply made.made.touches.trans
  apply part.step.touches.restrict (Finset.subset_insert _ _)
  rintro other member page ⟨rfl, _⟩
  exact made.made.new member

include kept isLive

theorem SpaceMade.part_kept
    (shapes : ∀ vma ∈ added, vma.shape ∈ (next.mms mm).mmapList.reverse.map Vma.shape) :
    SpacesKept kernel held (update dirOf child dir) (insert child live) last role₂ := by
  have new : child ∉ live := fun isChild =>
    made.unused ((kept.blocks isChild).live child mem_cons_self)
  have isDir : update dirOf child dir child = dir := update_self _ _ _
  have dirs : (insert child live).image (update dirOf child dir) =
    insert dir (live.image dirOf) := image_insert_update new
  apply DupPart.kept (kept.add made) (Finset.mem_insert_self _ _)
  · rw [dirs, isDir]
    exact part
  intro vma member
  obtain ⟨other, isOther, same⟩ := mem_map.mp (shapes vma member)
  simp only [Vma.shape, Prod.mk.injEq] at same
  rw [← same.1, ← same.2.1]
  exact made.ranges kept isLive other isOther

omit part in
/-- A child with a copy of the parent's address space. -/
theorem SpaceMade.forked
    (done : DupDone (insert dir (live.image dirOf)) next role₁ (dirOf mm) child dir
      (next.mms mm).mmapList.reverse added last role₂) :
    SpacesKept kernel held (update dirOf child dir) (insert child live) (last.addCount child 1)
      role₂ := by
  have isChild : child ∈ insert child live := Finset.mem_insert_self _ _
  have whole := made.part_kept kept isLive done.part fun vma member => by
    have shape : vma.shape ∈ added.map Vma.shape := mem_map_of_mem member
    rwa [done.shapes, map_reverse, mem_reverse] at shape
  exact whole.setMm isChild rfl rfl (whole.space isChild).cached

omit kept isLive in
theorem SpaceMade.undone
    (gone : SpaceGone (insert dir (live.image dirOf)) dir last.phys role₂ phys role') :
    Unharmed (live.image dirOf) state role
      ((last.setPhys phys).release ((last.mms child).blocks ++ [child])) role' := by
  obtain ⟨paged, touches, held⟩ := gone
  rw [Finset.erase_insert made.made.new] at paged touches
  refine ⟨⟨paged, (made.touches part).trans touches, ?_⟩, ?_, ?_, ?_⟩
  · exact (made.made.held.trans part.step.held).trans held
  · have blocks : (last.mms child).blocks = added.map Vma.block := by
      rw [MmStruct.blocks, part.struct, made.struct, append_nil]
    ext block
    rw [mem_release]
    change block ∈ last.heap ∧ block ∉ (last.mms child).blocks ++ [child] ↔ _
    rw [blocks, part.heap, made.heap, mem_append, mem_singleton, Finset.mem_insert, not_or]
    constructor
    · rintro ⟨(old | old) | new, notAdded, notChild⟩
      · exact absurd old notChild
      · exact old
      · exact absurd new notAdded
    intro old
    refine ⟨.inl (.inr old), ?_, fun same => made.unused (same ▸ old)⟩
    intro isNew
    obtain ⟨vma, isVma, rfl⟩ := mem_map.mp isNew
    apply part.fresh vma isVma
    rw [made.heap]
    exact Finset.mem_insert_of_mem old
  · intro other used
    have distinct : other ≠ child := fun same => made.unused (same ▸ used)
    change last.mms other = _
    rw [part.others other distinct, made.others other distinct]
  · exact part.boot.trans made.bootPgdir

end Parts

include kept isLive in
theorem copyMm_ends (done : ∀ child dir next role',
      SpacesKept kernel held (update dirOf child dir) (insert child live) next role' →
      post (some child) next)
    (short : ∀ next role', Unharmed (live.image dirOf) state role next role' →
      failed (-E_NO_MEM) next)
    (stuck : ∀ fault, faulty fault) :
    CallEnds (copyMm false (some mm)) post failed faulty state := by
  simp only [copyMm, Bool.false_eq_true, if_false]
  rw [callEnds_bind]
  apply newSpace_ends kept.paged kept.boot
  · intro child dir made role₁ space
    have ready := space.dupReady kept isLive
    have ordered : VmasOrdered (made.mms mm).mmapList := by
      rw [space.others mm ready.distinctMms]
      exact (kept.space isLive).ordered
    have childless : (made.mms child).mmapList = [] := by rw [space.struct]
    rw [callEnds_bind, callEnds_attempt]
    apply dupMmap_ends ready ordered (space.ranges kept isLive) childless
    · exact fun next role₂ added copied => done child dir _ role₂ (space.forked kept isLive copied)
    · rintro next ⟨role₂, added, request, part, shapes, -⟩
      have whole := space.part_kept kept isLive part shapes
      have isChild : child ∈ insert child live := Finset.mem_insert_self _ _
      have spaceOk := whole.space isChild
      have idle : (next.mms child).mmCount = 0 := by
        rw [part.struct, space.struct]
      rw [update_self] at spaceOk
      rw [callEnds_bind]
      apply destroySpace_ends part.step.paged _ spaceOk (whole.blocks isChild) idle
      · exact fun phys role₃ gone => short _ role₃ (space.undone part gone)
      · exact part.step.paged.isDir (Finset.mem_insert_self _ _)
    · exact fun fault _ => stuck fault
  · exact fun next same => short next role same
  · exact stuck _

end Copy

/-- `do_pgfault` maps a fresh frame where nothing was mapped. -/
theorem faultIn_ends {dir la perm : Nat}
    {post : PUnit → PhysState → Prop} {failed : Int → PhysState → Prop}
    (paged : Paged phys dirs role none) (isDir : role dir = .directory) (user : la < USERTOP)
    (fits : perm < PGSIZE)
    (done : ∀ next role', PagedStep dirs (OnPage dir (pageNumber la)) phys role next role' →
      (∀ frame, role frame = .free → phys.mapped dir (pageNumber la) = none →
        next.mapped dir (pageNumber la) = some frame → post () next) ∧
      ∀ code, failed code next) (stuck : ∀ fault, faulty fault) :
    CallEnds (faultIn dir la perm) post failed faulty phys := by
  rw [faultIn, callEnds_bind]
  apply getPte_create paged isDir user
  · intro _ _
    exact ⟨fun _ => stuck _, fun _ => (done _ role (paged.step_deny _)).2 _⟩
  intro table next role₁ found
  have paged₁ := found.paged paged isDir (pdx_lt user)
  have made : PagedStep dirs (OnPage dir (pageNumber la)) phys role next role₁ :=
    ⟨paged₁, found.touches paged isDir (pdx_eq user).symm, found.held paged isDir⟩
  have isDir₁ : role₁ dir = .directory := by
    rw [found.role_eq paged (by simp [isDir])]
    exact isDir
  rw [callEnds_bind, callEnds_readPte]
  rw [callEnds_ite]
  refine ⟨fun absent => ?_, fun _ => ?_⟩
  · have unmapped : phys.mapped dir (pageNumber la) = none := by
      have entry := paged₁.layout.pte_eq found.isTable (ptx_lt la)
      rw [page_split user, found.pte_eq paged isDir (paged.mem_dirs isDir)
        (pageNumber_lt user)] at entry
      rw [mapped, entry, absent, entryFrame_zero]
    rw [callEnds_bind]
    apply pgdirAllocPage_ends paged₁ isDir₁ user fits
    · intro frame next' role' isFree step pte
      refine (done next' role' (made.trans step)).1 frame ?_ unmapped ?_
      · by_contra busy
        rw [found.role_eq paged busy] at isFree
        exact busy isFree
      · rw [mapped, pte, entryFrame_present fits]
    · exact fun next' step _ _ => (done next' role₁ (made.trans step)).2 _
    · exact fun _ => stuck _
  · rw [callEnds_ite]
    exact ⟨fun _ => stuck _, fun _ => stuck _⟩

theorem pageRange_rounded {last : Nat} (access : UserAccess (rounddown addr PGSIZE)
      (roundup last PGSIZE)) : PageRange (rounddown addr PGSIZE) (roundup last PGSIZE) := by
  refine ⟨⟨?_, ?_⟩, access⟩
  · unfold rounddown PGSIZE
    omega
  · unfold roundup rounddown PGSIZE
    omega

theorem faultPerm_lt (vmFlags : Nat) : faultPerm vmFlags < PGSIZE := by
  unfold faultPerm
  split <;> decide

theorem covers_of_contains (range : PageRange vma.vmStart vma.vmEnd)
    (contains : vma.Contains addr) : vma.Covers (pageNumber (rounddown addr PGSIZE)) := by
  have aligned := range.aligned
  unfold Vma.Contains at contains
  unfold Vma.Covers pageNumber rounddown
  unfold PGSIZE at *
  omega

section

include kept isLive

theorem SpacesKept.setCache (isVma : vma ∈ (state.mms mm).mmapList) :
    SpacesKept kernel held dirOf live (state.setCache mm vma) role := by
  refine kept.setMm isLive rfl rfl ?_
  intro other same
  cases same
  exact isVma

theorem doPgfault_ends {errorCode : Nat} {post : PUnit → MmState → Prop}
    (done : ∀ next role', SpacesKept kernel held dirOf live next role' →
      post () next ∧ ∀ code, failed code next) (stuck : ∀ fault, faulty fault) :
    CallEnds (doPgfault mm errorCode addr) post failed faulty state := by
  have was := kept.space isLive
  rw [doPgfault, callEnds_bind, callEnds_findVma]
  refine ⟨fun _ => (done state role kept).2 _, ?_⟩
  intro vma found
  obtain ⟨isVma, contains⟩ := lookup_some was.cached found
  have kept₁ := kept.setCache isLive isVma
  have list : ((state.setCache mm vma).mms mm).mmapList = (state.mms mm).mmapList := by
    rw [MmState.setCache, mms_setMm]
  have was₁ := kept₁.space isLive
  have range := was.ranges vma isVma
  rw [callEnds_ite]
  refine ⟨fun _ => ?_, fun _ => (done _ role kept₁).2 _⟩
  rw [callEnds_bind, callEnds_pgdirOf was₁.pgdir, callEnds_onPhys]
  have covers := covers_of_contains range contains
  have user : rounddown addr PGSIZE < USERTOP := by
    have := range.user.2.2
    have := contains.2
    have : rounddown addr PGSIZE ≤ addr := Nat.sub_le _ _
    omega
  apply faultIn_ends kept₁.paged (kept₁.isDir isLive) user (faultPerm_lt _)
  · intro phys role' step
    refine (done _ role' ?_).imp_left fun returns _ _ _ _ => returns
    have step' : PagedStep (live.image dirOf)
      (OnPage (dirOf mm) (pageNumber (rounddown addr PGSIZE))) (state.setCache mm vma).phys role
      ((state.setCache mm vma).setPhys phys).phys role' := step
    apply kept₁.update isLive step'
    · exact fun dir page near => near.1
    · exact fun other _ _ => rfl
    · rfl
    · apply was₁.later step'.touches (member isLive)
      · rintro page ⟨_, rfl⟩
        exact ⟨vma, by rw [← list] at isVma; exact isVma, covers⟩
      · exact fun other member => member
      · rfl
      · exact was₁.ordered
      · exact was₁.cached
      · exact was₁.ranges
    · exact (kept₁.blocks isLive).congr rfl (kept₁.blocks isLive).live
    · exact fun block member => .inl member
    · exact fun block member => member
  · exact stuck

theorem SpacesKept.link (range : PageRange vma.vmStart vma.vmEnd)
    (fits : VmaFits vma (state.mms mm).mmapList) (unused : vma.block ∉ state.heap) :
    SpacesKept kernel held dirOf live
      ((state.take vma.block).setMm mm ((state.mms mm).link vma)) role := by
  have step : PagedStep (live.image dirOf) Nowhere state.phys role
    ((state.take vma.block).setMm mm ((state.mms mm).link vma)).phys role :=
    PagedStep.refl kept.paged
  have was := kept.space isLive
  have owned := kept.blocks isLive
  have more : ∀ other ∈ (state.mms mm).mmapList, other ∈ ((state.mms mm).link vma).mmapList :=
    fun other member => mem_link.mpr (.inr member)
  have blocks : ((state.mms mm).link vma).blocks.Perm (vma.block :: (state.mms mm).blocks) :=
    (link_perm (state.mms mm) vma).map Vma.block
  apply kept.update isLive step
  · exact fun dir page near => near.elim
  · exact fun other _ distinct => mms_setMm_of_ne distinct _
  · rfl
  · apply was.later step.touches (member isLive)
    · exact fun page near => near.elim
    · rw [mms_setMm]
      exact more
    · rw [mms_setMm]
      rfl
    · rw [mms_setMm]
      exact was.ordered.link range.user.2.1 fits
    · rw [mms_setMm]
      exact fun other isCache => more other (was.cached other isCache)
    rw [mms_setMm]
    intro other member
    cases mem_link.mp member with
    | inl same => rw [same]; exact range
    | inr old => exact was.ranges other old
  · have apart := nodup_cons.mp owned.nodup
    constructor
    · rw [mms_setMm, nodup_cons, blocks.mem_iff, blocks.nodup_iff, mem_cons, not_or, nodup_cons]
      refine ⟨⟨?_, apart.1⟩, ?_, apart.2⟩
      · intro same
        exact unused (same ▸ owned.live mm mem_cons_self)
      · exact fun old => unused (owned.live _ (mem_cons_of_mem mm old))
    rw [mms_setMm]
    intro block member
    apply Finset.mem_insert.mpr
    rw [mem_cons, blocks.mem_iff, mem_cons] at member
    rcases member with same | new | old
    · exact .inr (owned.live block (mem_cons.mpr (.inl same)))
    · exact .inl new
    · exact .inr (owned.live block (mem_cons_of_mem mm old))
  · rw [mms_setMm]
    intro block member
    rw [blocks.mem_iff, mem_cons] at member
    cases member with
    | inl new => rw [new]; exact .inr unused
    | inr old => exact .inl old
  · exact fun block member => Finset.mem_insert_of_mem member

theorem mmMap_kept {len vmFlags : Nat} {post : PUnit → MmState → Prop}
    (done : ∀ next, SpacesKept kernel held dirOf live next role →
      post () next ∧ ∀ code, failed code next) (stuck : ∀ fault, faulty fault) :
    CallEnds (mmMap mm addr len vmFlags) post failed faulty state := by
  have was := kept.space isLive
  apply mmMap_ends rfl rfl was.ordered was.cached
  · exact fun _ => (done state kept).2 _
  · exact fun _ vma isVma _ => (done _ (kept.setCache isLive isVma)).2 _
  · exact fun _ _ _ _ => (done _ (kept.unharmed kept.paged.unharmed_deny)).2 _
  · exact fun _ _ _ _ => stuck _
  · intro access _ block picked fits
    exact (done _ (kept.link isLive (pageRange_rounded access) fits (pick_unused picked))).1
  · exact fun _ _ _ _ => stuck _

end

end UcoreSmp
