import UcoreSmp.PlusUnmap

/-!
# What `mm_unmap` promises

After a successful `mm_unmap` the range should be free of areas and pages, and
every address outside should be mapped as before.  That is so exactly when the
search of `find_vma` sees the areas of the range, no page of the range lies
outside all areas, and no shared area is split.
-/

namespace UcoreSmp

namespace Plus

open List

/-- How an area maps one of its addresses: flags, file position, and place in the
shared memory object. -/
def Vma.mapping (vma : Vma) (addr : Nat) :
    BitVec 32 × Option (Nat × Int) × Option (Option Nat × Nat) :=
  (vma.vmFlags, vma.file.map fun file => (file, vma.offset + (addr - vma.vmStart)),
    if vma.Shared then some (vma.shmem, vma.shmemOff + (addr - vma.vmStart)) else none)

/-- The areas of a list map an address in some way. -/
def Maps (list : List Vma) (addr : Nat)
    (mapping : BitVec 32 × Option (Nat × Int) × Option (Option Nat × Nat)) : Prop :=
  ∃ vma ∈ list, vma.Contains addr ∧ vma.mapping addr = mapping

/-- The range is free, and everything outside it is mapped as before. -/
structure Removed (start stop : Nat) (core next : Core) : Prop where
  areas : ∀ vma ∈ next.list, vma.vmEnd ≤ start ∨ stop ≤ vma.vmStart
  pages : ∀ page, start ≤ page * PGSIZE → page * PGSIZE < stop → next.pte page = none
  outside : ∀ addr, addr < start ∨ stop ≤ addr → ∀ mapping,
    Maps next.list addr mapping ↔ Maps core.list addr mapping

/-- The search sees the areas of the range, its pages belong to areas, and no
shared area is split. -/
structure Removable (start stop : Nat) (core : Core) : Prop where
  seen : (∃ vma ∈ core.list, vma.Contains start) ∨
    ∀ vma ∈ core.list, vma.vmEnd ≤ start ∨ stop ≤ vma.vmStart
  owned : ∀ page, start ≤ page * PGSIZE → page * PGSIZE < stop → core.pte page ≠ none →
    ∃ vma ∈ core.list, vma.Contains (page * PGSIZE)
  unsplit : ∀ vma ∈ core.list, vma.vmStart < start → stop < vma.vmEnd → vma.Shared →
    vma.shmem = none ∧ vma.shmemOff = 0

section Maps

variable {start stop addr : Nat} {vma piece : Vma}
  {mapping : BitVec 32 × Option (Nat × Int) × Option (Option Nat × Nat)}

theorem mapping_resized (low : vma.vmStart ≤ start) (here : start ≤ addr) :
    (vma.resized start stop).mapping addr = vma.mapping addr := by
  have place : ((vma.resized start stop).file.map fun file => (file,
      (vma.resized start stop).offset + (addr - (vma.resized start stop).vmStart))) =
      vma.file.map fun file => (file, vma.offset + (addr - vma.vmStart)) := by
    cases backing : vma.file with
    | none => simp [Vma.resized, backing]
    | some file =>
      simp only [Vma.resized, backing, ne_eq, reduceCtorEq, not_false_eq_true, if_true,
        Option.map_some, Option.some.injEq, Prod.mk.injEq, true_and]
      omega
  unfold Vma.mapping
  rw [place]
  by_cases shared : vma.Shared
  · have shared' : (vma.resized start stop).Shared := shared
    have off : vma.shmemOff + (start - vma.vmStart) + (addr - start) =
        vma.shmemOff + (addr - vma.vmStart) := by omega
    rw [if_pos shared, if_pos shared']
    simp only [Vma.resized, if_pos shared, off]
  · have shared' : ¬ (vma.resized start stop).Shared := shared
    rw [if_neg shared, if_neg shared']
    rfl

/-- The pieces of an area map the addresses outside the range as the area did. -/
theorem cut_maps (outside : addr < start ∨ stop ≤ addr)
    (unsplit : addr < start → vma.vmStart < start → stop < vma.vmEnd → vma.Shared →
      vma.shmem = none ∧ vma.shmemOff = 0) :
    Maps (cut start stop vma) addr mapping ↔ vma.Contains addr ∧ vma.mapping addr = mapping := by
  unfold cut Maps
  split_ifs with apart inner front back
  · simp
  · have same (before : addr < start) : ({ vma with
        vmEnd := start, shmem := none, shmemOff := 0 } : Vma).mapping addr = vma.mapping addr := by
      show (vma.vmFlags, _, if vma.Shared then some (none, 0 + (addr - vma.vmStart)) else none) =
        (vma.vmFlags, _, if vma.Shared then some (vma.shmem, vma.shmemOff + (addr - vma.vmStart))
          else none)
      by_cases shared : vma.Shared
      · obtain ⟨noObject, noOffset⟩ := unsplit before inner.1 inner.2 shared
        rw [noObject, noOffset]
      · rw [if_neg shared, if_neg shared]
    have later : vma.vmStart ≤ stop := by omega
    have earlier : start ≤ vma.vmEnd := by omega
    simp only [mem_cons, not_mem_nil, or_false, or_and_right, exists_or, exists_eq_left]
    constructor
    · rintro (⟨⟨low, high⟩, is⟩ | ⟨⟨low, high⟩, is⟩)
      · rw [same high] at is
        exact ⟨⟨low, high.trans_le earlier⟩, is⟩
      · rw [mapping_resized later (show stop ≤ addr from low)] at is
        exact ⟨⟨later.trans low, high⟩, is⟩
    rintro ⟨⟨low, high⟩, is⟩
    rcases outside with before | behind
    · exact .inl ⟨⟨low, before⟩, (same before).trans is⟩
    · exact .inr ⟨⟨behind, high⟩, (mapping_resized later behind).trans is⟩
  · simp only [mem_singleton, exists_eq_left]
    have earlier : start ≤ vma.vmEnd := by omega
    constructor
    · rintro ⟨⟨low, high⟩, is⟩
      rw [mapping_resized le_rfl (show vma.vmStart ≤ addr from low)] at is
      exact ⟨⟨low, high.trans_le earlier⟩, is⟩
    rintro ⟨⟨low, high⟩, is⟩
    have before : addr < start := by omega
    exact ⟨⟨low, before⟩, (mapping_resized le_rfl low).trans is⟩
  · simp only [mem_singleton, exists_eq_left]
    have later : vma.vmStart ≤ stop := by omega
    constructor
    · rintro ⟨⟨low, high⟩, is⟩
      rw [mapping_resized later (show stop ≤ addr from low)] at is
      exact ⟨⟨later.trans low, high⟩, is⟩
    rintro ⟨⟨low, high⟩, is⟩
    have behind : stop ≤ addr := by omega
    exact ⟨⟨behind, high⟩, (mapping_resized later behind).trans is⟩
  · simp only [not_mem_nil, false_and, exists_false, false_iff, not_and]
    rintro ⟨low, high⟩
    omega

/-- A list of areas cut by a range maps the addresses outside as before. -/
theorem flatMap_cut_maps {list : List Vma} (outside : addr < start ∨ stop ≤ addr)
    (unsplit : ∀ vma ∈ list, addr < start → vma.vmStart < start → stop < vma.vmEnd →
      vma.Shared → vma.shmem = none ∧ vma.shmemOff = 0) :
    Maps (list.flatMap (cut start stop)) addr mapping ↔ Maps list addr mapping := by
  constructor
  · rintro ⟨piece, member, here⟩
    obtain ⟨vma, inList, isPiece⟩ := mem_flatMap.mp member
    exact ⟨vma, inList, (cut_maps outside (unsplit vma inList)).mp ⟨piece, isPiece, here⟩⟩
  rintro ⟨vma, inList, here⟩
  obtain ⟨piece, isPiece, there⟩ := (cut_maps outside (unsplit vma inList)).mpr here
  exact ⟨piece, mem_flatMap.mpr ⟨vma, inList, isPiece⟩, there⟩

end Maps

section Unmap

variable {start stop : Nat} {core next : Core}

section

variable (shape : Shape core.list) (cuts : Cut false start stop core next)
  (alignedStart : start % PGSIZE = 0) (alignedStop : stop % PGSIZE = 0)

include shape cuts alignedStart alignedStop

/-- A split shared area is not mapped as before at its first address. -/
theorem Removed.unsplit (removed : Removed start stop core next) {vma : Vma}
    (member : vma ∈ core.list) (low : vma.vmStart < start) (high : stop < vma.vmEnd)
    (range : start < stop) (shared : vma.Shared) : vma.shmem = none ∧ vma.shmemOff = 0 := by
  have first : vma.Contains vma.vmStart := ⟨le_rfl, (shape.formed vma member).nonempty⟩
  obtain ⟨piece, inNext, here, same⟩ :=
    (removed.outside vma.vmStart (.inl low) _).mpr ⟨vma, member, first, rfl⟩
  rw [cuts.list] at inNext
  obtain ⟨source, inList, isPiece⟩ := mem_flatMap.mp inNext
  have within := cut_inside alignedStart alignedStop (shape.formed source inList) isPiece
  have isVma : source = vma := shape.unique inList member
    ⟨within.low.trans here.1, here.2.trans_le within.high⟩ first
  subst isVma
  rw [cut, if_neg (by omega), if_pos ⟨low, high⟩] at isPiece
  rcases mem_cons.mp isPiece with rfl | isLast
  · have objects : (if source.Shared then some (none, 0 + (source.vmStart - source.vmStart))
        else none) = if source.Shared then
          some (source.shmem, source.shmemOff + (source.vmStart - source.vmStart)) else none :=
      congrArg (fun mapping => mapping.2.2) same
    rw [if_pos shared, if_pos shared] at objects
    simp only [Option.some.injEq, Prod.mk.injEq] at objects
    exact ⟨objects.1.symm, by omega⟩
  · rw [mem_singleton.mp isLast] at here
    have : stop ≤ source.vmStart := here.1
    omega

theorem removed_iff_of_cut (range : start < stop) (found : ∃ vma ∈ core.list, vma.Contains start) :
    Removed start stop core next ↔ Removable start stop core := by
  constructor
  · intro removed
    refine ⟨.inl found, ?_, fun vma member low high =>
      removed.unsplit shape cuts alignedStart alignedStop member low high range⟩
    intro page above below present
    have gone := removed.pages page above below
    rw [cuts.pte] at gone
    by_contra unowned
    rw [if_neg fun inside => unowned inside.2.2.2] at gone
    exact present gone
  intro removable
  refine ⟨?_, ?_, ?_⟩
  · intro piece member
    rw [cuts.list] at member
    obtain ⟨vma, -, isPiece⟩ := mem_flatMap.mp member
    exact cut_outside isPiece
  · intro page above below
    rw [cuts.pte]
    by_cases present : core.pte page = none
    · rw [present, ite_self]
    · rw [if_pos ⟨rfl, above, below, removable.owned page above below present⟩]
  · intro addr outside mapping
    rw [cuts.list]
    exact flatMap_cut_maps outside fun vma member _ => removable.unsplit vma member

end

/-- When the first address is in no area, the call does nothing. -/
theorem removed_iff_of_missed (range : start < stop)
    (missed : ∀ vma ∈ core.list, ¬ vma.Contains start) :
    Removed start stop core core ↔ Removable start stop core := by
  constructor
  · intro removed
    refine ⟨.inr removed.areas, ?_, ?_⟩
    · exact fun page above below present => absurd (removed.pages page above below) present
    · exact fun vma member low high => absurd ⟨low.le, range.trans high⟩ (missed vma member)
  rintro ⟨seen, owned, -⟩
  have apart := seen.resolve_left fun ⟨vma, member, here⟩ => missed vma member here
  refine ⟨apart, ?_, fun _ _ _ => Iff.rfl⟩
  intro page above below
  by_contra present
  obtain ⟨vma, member, low, high⟩ := owned page above below present
  have := apart vma member
  omega

end Unmap

/-- A successful `mm_unmap` of a range of pages frees the range and leaves the rest
alone exactly when the range is removable. -/
theorem mm_unmap_removes_iff {space next : Space} {start stop : Nat} (sound : space.core.Sound)
    (access : UserAccess start stop) (alignedStart : start % PGSIZE = 0)
    (alignedStop : stop % PGSIZE = 0)
    (returns : mmUnmap start (stop - start) space = .ok (0, next)) :
    Removed start stop space.core next.core ↔ Removable start stop space.core := by
  have atStart := roundDown_of_aligned alignedStart
  have atStop : roundUp (word (start + (stop - start))) = stop := by
    rw [Nat.add_sub_cancel' access.2.1.le]
    exact roundUp_of_aligned alignedStop (access.2.2.trans_lt (by decide))
  have outcome : Ends (mmUnmap start (stop - start)) (fun result next => result = 0 →
      (Removed start stop space.core next.core ↔ Removable start stop space.core))
      (fun _ => True) space := by
    apply unmapAreas_ends unmapRange_clears sound (fun silent => absurd trivial silent) trivial
    · exact fun _ _ _ failed _ _ zero => absurd zero failed
    · intro _ missed _
      rw [atStart] at missed
      exact removed_iff_of_missed access.2.1 missed
    intro _ found next cuts _
    rw [atStart] at found
    rw [atStart, atStop] at cuts
    exact removed_iff_of_cut sound.shape cuts alignedStart alignedStop access.2.1 found
  unfold Ends at outcome
  rw [returns] at outcome
  exact outcome rfl

theorem mm_unmap_removes_middle_page : (oneArea 0x1000 0x4000).core.Sound ∧
      ∃ next, mmUnmap 0x2000 (0x3000 - 0x2000) (oneArea 0x1000 0x4000) = .ok (0, next) ∧
        Removed 0x2000 0x3000 (oneArea 0x1000 0x4000).core next.core := by
  have sound : (oneArea 0x1000 0x4000).core.Sound := oneArea_sound (by decide) (by decide)
    (by decide)
  refine ⟨sound, _, rfl, (mm_unmap_removes_iff sound (by decide) (by decide) (by decide) rfl).mpr
    ?_⟩
  refine ⟨.inl ⟨_, mem_singleton.mpr rfl, by decide⟩, ?_, ?_⟩
  · exact fun page _ _ present => absurd rfl present
  intro vma member _ _ shared
  rw [mem_singleton.mp member] at shared
  exact absurd shared (by decide)

/-- The search does not see an area behind the first address of the range, and the
call returns 0 without removing it. -/
theorem mm_unmap_overlooks_area : (oneArea 0x3000 0x4000).core.Sound ∧
      ∃ next, mmUnmap 0x1000 (0x5000 - 0x1000) (oneArea 0x3000 0x4000) = .ok (0, next) ∧
        ¬ Removed 0x1000 0x5000 (oneArea 0x3000 0x4000).core next.core := by
  refine ⟨oneArea_sound (by decide) (by decide) (by decide), _, rfl, ?_⟩
  intro removed
  have := removed.areas _ (mem_singleton.mpr rfl)
  revert this
  decide

end Plus

end UcoreSmp
