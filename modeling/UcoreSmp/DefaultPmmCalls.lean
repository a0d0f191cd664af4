import UcoreSmp.DefaultPmmLayout

/-!
# The calls of the first-fit allocator

What `default_init_memmap`, `default_alloc_pages` and `default_free_pages` do to
a settled layout, one in which every free block is on the list and `nr_free`
counts the free pages.
-/

namespace UcoreSmp

open List

/-- Between two calls: no block is loose and `nr_free` is the number of free
pages. -/
structure Settled (state : PmmState) (managed free : Finset Nat) (heads : List Nat) : Prop where
  layout : Layout state managed free heads []
  counted : state.total heads = state.nrFree

variable {managed free : Finset Nat} {front back heads : List Nat} {base n page : Nat}
  {state next : PmmState}

namespace Layout

variable {loose : List Nat}

theorem length_le (layout : Layout state managed free heads loose) :
    heads.length ≤ managed.card := by
  have nodup : heads.Nodup := List.Nodup.of_map _ (nodup_cons.mp layout.ring.2).2
  rw [← toFinset_card_of_nodup nodup]
  apply Finset.card_le_card
  intro h member
  exact layout.within (layout.head_mem (by simp at member ⊢; tauto))

theorem counting (layout : Layout state managed free heads loose)
    (value : Nat) : Layout (state.setNrFree value) managed free heads loose :=
  ⟨layout.ring, layout.sorted, layout.positive, layout.apart, layout.flagged, layout.covers,
    layout.within, layout.unreserved⟩

theorem loosen (layout : Layout state managed free heads []) (nonempty : 0 < n)
    (allocated : Finset.Ico base (base + n) ⊆ managed \ free) (lenEq : next.len = state.len)
    (flagEq : next.flag = state.flag) (reservedEq : next.reserved = state.reserved)
    (linksEq : next.links = state.links) :
    Layout ((next.setProperty base n).setPageProperty base) managed
      (free ∪ Finset.Ico base (base + n)) heads [base] := by
  have outside : ∀ q, base ≤ q → q < base + n → q ∈ managed ∧ q ∉ free := by
    intro q lower upper
    have := allocated (Finset.mem_Ico.mpr ⟨lower, upper⟩)
    simpa using this
  have notBase : ∀ h ∈ heads, h ≠ base := by
    rintro h member rfl
    exact (outside h (le_refl h) (by omega)).2 (layout.head_mem (by simpa using member))
  constructor
  · have sameLinks : ((next.setProperty base n).setPageProperty base).links = state.links := linksEq
    rw [sameLinks]
    exact layout.ring
  · refine layout.sorted.imp_of_mem ?_
    intro a b aMem _ ordered
    simpa [notBase a aMem, lenEq] using ordered
  · intro h member
    rcases mem_append.mp member with listed | isBase
    · simpa [notBase h listed, lenEq] using layout.positive h (by simpa using listed)
    · rw [mem_singleton] at isBase
      simp [isBase, nonempty]
  · intro h member b isBase
    rw [mem_singleton] at isBase
    subst isBase
    -- an overlap would put a freed page into a free block
    by_contra overlap
    simp [notBase h member, lenEq] at overlap
    have inBlock := (layout.covers (max h b)).mp ⟨h, by simpa using member, le_max_left h b, by
        have := layout.positive h (by simpa using member)
        omega⟩
    exact (outside (max h b) (le_max_right h b) (by omega)).2 inBlock
  · intro q qManaged
    have old := layout.flagged q qManaged
    by_cases isBase : q = base
    · simp [isBase]
    · simpa [isBase, flagEq] using old
  · intro q
    rw [Finset.mem_union, ← layout.covers q, Finset.mem_Ico]
    constructor
    · rintro ⟨h, member, lower, upper⟩
      rcases mem_append.mp member with listed | isBase
      · simp [notBase h listed, lenEq] at upper
        exact .inl ⟨h, by simpa using listed, lower, upper⟩
      rw [mem_singleton] at isBase
      subst isBase
      simp at upper
      exact .inr ⟨lower, upper⟩
    rintro (⟨h, member, lower, upper⟩ | ⟨lower, upper⟩)
    · simp at member
      exact ⟨h, by simp [member], lower, by simpa [notBase h member, lenEq] using upper⟩
    · exact ⟨base, by simp, lower, by simpa using upper⟩
  · apply Finset.union_subset layout.within
    intro q member
    exact (Finset.mem_sdiff.mp (allocated member)).1
  · intro q qManaged
    simpa [reservedEq] using layout.unreserved q qManaged

/-- The head of what remains of a block of `length` pages at `page` after its
first `n` pages are taken. -/
def remainder (page length n : Nat) : List Nat :=
  if n < length then [page + n] else []

theorem mem_remainder {length r : Nat} :
    r ∈ remainder page length n ↔ r = page + n ∧ n < length := by
  unfold remainder
  split <;> simp_all

/-- The block at `page` loses its first `n` pages and its flag. -/
structure Cut (state next : PmmState) (page n : Nat) : Prop where
  len : ∀ q, next.len q =
    if q ∈ remainder page (state.len page) n then state.len page - n else state.len q
  flag : ∀ q, next.flag q = if q = page then false
    else if q ∈ remainder page (state.len page) n then true else state.flag q
  reserved : next.reserved = state.reserved

section

variable (layout : Layout state managed free (front ++ page :: back) [])
  (cut : Cut state next page n) (fits : n ≤ state.len page)

include layout cut

theorem take_len (h : Nat) (member : h ∈ front ++ back) : next.len h = state.len h := by
  have side : h + state.len h ≤ page ∨ page + state.len page ≤ h :=
    (mem_append.mp member).imp layout.before_entry layout.after_entry
  have := layout.positive h (by simp at member ⊢; tauto)
  rw [cut.len h, if_neg]
  rw [mem_remainder]
  omega

include fits

theorem take (nonempty : 0 < n) (ring : next.links.IsRing .freeList
      ((front ++ (remainder page (state.len page) n ++ back)).map .pageLink)) :
    Layout next managed (free \ Finset.Ico page (page + n))
      (front ++ (remainder page (state.len page) n ++ back)) [] := by
  have fresh := layout.entry_fresh
  have sameLen := layout.take_len cut
  have memRest : ∀ r, r ∈ remainder page (state.len page) n ↔
      r = page + n ∧ n < state.len page := fun r => mem_remainder
  have restSorted : ∀ R, (remainder page (state.len page) n).Pairwise R := by
    intro R
    unfold remainder
    split <;> simp
  obtain ⟨lenEq, flagEq, reservedEq⟩ := cut
  generalize remainder page (state.len page) n = rest at *
  have side : ∀ h ∈ front ++ back,
      h + state.len h ≤ page ∨ page + state.len page ≤ h := fun h member =>
    (mem_append.mp member).imp layout.before_entry layout.after_entry
  have listed : ∀ h ∈ front ++ back, h ∈ (front ++ page :: back) ++ [] := by
    intro h member
    simp at member ⊢
    tauto
  have restLen : ∀ r ∈ rest, next.len r = state.len page - n := by
    intro r member
    rw [lenEq r, if_pos member]
  have parts := pairwise_append.mp layout.sorted
  have tailSorted := (pairwise_cons.mp parts.2.1).2
  refine ⟨ring, ?_, ?_, by simp, ?_, ?_, ?_, ?_⟩
  · refine pairwise_append.mpr ⟨?_, pairwise_append.mpr ⟨?_, ?_, ?_⟩, ?_⟩
    · refine parts.1.imp_of_mem ?_
      intro a b aMem _ ordered
      rw [sameLen a (mem_append_left _ aMem)]
      exact ordered
    · exact restSorted _
    · refine tailSorted.imp_of_mem ?_
      intro a b aMem _ ordered
      rw [sameLen a (mem_append_right _ aMem)]
      exact ordered
    · intro r rMem b bMem
      have := layout.after_entry bMem
      have := (memRest r).mp rMem
      rw [restLen r rMem]
      omega
    intro a aMem b bMem
    rw [sameLen a (mem_append_left _ aMem)]
    have := layout.before_entry aMem
    rcases mem_append.mp bMem with inRest | inBack
    · have := (memRest b).mp inRest
      omega
    · have := layout.after_entry inBack
      omega
  · intro h member
    by_cases inRest : h ∈ rest
    · have := (memRest h).mp inRest
      rw [restLen h inRest]
      omega
    have kept : h ∈ front ++ back := by
      simp [inRest] at member ⊢
      exact member
    rw [sameLen h kept]
    exact layout.positive h (listed h kept)
  · intro q qManaged
    have old := layout.flagged q qManaged
    rw [flagEq q]
    by_cases isPage : q = page
    · subst isPage
      have notRest : q ∉ rest := by
        rw [memRest]
        omega
      simp at fresh
      simp [notRest, fresh]
    · by_cases inRest : q ∈ rest
      · simp [isPage, inRest]
      · simpa [isPage, inRest] using old
  · intro q
    rw [Finset.mem_sdiff, ← layout.covers q, Finset.mem_Ico]
    constructor
    · rintro ⟨h, member, lower, upper⟩
      by_cases inRest : h ∈ rest
      · have := (memRest h).mp inRest
        rw [restLen h inRest] at upper
        exact ⟨⟨page, by simp, by omega, by omega⟩, by omega⟩
      have kept : h ∈ front ++ back := by
        simp [inRest] at member ⊢
        exact member
      rw [sameLen h kept] at upper
      have := side h kept
      exact ⟨⟨h, listed h kept, lower, upper⟩, by omega⟩
    rintro ⟨⟨h, member, lower, upper⟩, notTaken⟩
    by_cases isPage : h = page
    · subst isPage
      have inRest : h + n ∈ rest := (memRest (h + n)).mpr ⟨rfl, by omega⟩
      refine ⟨h + n, by simp [inRest], by omega, ?_⟩
      rw [restLen _ inRest]
      omega
    have kept : h ∈ front ++ back := by
      simp [isPage] at member ⊢
      exact member
    refine ⟨h, ?_, lower, ?_⟩
    · simp at kept ⊢
      tauto
    · rw [sameLen h kept]
      exact upper
  · exact fun q member => layout.within (Finset.mem_sdiff.mp member).1
  · intro q qManaged
    rw [reservedEq]
    exact layout.unreserved q qManaged

theorem take_total : next.total (front ++ (remainder page (state.len page) n ++ back)) + n =
    state.total (front ++ page :: back) := by
  have sameLen := layout.take_len cut
  have sameFront := PmmState.total_congr fun h member =>
    sameLen h (mem_append_left back member)
  have sameBack := PmmState.total_congr fun h member =>
    sameLen h (mem_append_right front member)
  by_cases splits : n < state.len page
  · have := cut.len (page + n)
    simp only [remainder, splits, if_true, mem_singleton] at this ⊢
    simp [this]
    omega
  · have whole : n = state.len page := by omega
    simp [remainder, whole]
    omega

end

end Layout

/-- Pages above the managed ones join them as allocated pages. -/
theorem Layout.extend (layout : Layout state managed free heads [])
    (above : ∀ p ∈ managed, p < base)
    (lenEq : ∀ q, next.len q = if base ≤ q ∧ q < base + n then 0 else state.len q)
    (flagEq : ∀ q, next.flag q = if base ≤ q ∧ q < base + n then false else state.flag q)
    (reservedEq : ∀ q, next.reserved q =
      if base ≤ q ∧ q < base + n then false else state.reserved q)
    (linksEq : next.links = state.links) :
    Layout next (managed ∪ Finset.Ico base (base + n)) free heads [] := by
  have old : ∀ q ∈ managed, ¬(base ≤ q ∧ q < base + n) := by
    intro q member
    have := above q member
    omega
  have listed : ∀ h ∈ heads ++ [], h ∈ managed := fun h member =>
    layout.within (layout.head_mem member)
  have sameLen : ∀ h ∈ heads ++ [], next.len h = state.len h := by
    intro h member
    rw [lenEq h, if_neg (old h (listed h member))]
  refine ⟨?_, ?_, ?_, by simp, ?_, ?_, ?_, ?_⟩
  · rw [linksEq]
    exact layout.ring
  · refine layout.sorted.imp_of_mem ?_
    intro a b aMem _ ordered
    rw [sameLen a (by simpa using aMem)]
    exact ordered
  · intro h member
    rw [sameLen h member]
    exact layout.positive h member
  · intro q qManaged
    rw [flagEq q]
    split
    · next fresh => exact iff_of_false (by simp) fun member => old q (listed q member) fresh
    · next kept =>
      exact layout.flagged q (by simpa [kept] using qManaged)
  · intro q
    rw [← layout.covers q]
    refine exists_congr fun h => and_congr_right fun member => ?_
    rw [sameLen h member]
  · exact layout.within.trans Finset.subset_union_left
  intro q qManaged
  rw [reservedEq q]
  split
  · rfl
  · next kept => exact layout.unreserved q (by simpa [kept] using qManaged)

/-- `default_init_memmap` on a reserved range above all managed pages. -/
theorem defaultInitMemmap_ends (settled : Settled state managed free heads)
    (nonempty : 0 < n) (above : ∀ p ∈ managed, p < base)
    (allReserved : ∀ q, base ≤ q → q < base + n → state.reserved q = true) :
    Ends (defaultInitMemmap base n) (fun _ next =>
        (∀ q, next.reserved q = if base ≤ q ∧ q < base + n then false else state.reserved q) ∧
        ∃ heads', Settled next (managed ∪ Finset.Ico base (base + n))
          (free ∪ Finset.Ico base (base + n)) heads')
      (fun _ => False) state := by
  simp only [defaultInitMemmap, ends_bind, ends_check, ends_modify]
  refine ⟨fun _ => ?_, fun empty => empty nonempty⟩
  refine (initPages_ends n allReserved).weaken ?_
  rintro _ cleaned ⟨lenEq, flagEq, reservedEq, linksEq, nrFreeEq⟩
  have extended := settled.layout.extend above lenEq flagEq reservedEq linksEq
  have allocated : Finset.Ico base (base + n) ⊆ (managed ∪ Finset.Ico base (base + n)) \ free := by
    intro q member
    refine Finset.mem_sdiff.mpr ⟨Finset.mem_union_right _ member, fun inFree => ?_⟩
    have := above q (settled.layout.within inFree)
    simp at member
    omega
  have loosened := extended.loosen nonempty allocated rfl rfl rfl rfl
  have below : ∀ h ∈ heads, h < base := fun h member =>
    above h (settled.layout.within (settled.layout.head_mem (by simpa using member)))
  have last := loosened
  rw [← append_nil heads] at last
  have placed : ∀ h ∈ heads,
      h + ((cleaned.setProperty base n).setPageProperty base).len h ≤ base := by
    intro h member
    refine (loosened.apart h member base (by simp)).resolve_right fun behind => ?_
    have := below h member
    omega
  have inserted := (last.counting (cleaned.nrFree + n)).insert placed (by simp)
  refine ⟨?_, heads ++ [base], inserted, ?_⟩
  · intro q
    simp [reservedEq]
  have oldTotal := settled.counted
  change ((cleaned.setProperty base n).setPageProperty base).total
    (heads ++ [base]) = cleaned.nrFree + n
  have keptTotal : ((cleaned.setProperty base n).setPageProperty base).total heads =
      state.total heads := by
    apply PmmState.total_congr
    intro h member
    have inFront := below h member
    simp [lenEq, inFront.ne, inFront.not_ge]
  simp [keptTotal]
  omega

/-- The search loop stops at the first block from its position on that is
large enough. -/
theorem findFit_ends (back : List Nat) : ∀ {front : List Nat} {budget : Nat},
      Layout state managed free (front ++ back) [] →
      back.length < budget →
      Ends (findFit n budget ((front.map .pageLink).getLastD .freeList))
        (fun found next => next = state ∧
          match found with
          | none => ∀ h ∈ back, state.len h < n
          | some page => ∃ passed rest, back = passed ++ page :: rest ∧
              n ≤ state.len page ∧ ∀ h ∈ passed, state.len h < n)
        (fun _ => False) state := by
  induction back with
  | nil =>
    intro front budget layout enough
    obtain ⟨budget, rfl⟩ := Nat.exists_eq_add_one.mpr (Nat.zero_lt_of_lt enough)
    have ring := layout.ring
    rw [map_append] at ring
    have nextEq : listNext state.links ((front.map .pageLink).getLastD .freeList) = .freeList :=
      ring.joined_between.1
    simp only [findFit, ends_bind, ends_get, nextEq, ends_pure]
    simp
  | cons p back ih =>
    intro front budget layout enough
    obtain ⟨budget, rfl⟩ := Nat.exists_eq_add_one.mpr (Nat.zero_lt_of_lt enough)
    have ring := layout.ring
    rw [map_append] at ring
    have nextEq : listNext state.links ((front.map .pageLink).getLastD .freeList) = .pageLink p :=
      ring.joined_between.1
    simp only [findFit, ends_bind, ends_get, nextEq, ends_ite, ends_pure]
    refine ⟨fun fits => ?_, fun small => ?_⟩
    · exact ⟨trivial, [], back, rfl, fits, by simp⟩
    have regrouped : front ++ p :: back = (front ++ [p]) ++ back := by simp
    rw [regrouped] at layout
    have position : FreeEntry.pageLink p =
        ((front ++ [p]).map FreeEntry.pageLink).getLastD .freeList := by simp
    rw [position]
    refine (ih layout (by simpa using enough)).weaken ?_
    rintro found next ⟨sameState, outcome⟩
    refine ⟨sameState, ?_⟩
    have small : state.len p < n := Nat.lt_of_not_le small
    cases found with
    | none =>
      intro h member
      rcases mem_cons.mp member with rfl | inBack
      · exact small
      · exact outcome h inBack
    | some page =>
      obtain ⟨passed, rest, split, fits, passedSmall⟩ := outcome
      refine ⟨p :: passed, rest, by simp [split], fits, ?_⟩
      intro h member
      rcases mem_cons.mp member with rfl | inPassed
      · exact small
      · exact passedSmall h inPassed

/-- A block loses its first `n` pages, on the list and in the count. -/
theorem Settled.take (settled : Settled state managed free (front ++ page :: back))
    (nonempty : 0 < n) (fits : n ≤ state.len page) (cut : Layout.Cut state next page n)
    (ring : next.links.IsRing .freeList
      ((front ++ (Layout.remainder page (state.len page) n ++ back)).map .pageLink))
    (nrFreeEq : next.nrFree = state.nrFree - n) :
    ∃ heads, Settled next managed (free \ Finset.Ico page (page + n)) heads ∧
      next.reserved = state.reserved := by
  refine ⟨_, ⟨settled.layout.take cut fits nonempty ring, ?_⟩, cut.reserved⟩
  have total := settled.layout.take_total cut fits
  rw [settled.counted] at total
  omega

theorem takePages_ends (settled : Settled state managed free (front ++ page :: back))
    (nonempty : 0 < n) (fits : n ≤ state.len page) :
    Ends (takePages page n) (fun _ next => ∃ heads,
        Settled next managed (free \ Finset.Ico page (page + n)) heads ∧
        next.reserved = state.reserved)
      (fun _ => False) state := by
  have layout := settled.layout
  have ring := layout.ring
  rw [map_append, map_cons] at ring
  simp only [takePages, ends_bind, ends_get, ends_ite, ends_modify]
  refine ⟨fun splits => ?_, fun whole => ?_⟩
  · have splits : n < state.len page := splits
    have restEq : Layout.remainder page (state.len page) n = [page + n] := if_pos splits
    have freshRest : page + n ∉ front ++ page :: back := by
      intro member
      rcases mem_append.mp member with inFront | inTail
      · have := layout.before_entry inFront
        omega
      rcases mem_cons.mp inTail with isPage | inBack
      · omega
      · have := layout.after_entry inBack
        omega
    refine settled.take nonempty fits ⟨?_, ?_, ?_⟩ ?_ rfl
    · intro q
      simp [restEq]
      rfl
    · intro q
      simp [restEq]
    · funext q
      simp
    have added := isRing_listAddAfter ring
      (by simpa using freshRest : FreeEntry.pageLink (page + n) ∉ _)
    have deleted := isRing_listDel added
    rw [restEq]
    simp only [map_append, map_cons, map_nil]
    exact deleted
  have restEq : Layout.remainder page (state.len page) n = [] := if_neg whole
  refine settled.take nonempty fits ⟨?_, ?_, ?_⟩ ?_ rfl
  · intro q
    simp [restEq]
  · intro q
    simp [restEq]
  · funext q
    simp
  have deleted := isRing_listDel ring
  rw [restEq]
  simp only [map_append, map_nil]
  exact deleted

/-- `default_alloc_pages` allocates the first pages of the first block that is
large enough, or nothing at all. -/
theorem defaultAllocPages_ends {budget : Nat} (settled : Settled state managed free heads)
    (nonempty : 0 < n) (enough : managed.card < budget) :
    Ends (defaultAllocPages budget n) (fun found next => next.reserved = state.reserved ∧
        match found with
        | none => next = state ∧ (state.nrFree < n ∨ ∀ h ∈ heads, state.len h < n)
        | some page => Finset.Ico page (page + n) ⊆ free ∧ ∃ heads',
            Settled next managed (free \ Finset.Ico page (page + n)) heads')
      (fun _ => False) state := by
  simp only [defaultAllocPages, ends_bind, ends_check, ends_get, ends_ite, ends_pure]
  refine ⟨fun _ => ⟨fun few => ⟨trivial, trivial, .inl few⟩, fun _ => ?_⟩,
    fun empty => empty nonempty⟩
  have start : Layout state managed free ([] ++ heads) [] := settled.layout
  refine (findFit_ends heads start (settled.layout.length_le.trans_lt enough)).weaken ?_
  rintro found next ⟨rfl, outcome⟩
  cases found with
  | none => exact ⟨rfl, rfl, .inr outcome⟩
  | some page =>
    obtain ⟨passed, rest, rfl, fits, -⟩ := outcome
    simp only [ends_bind, ends_pure]
    refine (takePages_ends settled nonempty fits).weaken ?_
    rintro _ final ⟨heads', settled', reservedEq⟩
    refine ⟨reservedEq, ?_, heads', settled'⟩
    intro q member
    rw [Finset.mem_Ico] at member
    exact (settled.layout.covers q).mp ⟨page, by simp, member.1, by omega⟩

/-- `default_free_pages` returns allocated pages to the free blocks. -/
theorem defaultFreePages_ends {budget : Nat} (settled : Settled state managed free heads)
    (nonempty : 0 < n) (allocated : Finset.Ico base (base + n) ⊆ managed \ free)
    (enough : managed.card < budget) :
    Ends (defaultFreePages budget base n) (fun _ next => next.reserved = state.reserved ∧ ∃ heads',
        Settled next managed (free ∪ Finset.Ico base (base + n)) heads')
      (fun _ => False) state := by
  simp only [defaultFreePages, ends_bind, ends_check, ends_get, ends_modify]
  refine ⟨fun _ => ?_, fun empty => empty nonempty⟩
  have outside : ∀ q, base ≤ q → q < base + n →
      state.reserved q = false ∧ state.flag q = false := by
    intro q lower upper
    have member := Finset.mem_sdiff.mp (allocated (Finset.mem_Ico.mpr ⟨lower, upper⟩))
    refine ⟨settled.layout.unreserved q member.1, ?_⟩
    rw [Bool.eq_false_iff]
    intro flagged
    exact member.2 (settled.layout.head_mem ((settled.layout.flagged q member.1).mp flagged))
  refine (clearPages_ends n outside).weaken ?_
  rintro _ cleaned ⟨lenEq, flagEq, reservedEq, linksEq, nrFreeEq⟩
  have loosened := settled.layout.loosen nonempty allocated lenEq flagEq reservedEq linksEq
  have start : Layout ((cleaned.setProperty base n).setPageProperty base) managed
      (free ∪ Finset.Ico base (base + n)) ([] ++ heads) [base] := loosened
  have firstEq : listNext ((cleaned.setProperty base n).setPageProperty base).links
      .freeList = (heads.map .pageLink).headD .freeList :=
    loosened.ring.next_header
  rw [firstEq]
  refine (mergeBlocks_ends heads start (by simp) (loosened.length_le.trans_lt enough)).weaken ?_
  rintro last merged ⟨heads', merging⟩
  -- counting the freed pages does not disturb the layout
  have counting : Layout _ managed _ ([] ++ heads') [last] :=
    merging.layout.counting (merged.nrFree + n)
  have placeEq : listNext (merged.setNrFree (merged.nrFree + n)).links .freeList =
      (heads'.map .pageLink).headD .freeList := merging.layout.ring.next_header
  rw [placeEq]
  refine (findPlace_ends heads' counting merging.cleared (by simp)
    (merging.layout.length_le.trans_lt enough)).weaken ?_
  rintro le final ⟨rfl, below, above, split, rfl, belowEnds, aboveStarts⟩
  rw [split] at counting
  rw [nil_append] at split
  refine ⟨?_, below ++ last :: above, counting.insert belowEnds aboveStarts, ?_⟩
  · have sameReserved : merged.reserved = cleaned.reserved := by
      rw [merging.reserved]
      funext q
      simp
    exact sameReserved.trans reservedEq
  have total := merging.total
  have oldTotal : ((cleaned.setProperty base n).setPageProperty base).total heads =
      state.total heads := by
    apply PmmState.total_congr
    intro h member
    have notBase : h ≠ base := loosened.listed_ne_loose member (by simp)
    simp [notBase, lenEq]
  have counted := settled.counted
  have nrFree : merged.nrFree = state.nrFree := merging.nrFree.trans nrFreeEq
  change merged.total (below ++ last :: above) = merged.nrFree + n
  rw [split] at total
  simp [oldTotal] at total ⊢
  omega

end UcoreSmp
