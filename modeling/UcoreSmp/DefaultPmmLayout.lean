import Mathlib
import UcoreSmp.DefaultPmm

/-!
# The layout of the free blocks

`Layout` relates an allocator state to the set of free pages: the heads on the
free list, in order, together with the loose head that a running call has taken
off the list, describe disjoint blocks that cover exactly the free pages.  Each
loop of the allocator is shown to keep such a layout.
-/

namespace UcoreSmp

open PmmState List

namespace PmmState

def len (state : PmmState) (p : Nat) : Nat := (state.pages p).property

def flag (state : PmmState) (p : Nat) : Bool := (state.pages p).pageProperty

def reserved (state : PmmState) (p : Nat) : Bool :=
  (state.pages p).pageReserved

section Views

variable (state : PmmState) (p q value : Nat)

section

variable {α : Type} {state : PmmState} {p q : Nat} {page : Page} (view : Page → α)

theorem setPage_view : view ((state.setPage p page).pages q) =
    if q = p then view page else view (state.pages q) :=
  (congrArg view (Function.update_apply ..)).trans (apply_ite view ..)

theorem setPage_same (same : view page = view (state.pages p)) :
    view ((state.setPage p page).pages q) = view (state.pages q) := by
  rw [setPage_view view]
  split
  · next isPage => rw [same, isPage]
  · rfl

end

@[simp]
theorem setProperty_len : (state.setProperty p value).len q =
    if q = p then value else state.len q :=
  setPage_view Page.property

@[simp]
theorem setProperty_flag : (state.setProperty p value).flag q = state.flag q :=
  setPage_same Page.pageProperty rfl

@[simp]
theorem setProperty_reserved : (state.setProperty p value).reserved q = state.reserved q :=
  setPage_same Page.pageReserved rfl

@[simp]
theorem setPageProperty_len : (state.setPageProperty p).len q = state.len q :=
  setPage_same Page.property rfl

@[simp]
theorem setPageProperty_flag : (state.setPageProperty p).flag q =
    if q = p then true else state.flag q := by
  rw [flag, setPageProperty, setPage_view Page.pageProperty, Page.setPageProperty_pageProperty,
    flag]

@[simp]
theorem setPageProperty_reserved : (state.setPageProperty p).reserved q = state.reserved q :=
  setPage_same Page.pageReserved (Page.setPageProperty_pageReserved _)

@[simp]
theorem clearPageProperty_len : (state.clearPageProperty p).len q = state.len q :=
  setPage_same Page.property rfl

@[simp]
theorem clearPageProperty_flag : (state.clearPageProperty p).flag q =
    if q = p then false else state.flag q := by
  rw [flag, clearPageProperty, setPage_view Page.pageProperty,
    Page.clearPageProperty_pageProperty, flag]

@[simp]
theorem clearPageProperty_reserved : (state.clearPageProperty p).reserved q = state.reserved q :=
  setPage_same Page.pageReserved (Page.clearPageProperty_pageReserved _)

@[simp]
theorem setLinks_len (links : Links FreeEntry) : (state.setLinks links).len q = state.len q :=
  rfl

@[simp]
theorem setLinks_flag (links : Links FreeEntry) : (state.setLinks links).flag q = state.flag q :=
  rfl

@[simp]
theorem setLinks_reserved (links : Links FreeEntry) :
    (state.setLinks links).reserved q = state.reserved q :=
  rfl

@[simp]
theorem setNrFree_len : (state.setNrFree value).len q = state.len q :=
  rfl

@[simp]
theorem setNrFree_flag : (state.setNrFree value).flag q = state.flag q :=
  rfl

@[simp]
theorem setNrFree_reserved : (state.setNrFree value).reserved q = state.reserved q :=
  rfl

end Views

end PmmState

/-- The free pages lie in disjoint blocks.  The blocks headed by `heads` are on
the free list in this order; those headed by `loose` are off the list but keep
their flag and length. -/
structure Layout (state : PmmState) (managed free : Finset Nat)
    (heads loose : List Nat) : Prop where
  ring : state.links.IsRing .freeList (heads.map .pageLink)
  sorted : heads.Pairwise fun a b => a + state.len a ≤ b
  positive : ∀ h ∈ heads ++ loose, 0 < state.len h
  apart : ∀ h ∈ heads, ∀ b ∈ loose, h + state.len h ≤ b ∨ b + state.len b ≤ h
  flagged : ∀ p ∈ managed, state.flag p = true ↔ p ∈ heads ++ loose
  covers : ∀ p, (∃ h ∈ heads ++ loose, h ≤ p ∧ p < h + state.len h) ↔ p ∈ free
  within : free ⊆ managed
  unreserved : ∀ p ∈ managed, state.reserved p = false

def PmmState.total (state : PmmState) (heads : List Nat) : Nat :=
  (heads.map state.len).sum

@[simp]
theorem PmmState.total_nil (state : PmmState) : state.total [] = 0 :=
  rfl

@[simp]
theorem PmmState.total_cons (state : PmmState) (h : Nat) (heads : List Nat) :
    state.total (h :: heads) = state.len h + state.total heads := by
  simp [total]

@[simp]
theorem PmmState.total_append (state : PmmState) (front back : List Nat) :
    state.total (front ++ back) = state.total front + state.total back := by
  simp [total]

theorem PmmState.total_congr {state next : PmmState} {heads : List Nat}
    (sameLen : ∀ h ∈ heads, next.len h = state.len h) : next.total heads = state.total heads :=
  congrArg List.sum (map_congr_left sameLen)

variable {managed free : Finset Nat}

namespace Layout

variable {state : PmmState} {front back heads loose : List Nat} {base p : Nat}

theorem head_mem (layout : Layout state managed free heads loose)
    (member : p ∈ heads ++ loose) : p ∈ free := by
  have := layout.positive p member
  exact (layout.covers p).mp ⟨p, member, le_refl p, by omega⟩

variable {h : Nat}

theorem before_entry (layout : Layout state managed free (front ++ p :: back) loose)
    (member : h ∈ front) : h + state.len h ≤ p :=
  (pairwise_append.mp layout.sorted).2.2 h member p (by simp)

theorem after_entry (layout : Layout state managed free (front ++ p :: back) loose)
    (member : h ∈ back) : p + state.len p ≤ h := by
  have tail := (pairwise_append.mp layout.sorted).2.1
  exact (pairwise_cons.mp tail).1 h member

theorem listed_ne_loose (layout : Layout state managed free heads loose)
    {b : Nat} (listed : h ∈ heads) (isLoose : b ∈ loose) : h ≠ b := by
  rintro rfl
  have := layout.apart h listed h isLoose
  have := layout.positive h (by simp [listed])
  omega

theorem entry_fresh (layout : Layout state managed free (front ++ p :: back) loose) :
    p ∉ front ++ back := by
  have positive := layout.positive p (by simp)
  intro member
  rcases mem_append.mp member with inFront | inBack
  · have := layout.before_entry inFront
    omega
  · have := layout.after_entry inBack
    omega

section

variable {low high : Nat} (layout : Layout state managed free (front ++ p :: back) [base])
  (pair : low = base ∧ high = p ∨ low = p ∧ high = base)

include layout pair

theorem merge_kept (member : h ∈ front ++ back) : h ≠ low := by
  rintro rfl
  rcases pair with ⟨rfl, -⟩ | ⟨rfl, -⟩
  · exact layout.listed_ne_loose (by simp at member ⊢; tauto) (by simp) rfl
  · exact layout.entry_fresh member

/-- A listed block and the loose block are merged into the lower of the two,
which becomes the loose block. -/
theorem merge (adjacent : low + state.len low = high) :
    Layout (((state.setProperty low (state.len low + state.len high)).clearPageProperty
      high).setLinks (listDel state.links (.pageLink p))) managed free
      (front ++ back) [low] := by
  have basePositive := layout.positive base (by simp)
  have pPositive := layout.positive p (by simp)
  have lowNe : low ≠ high := by
    rcases pair with ⟨rfl, rfl⟩ | ⟨rfl, rfl⟩ <;> omega
  have fresh := layout.entry_fresh
  have kept : ∀ h ∈ front ++ back, h ∈ front ++ p :: back := by
    intro h member
    simp at member ⊢
    tauto
  have notBase : ∀ h ∈ front ++ back, h ≠ base := fun h member =>
    layout.listed_ne_loose (kept h member) (by simp)
  have notLow : ∀ h ∈ front ++ back, h ≠ low := fun h => layout.merge_kept pair
  have ring := layout.ring
  rw [map_append, map_cons] at ring
  refine ⟨?_, ?_, ?_, ?_, ?_, ?_, layout.within, ?_⟩
  · have deleted := isRing_listDel ring
    simpa [setLinks] using deleted
  · refine (layout.sorted.sublist (by simp)).imp_of_mem ?_
    intro a b aMem _ ordered
    simpa [notLow a aMem] using ordered
  · intro h member
    rcases mem_append.mp member with listed | isLow
    · have := layout.positive h (mem_append_left _ (kept h listed))
      simpa [notLow h listed] using this
    rw [mem_singleton] at isLow
    subst isLow
    simp
    rcases pair with ⟨rfl, rfl⟩ | ⟨rfl, rfl⟩ <;> omega
  · intro h member b isLow
    rw [mem_singleton] at isLow
    subst isLow
    have old := layout.apart h (kept h member) base (by simp)
    have hPositive := layout.positive h (mem_append_left _ (kept h member))
    have entrySide : h + state.len h ≤ p ∨ p + state.len p ≤ h :=
      (mem_append.mp member).imp layout.before_entry layout.after_entry
    simp [notLow h member]
    rcases pair with ⟨rfl, rfl⟩ | ⟨rfl, rfl⟩ <;> omega
  · intro q qManaged
    have old := layout.flagged q qManaged
    by_cases isHigh : q = high
    · subst isHigh
      have unlisted : q ∉ front ++ back := by
        rcases pair with ⟨-, rfl⟩ | ⟨-, rfl⟩
        · exact fresh
        · exact fun member => notBase q member rfl
      simp at unlisted
      simp [unlisted, lowNe.symm]
    simp [isHigh, old]
    rcases pair with ⟨rfl, rfl⟩ | ⟨rfl, rfl⟩
    · simp [isHigh]
    · tauto
  · intro q
    rw [← layout.covers q]
    constructor
    · rintro ⟨h, member, lower, upper⟩
      rcases mem_append.mp member with listed | isLow
      · simp [notLow h listed] at upper
        exact ⟨h, mem_append_left _ (kept h listed), lower, upper⟩
      rw [mem_singleton] at isLow
      subst isLow
      simp at upper
      have lowMem : h ∈ front ++ p :: back ++ [base] := by
        rcases pair with ⟨rfl, -⟩ | ⟨rfl, -⟩ <;> simp
      have highMem : high ∈ front ++ p :: back ++ [base] := by
        rcases pair with ⟨-, rfl⟩ | ⟨-, rfl⟩ <;> simp
      by_cases below : q < high
      · exact ⟨h, lowMem, lower, by omega⟩
      · exact ⟨high, highMem, by omega, by omega⟩
    rintro ⟨h, member, lower, upper⟩
    by_cases merged : h = low ∨ h = high
    · refine ⟨low, by simp, ?_, ?_⟩
      · rcases merged with rfl | rfl <;> omega
      · simp
        rcases merged with rfl | rfl <;> omega
    rw [not_or] at merged
    refine ⟨h, ?_, lower, ?_⟩
    · rcases pair with ⟨rfl, rfl⟩ | ⟨rfl, rfl⟩ <;>
        simp [merged.1, merged.2] at member ⊢ <;> exact member
    · simp [merged.1, upper]
  · intro q qManaged
    simpa using layout.unreserved q qManaged

theorem merge_total (links : Links FreeEntry) :
    (((state.setProperty low (state.len low + state.len high)).clearPageProperty
      high).setLinks links).total (front ++ back ++ [low]) =
      state.total (front ++ p :: back ++ [base]) := by
  have sameLen : ∀ h ∈ front ++ back,
      (((state.setProperty low (state.len low + state.len high)).clearPageProperty
        high).setLinks links).len h = state.len h := by
    intro h member
    simp [layout.merge_kept pair member]
  have sameFront := total_congr fun h member =>
    sameLen h (mem_append_left back member)
  have sameBack := total_congr fun h member =>
    sameLen h (mem_append_right front member)
  simp [sameFront, sameBack]
  rcases pair with ⟨rfl, rfl⟩ | ⟨rfl, rfl⟩ <;> omega

end

theorem insert (layout : Layout state managed free (front ++ back) [base])
    (below : ∀ h ∈ front, h + state.len h ≤ base) (above : ∀ h ∈ back, base + state.len base ≤ h) :
    Layout (state.setLinks (listAddBefore state.links
      ((back.map .pageLink).headD .freeList) (.pageLink base))) managed free
      (front ++ base :: back) [] := by
  have ring := layout.ring
  rw [map_append] at ring
  have sameHeads : ∀ h, h ∈ (front ++ base :: back) ++ [] ↔ h ∈ (front ++ back) ++ [base] := by
    intro h
    simp
    tauto
  refine ⟨?_, ?_, ?_, ?_, ?_, ?_, layout.within, ?_⟩
  · have unlisted : base ∉ front ++ back := fun member =>
      layout.listed_ne_loose member (by simp) rfl
    have inserted := isRing_listAddBefore ring
      (by simpa using unlisted : FreeEntry.pageLink base ∉ _)
    simpa [setLinks] using inserted
  · have parts := pairwise_append.mp layout.sorted
    refine pairwise_append.mpr ⟨parts.1, ?_, ?_⟩
    · exact pairwise_cons.mpr ⟨above, parts.2.1⟩
    intro a aMem b bMem
    rcases mem_cons.mp bMem with rfl | bMem
    · exact below a aMem
    · exact parts.2.2 a aMem b bMem
  · intro h member
    exact layout.positive h ((sameHeads h).mp member)
  · intro h _ b bMem
    simp at bMem
  · intro q qManaged
    rw [sameHeads]
    exact layout.flagged q qManaged
  · intro q
    rw [← layout.covers q]
    simp only [sameHeads]
    rfl
  · exact layout.unreserved

end Layout

/-- What the merging loop leaves behind: a loose block that touches no listed
block above it, the same free pages, and the untouched counters. -/
structure Merged (state : PmmState) (managed free : Finset Nat) (total : Nat)
    (base : Nat) (next : PmmState) (heads : List Nat) : Prop where
  layout : Layout next managed free heads [base]
  cleared : ∀ h ∈ heads, h ≠ base + next.len base
  total : next.total (heads ++ [base]) = total
  nrFree : next.nrFree = state.nrFree
  reserved : next.reserved = state.reserved

theorem mergeBlocks_ends (back : List Nat) :
    ∀ {state : PmmState} {front : List Nat} {base budget : Nat},
      Layout state managed free (front ++ back) [base] →
      (∀ h ∈ front, h ≠ base + state.len base) →
      back.length < budget →
      Ends (mergeBlocks budget ((back.map .pageLink).headD .freeList) base)
        (fun last next => ∃ heads, Merged state managed free
          (state.total (front ++ back ++ [base])) last next heads)
        (fun _ => False) state := by
  induction back with
  | nil =>
    intro state front base budget layout cleared enough
    obtain ⟨budget, rfl⟩ := Nat.exists_eq_add_one.mpr (Nat.zero_lt_of_lt enough)
    refine ⟨front, ?_, cleared, ?_, rfl, rfl⟩
    · simpa using layout
    · simp
  | cons p back ih =>
    intro state front base budget layout cleared enough
    obtain ⟨budget, rfl⟩ := Nat.exists_eq_add_one.mpr (Nat.zero_lt_of_lt enough)
    have enough : back.length < budget := by simpa using enough
    have ring := layout.ring
    rw [map_append, map_cons] at ring
    have nextEq : listNext state.links (.pageLink p) =
        (back.map .pageLink).headD .freeList := ring.next_entry
    simp only [map_cons, headD_cons, mergeBlocks, ends_bind, ends_get,
      ends_ite, ends_modify, nextEq]
    refine ⟨?_, fun notNext => ⟨?_, ?_⟩⟩
    · intro adjacent
      have merged := layout.merge (.inl ⟨rfl, rfl⟩) adjacent
      have total := layout.merge_total (.inl ⟨rfl, rfl⟩) (listDel state.links (.pageLink p))
      refine (ih merged ?_ enough).weaken ?_
      · intro h member
        have before := layout.before_entry member
        have adjacent : base + state.len base = p := adjacent
        have := layout.positive p (by simp)
        simp
        omega
      rintro last next ⟨heads, ends⟩
      exact ⟨heads, ends.layout, ends.cleared, ends.total.trans total, ends.nrFree, by
          rw [ends.reserved]
          funext q
          simp⟩
    · intro adjacent
      have merged := layout.merge (.inr ⟨rfl, rfl⟩) adjacent
      have total := layout.merge_total (.inr ⟨rfl, rfl⟩) (listDel state.links (.pageLink p))
      refine (ih merged ?_ enough).weaken ?_
      · intro h member
        have := cleared h member
        have adjacent : p + state.len p = base := adjacent
        simp
        omega
      rintro last next ⟨heads, ends⟩
      exact ⟨heads, ends.layout, ends.cleared, ends.total.trans total, ends.nrFree, by
          rw [ends.reserved]
          funext q
          simp⟩
    intro _
    have regrouped : front ++ p :: back = (front ++ [p]) ++ back := by simp
    rw [regrouped] at layout ⊢
    apply ih layout _ enough
    intro h member
    rcases mem_append.mp member with inFront | isEntry
    · exact cleared h inFront
    rw [mem_singleton] at isEntry
    subst isEntry
    exact fun same => notNext same.symm

/-- The search for the place of the loose block stops between the blocks below
it and the blocks above it. -/
theorem findPlace_ends {state : PmmState} {base : Nat} (back : List Nat) :
    ∀ {front : List Nat} {budget : Nat}, Layout state managed free (front ++ back) [base] →
      (∀ h ∈ front ++ back, h ≠ base + state.len base) →
      (∀ h ∈ front, h + state.len h ≤ base) →
      back.length < budget →
      Ends (findPlace base budget ((back.map .pageLink).headD .freeList))
        (fun le next => next = state ∧ ∃ below above, front ++ back = below ++ above ∧
          le = (above.map FreeEntry.pageLink).headD .freeList ∧
          (∀ h ∈ below, h + state.len h ≤ base) ∧
          ∀ h ∈ above, base + state.len base ≤ h)
        (fun _ => False) state := by
  induction back with
  | nil =>
    intro front budget _ _ below enough
    obtain ⟨budget, rfl⟩ := Nat.exists_eq_add_one.mpr (Nat.zero_lt_of_lt enough)
    exact ⟨rfl, front, [], rfl, rfl, below, by simp⟩
  | cons p back ih =>
    intro front budget layout cleared below enough
    obtain ⟨budget, rfl⟩ := Nat.exists_eq_add_one.mpr (Nat.zero_lt_of_lt enough)
    have ring := layout.ring
    rw [map_append, map_cons] at ring
    have nextEq : listNext state.links (.pageLink p) =
        (back.map .pageLink).headD .freeList := ring.next_entry
    simp only [map_cons, headD_cons, findPlace, ends_bind, ends_get,
      ends_ite, ends_check, ends_pure, nextEq]
    refine ⟨fun reached => ⟨fun _ => ?_, ?_⟩, fun notReached => ?_⟩
    · refine ⟨trivial, front, p :: back, rfl, rfl, below, ?_⟩
      intro h member
      rcases mem_cons.mp member with rfl | inBack
      · exact reached
      have := layout.after_entry inBack
      have reached : base + state.len base ≤ p := reached
      omega
    · intro same
      exact same (cleared p (by simp)).symm
    have regrouped : front ++ p :: back = (front ++ [p]) ++ back := by simp
    have apart := layout.apart p (by simp) base (by simp)
    rw [regrouped] at layout cleared ⊢
    apply ih layout cleared _ (by simpa using enough)
    intro h member
    rcases mem_append.mp member with inFront | isEntry
    · exact below h inFront
    rw [mem_singleton] at isEntry
    subst isEntry
    exact apart.resolve_right notReached

/-- The pages from `p` on are marked as allocated pages, which they were. -/
theorem clearPages_ends (count : Nat) : ∀ {state : PmmState} {p : Nat},
      (∀ q, p ≤ q → q < p + count → state.reserved q = false ∧ state.flag q = false) →
      Ends (clearPages p count) (fun _ next => next.len = state.len ∧ next.flag = state.flag ∧
          next.reserved = state.reserved ∧ next.links = state.links ∧
          next.nrFree = state.nrFree)
        (fun _ => False) state := by
  induction count with
  | zero =>
    intro state p _
    exact ⟨rfl, rfl, rfl, rfl, rfl⟩
  | succ count ih =>
    intro state p allocated
    have first := allocated p (le_refl p) (by omega)
    simp only [clearPages, ends_bind, ends_get, ends_check, ends_set]
    refine ⟨fun _ => ?_, fun stuck => stuck first⟩
    have unmarked : Page.pageProperty { state.pages p with flags := 0, ref := 0 } = false ∧
        Page.pageReserved { state.pages p with flags := 0, ref := 0 } = false := by
      simp [Page.pageProperty, Page.pageReserved]
    have sameLen : (state.setPage p { state.pages p with flags := 0, ref := 0 }).len =
        state.len := funext fun q => setPage_same Page.property rfl
    have sameFlag : (state.setPage p { state.pages p with flags := 0, ref := 0 }).flag =
        state.flag :=
      funext fun q => setPage_same Page.pageProperty (unmarked.1.trans first.2.symm)
    have sameReserved : (state.setPage p { state.pages p with flags := 0, ref := 0 }).reserved =
        state.reserved :=
      funext fun q => setPage_same Page.pageReserved (unmarked.2.trans first.1.symm)
    refine (ih ?_).weaken ?_
    · intro q lower upper
      rw [sameReserved, sameFlag]
      exact allocated q (by omega) (by omega)
    intro _ next ends
    exact ⟨ends.1.trans sameLen, ends.2.1.trans sameFlag, ends.2.2.1.trans sameReserved, ends.2.2.2⟩

/-- The pages from `p` on lose the reserved bit and every other mark. -/
theorem initPages_ends (count : Nat) : ∀ {state : PmmState} {p : Nat},
      (∀ q, p ≤ q → q < p + count → state.reserved q = true) →
      Ends (initPages p count) (fun _ next =>
          (∀ q, next.len q = if p ≤ q ∧ q < p + count then 0 else state.len q) ∧
          (∀ q, next.flag q = if p ≤ q ∧ q < p + count then false else state.flag q) ∧
          (∀ q, next.reserved q = if p ≤ q ∧ q < p + count then false else state.reserved q) ∧
          next.links = state.links ∧ next.nrFree = state.nrFree)
        (fun _ => False) state := by
  induction count with
  | zero =>
    intro state p _
    refine ⟨?_, ?_, ?_, rfl, rfl⟩ <;>
      intro q <;> rw [if_neg (by omega)]
  | succ count ih =>
    intro state p allReserved
    have first := allReserved p (le_refl p) (by omega)
    simp only [initPages, ends_bind, ends_get, ends_check, ends_set]
    refine ⟨fun _ => ?_, fun stuck => stuck first⟩
    refine (ih ?_).weaken ?_
    · intro q lower upper
      rw [reserved, setPage_view Page.pageReserved, if_neg (by omega)]
      exact allReserved q (by omega) (by omega)
    rintro _ next ⟨lenEq, flagEq, reservedEq, linksEq, nrFreeEq⟩
    have step : ∀ {α : Type} (view : Page → α) (q : Nat),
        (if p + 1 ≤ q ∧ q < p + 1 + count then view ⟨0, 0, 0⟩
          else view ((state.setPage p ⟨0, 0, 0⟩).pages q)) =
        if p ≤ q ∧ q < p + (count + 1) then view ⟨0, 0, 0⟩ else view (state.pages q) := by
      intro α view q
      rw [setPage_view view]
      split_ifs <;> first | rfl | omega
    exact ⟨fun q => (lenEq q).trans (step Page.property q),
      fun q => (flagEq q).trans (step Page.pageProperty q),
      fun q => (reservedEq q).trans (step Page.pageReserved q), linksEq, nrFreeEq⟩

end UcoreSmp
