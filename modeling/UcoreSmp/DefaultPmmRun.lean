import UcoreSmp.DefaultPmmCalls

/-!
# Runs of the first-fit allocator

A ledger beside the allocator records which pages `default_init_memmap` handed
over and which of them are allocated.  A run is `default_init` on a booted page
array, whose descriptors are all reserved, followed by calls that respect the
ledger.  Along every run the free list describes exactly the managed pages that
are not allocated.
-/

namespace UcoreSmp

open Finset

/-- The pages given to the allocator, and those of them that callers hold. -/
structure PmmLedger where
  managed : Finset Nat
  allocated : Finset Nat

/-- The calls of `struct pmm_manager` that change the allocator. -/
inductive PmmCall where
  | initMemmap (base n : Nat)
  | allocPages (n : Nat)
  | freePages (base n : Nat)

namespace PmmCall

/-- A page range is handed over above the earlier ones, and only allocated
pages are freed. -/
def Admissible (npage : Nat) (ledger : PmmLedger) : PmmCall → Prop
  | initMemmap base n =>
    0 < n ∧ base + n ≤ npage ∧ ∀ p ∈ ledger.managed, p < base
  | allocPages n => 0 < n
  | freePages base n => 0 < n ∧ Finset.Ico base (base + n) ⊆ ledger.allocated

instance (npage : Nat) (ledger : PmmLedger) (call : PmmCall) :
    Decidable (call.Admissible npage ledger) :=
  match call with
  | initMemmap _ _ => inferInstanceAs (Decidable (_ ∧ _ ∧ _))
  | allocPages _ => inferInstanceAs (Decidable (_ < _))
  | freePages _ _ => inferInstanceAs (Decidable (_ ∧ _))

def run (budget : Nat) : PmmCall → PmmM (Option Nat)
  | initMemmap base n => do
    defaultInitMemmap base n
    pure none
  | allocPages n => defaultAllocPages budget n
  | freePages base n => do
    defaultFreePages budget base n
    pure none

def record (result : Option Nat) (ledger : PmmLedger) : PmmCall → PmmLedger
  | initMemmap base n =>
    { ledger with managed := ledger.managed ∪ Finset.Ico base (base + n) }
  | allocPages n =>
    match result with
    | none => ledger
    | some page =>
      { ledger with
        allocated := ledger.allocated ∪ Finset.Ico page (page + n) }
  | freePages base n =>
    { ledger with allocated := ledger.allocated \ Finset.Ico base (base + n) }

end PmmCall

open PmmCall

inductive PmmReaches (budget npage : Nat) (boot : PmmState) : PmmState → PmmLedger → Prop
  | init {state : PmmState} :
      defaultInit boot = .ok (PUnit.unit, state) →
      PmmReaches budget npage boot state ⟨∅, ∅⟩
  | call {state next : PmmState} {ledger : PmmLedger} {result : Option Nat}
      (call : PmmCall) :
      PmmReaches budget npage boot state ledger →
      call.Admissible npage ledger →
      call.run budget state = .ok (result, next) →
      PmmReaches budget npage boot next (call.record result ledger)

/-- What a run keeps: a settled layout of the unallocated pages, and reserved
descriptors for the pages not handed over yet. -/
structure PmmKept (npage : Nat) (state : PmmState) (ledger : PmmLedger) : Prop where
  settled : ∃ heads, Settled state ledger.managed (ledger.managed \ ledger.allocated) heads
  held : ledger.allocated ⊆ ledger.managed
  below : ∀ p ∈ ledger.managed, p < npage
  reserved : ∀ p < npage, p ∉ ledger.managed → state.reserved p = true

variable {npage : Nat} {ledger : PmmLedger} {state : PmmState}

namespace PmmKept

variable {budget : Nat}

section

variable (kept : PmmKept npage state ledger)

include kept

theorem card_lt (enough : npage < budget) : ledger.managed.card < budget := by
  have subset : ledger.managed ⊆ Finset.range npage := fun p member =>
    mem_range.mpr (kept.below p member)
  have := card_le_card subset
  rw [card_range] at this
  omega

theorem initMemmap {base n : Nat} (nonempty : 0 < n) (inside : base + n ≤ npage)
    (above : ∀ p ∈ ledger.managed, p < base) :
    Ends ((initMemmap base n).run budget) (fun result next =>
        PmmKept npage next ((initMemmap base n).record result ledger))
      (fun _ => False) state := by
  obtain ⟨heads, settled⟩ := kept.settled
  have notManaged : ∀ q, base ≤ q → q ∉ ledger.managed := by
    intro q lower member
    have := above q member
    omega
  simp only [run, ends_bind, ends_pure]
  refine (defaultInitMemmap_ends settled nonempty above ?_).mono ?_ (fun _ stops => stops)
  · intro q lower upper
    exact kept.reserved q (by omega) (notManaged q lower)
  rintro _ next ⟨reservedEq, heads', settled'⟩
  have freeEq : (ledger.managed ∪ Finset.Ico base (base + n)) \ ledger.allocated =
      ledger.managed \ ledger.allocated ∪ Finset.Ico base (base + n) := by
    ext q
    have fresh : base ≤ q → q ∉ ledger.allocated := fun lower member =>
      notManaged q lower (kept.held member)
    simp only [mem_sdiff, mem_union, mem_Ico]
    tauto
  refine ⟨⟨heads', ?_⟩, ?_, ?_, ?_⟩
  · simp only [record, freeEq]
    exact settled'
  · exact kept.held.trans subset_union_left
  · intro p member
    rcases mem_union.mp member with old | fresh
    · exact kept.below p old
    · rw [mem_Ico] at fresh
      omega
  intro p inside notMember
  simp only [record, mem_union, mem_Ico, not_or] at notMember
  rw [reservedEq p, if_neg notMember.2]
  exact kept.reserved p inside notMember.1

theorem allocPages {n : Nat} (nonempty : 0 < n) (enough : npage < budget) :
    Ends ((allocPages n).run budget) (fun result next =>
        PmmKept npage next ((allocPages n).record result ledger))
      (fun _ => False) state := by
  obtain ⟨heads, settled⟩ := kept.settled
  refine (defaultAllocPages_ends settled nonempty (kept.card_lt enough)).mono ?_
    (fun _ stops => stops)
  rintro found next ⟨reservedEq, outcome⟩
  cases found with
  | none =>
    obtain ⟨rfl, -⟩ := outcome
    exact kept
  | some page =>
    obtain ⟨taken, heads', settled'⟩ := outcome
    have freeEq : ledger.managed \ (ledger.allocated ∪ Finset.Ico page (page + n)) =
        (ledger.managed \ ledger.allocated) \ Finset.Ico page (page + n) := by
      ext q
      simp only [mem_sdiff, mem_union]
      tauto
    refine ⟨⟨heads', ?_⟩, ?_, kept.below, ?_⟩
    · simp only [record, freeEq]
      exact settled'
    · exact union_subset kept.held (taken.trans sdiff_subset)
    · intro p inside notMember
      rw [reservedEq]
      exact kept.reserved p inside notMember

theorem freePages {base n : Nat} (nonempty : 0 < n)
    (allocated : Finset.Ico base (base + n) ⊆ ledger.allocated) (enough : npage < budget) :
    Ends ((freePages base n).run budget) (fun result next =>
        PmmKept npage next ((freePages base n).record result ledger))
      (fun _ => False) state := by
  obtain ⟨heads, settled⟩ := kept.settled
  have notFree : Finset.Ico base (base + n) ⊆
      ledger.managed \ (ledger.managed \ ledger.allocated) := by
    rw [sdiff_sdiff_right_self]
    exact subset_inter (allocated.trans kept.held) allocated
  simp only [run, ends_bind, ends_pure]
  refine (defaultFreePages_ends settled nonempty notFree (kept.card_lt enough)).mono ?_
    (fun _ stops => stops)
  rintro _ next ⟨reservedEq, heads', settled'⟩
  have freeEq : ledger.managed \ (ledger.allocated \ Finset.Ico base (base + n)) =
      ledger.managed \ ledger.allocated ∪ Finset.Ico base (base + n) := by
    ext q
    have inside : q ∈ Finset.Ico base (base + n) → q ∈ ledger.managed := fun member =>
      kept.held (allocated member)
    simp only [mem_sdiff, mem_union]
    tauto
  refine ⟨⟨heads', ?_⟩, sdiff_subset.trans kept.held, kept.below, ?_⟩
  · simp only [record, freeEq]
    exact settled'
  intro p inside notMember
  rw [reservedEq]
  exact kept.reserved p inside notMember

theorem call (enough : npage < budget) {call : PmmCall}
    (admissible : call.Admissible npage ledger) :
    Ends (call.run budget) (fun result next => PmmKept npage next (call.record result ledger))
      (fun _ => False) state := by
  cases call with
  | initMemmap base n =>
    exact kept.initMemmap admissible.1 admissible.2.1 admissible.2.2
  | allocPages n => exact kept.allocPages admissible enough
  | freePages base n => exact kept.freePages admissible.1 admissible.2 enough

end

end PmmKept

variable {boot : PmmState} {budget : Nat}

/-- `default_init` leaves an empty ring. -/
theorem pmmKept_defaultInit (allReserved : ∀ p < npage, (boot.pages p).pageReserved = true)
    (ran : defaultInit boot = .ok ((), state)) : PmmKept npage state ⟨∅, ∅⟩ := by
  have stateEq : (boot.setLinks (listInit boot.links .freeList)).setNrFree 0 = state := by
    simpa [defaultInit, modify, modifyGet, MonadStateOf.modifyGet,
      StateT.modifyGet, pure, Except.pure] using ran
  subst stateEq
  refine ⟨⟨[], ⟨isRing_listInit _ _, ?_, ?_, ?_, ?_, ?_, ?_, ?_⟩, rfl⟩, ?_, ?_, ?_⟩
  all_goals simp
  intro p inside
  exact allReserved p inside

theorem PmmReaches.kept (allReserved : ∀ p < npage, (boot.pages p).pageReserved = true)
    (enough : npage < budget) (reaches : PmmReaches budget npage boot state ledger) :
    PmmKept npage state ledger := by
  induction reaches with
  | init ran => exact pmmKept_defaultInit allReserved ran
  | call call _ admissible ran ih =>
    have ends := ih.call enough admissible
    unfold Ends at ends
    rw [ran] at ends
    exact ends

structure PageBlock where
  start : Nat
  length : Nat
  deriving DecidableEq

def PageBlock.pages (block : PageBlock) : Finset Nat :=
  Finset.Ico block.start (block.start + block.length)

structure FreeBlocks (state : PmmState) (ledger : PmmLedger) (blocks : List PageBlock) : Prop where
  listed : state.links.IsRing .freeList (blocks.map fun block => .pageLink block.start)
  sorted : blocks.Pairwise fun first second => first.start < second.start
  disjoint : blocks.Pairwise fun first second => Disjoint first.pages second.pages
  nonempty : ∀ block ∈ blocks, 0 < block.length
  lengths : ∀ block ∈ blocks, (state.pages block.start).property = block.length
  flagged : ∀ p ∈ ledger.managed,
    (state.pages p).pageProperty = true ↔ p ∈ blocks.map PageBlock.start
  counted : (blocks.map fun block => (state.pages block.start).property).sum = state.nrFree
  exactly : ∀ p, (∃ block ∈ blocks, p ∈ block.pages) ↔ p ∈ ledger.managed \ ledger.allocated

theorem Settled.freeBlocks {heads : List Nat}
    (settled : Settled state ledger.managed (ledger.managed \ ledger.allocated) heads) :
    FreeBlocks state ledger (heads.map fun h => ⟨h, (state.pages h).property⟩) := by
  have layout := settled.layout
  have positive : ∀ h ∈ heads, 0 < (state.pages h).property := fun h member =>
    layout.positive h (by simpa using member)
  constructor
  · rw [List.map_map]
    exact layout.ring
  · rw [List.pairwise_map]
    refine layout.sorted.imp_of_mem ?_
    intro a b aMem _ (ordered : a + (state.pages a).property ≤ b)
    have := positive a aMem
    change a < b
    omega
  · rw [List.pairwise_map]
    refine layout.sorted.imp ?_
    intro a b (ordered : a + (state.pages a).property ≤ b)
    rw [disjoint_left]
    intro p inFirst inSecond
    simp only [PageBlock.pages, mem_Ico] at inFirst inSecond
    omega
  · simpa using positive
  · simp
  · intro p member
    simpa [PmmState.flag] using layout.flagged p member
  · rw [List.map_map]
    exact settled.counted
  · intro p
    rw [← layout.covers p]
    simp [PageBlock.pages, PmmState.len]

/-- In every run the free list is the sorted list of the blocks of unallocated
pages, and the next call does not stop in an assertion. -/
theorem pmm_run_freeBlocks {boot : PmmState}
    (allReserved : ∀ p < npage, (boot.pages p).pageReserved = true) (enough : npage < budget)
    {state : PmmState} (reaches : PmmReaches budget npage boot state ledger) :
    (∃ blocks, FreeBlocks state ledger blocks) ∧ ∀ call : PmmCall, call.Admissible npage ledger →
        ∃ result next, call.run budget state = .ok (result, next) := by
  have kept := reaches.kept allReserved enough
  obtain ⟨heads, settled⟩ := kept.settled
  refine ⟨⟨_, settled.freeBlocks⟩, ?_⟩
  intro call admissible
  obtain ⟨result, next, ran, -⟩ := (kept.call enough admissible).returns
  exact ⟨result, next, ran⟩

/-- Four reserved pages, with garbage in the list links and the counter. -/
def reservedBoot : PmmState where
  pages := fun _ => ⟨0, 1, 7⟩
  links := ⟨id, id⟩
  nrFree := 9

theorem pmm_run_freeBlocks_partial_free : ∃ state ledger, PmmReaches 5 4 reservedBoot state ledger ∧
      ledger.managed = {0, 1, 2, 3} ∧ ledger.allocated = {1, 2} ∧
      (∃ blocks, FreeBlocks state ledger blocks) ∧
      ∃ result next, (PmmCall.freePages 1 2).run 5 state = .ok (result, next) := by
  have booted : PmmReaches 5 4 reservedBoot _ _ := .init rfl
  have mapped := booted.call (.initMemmap 0 4) (by decide) rfl
  have taken := mapped.call (.allocPages 3) (by decide) rfl
  have returned := taken.call (.freePages 0 1) (by decide) rfl
  have invariant := pmm_run_freeBlocks (by decide) (by decide) returned
  exact ⟨_, _, returned, by decide, by decide, invariant.1,
    invariant.2 (.freePages 1 2) (by decide)⟩

end UcoreSmp
