import UcoreSmp.VmaList

/-!
# The contract of `mm_map`

`mm_map` should map a range exactly when it lies in user space and meets no other
area, and refuse everything else without a trace.  It does so except on three kinds
of input: a range that begins outside all areas but contains the start of one, a
length that wraps the end of the range around to the page of its start, and any
range that could be mapped when the heap needs a page and there is none, once pages
can be swapped out.
-/

namespace UcoreSmp

/-- An address rounded up to a page, without wrapping. -/
def pagesUp (addr : Nat) : Nat := (addr + PGSIZE - 1) / PGSIZE * PGSIZE

/-- The range lies in user space, meets no area, and there is memory for it. -/
def MapAccepted (state : MmState) (mm addr len : Nat) : Prop :=
  UserAccess (rounddown addr PGSIZE) (pagesUp (addr + len)) ∧ (∀ vma ∈ (state.mms mm).mmapList,
      pagesUp (addr + len) ≤ vma.vmStart ∨ vma.vmEnd ≤ rounddown addr PGSIZE) ∧
    state.pick ≠ none

/-- What `mm_map` promises.  The cache of `find_vma` is not part of the promise. -/
def MmMapContract (state : MmState) (mm addr len vmFlags : Nat) : Prop :=
  CallEnds (mmMap mm addr len vmFlags)
    (fun _ next => MapAccepted state mm addr len ∧ VmasOrdered (next.mms mm).mmapList ∧
      ∃ vma : Vma, vma.vmStart = rounddown addr PGSIZE ∧ vma.vmEnd = pagesUp (addr + len) ∧
        vma.vmFlags = vmFlags ∧
        (next.mms mm).mmapList.Perm (vma :: (state.mms mm).mmapList))
    (fun code next => ¬ MapAccepted state mm addr len ∧ code < 0 ∧
      { next.mms mm with mmapCache := none } = { state.mms mm with mmapCache := none })
    (fun _ => False) state

section Rounding

variable {addr len : Nat}

theorem roundup_eq (fits : addr + len + PGSIZE ≤ 2 ^ 32) :
    roundup (word (addr + len)) PGSIZE = pagesUp (addr + len) := by
  unfold roundup rounddown word pagesUp
  unfold PGSIZE at *
  omega

theorem le_pagesUp (addr : Nat) : addr ≤ pagesUp addr := by
  unfold pagesUp PGSIZE
  omega

theorem roundup_of_access {start : Nat} (access : UserAccess start (pagesUp (addr + len))) :
    roundup (word (addr + len)) PGSIZE = pagesUp (addr + len) := by
  have top := access.2.2
  have up := le_pagesUp (addr + len)
  apply roundup_eq
  unfold USERTOP at top
  unfold PGSIZE
  omega

theorem roundup_of_lt {start : Nat} (small : addr + len < 2 ^ 32)
    (access : UserAccess start (roundup (word (addr + len)) PGSIZE)) :
    roundup (word (addr + len)) PGSIZE = pagesUp (addr + len) := by
  by_cases fits : addr + len + PGSIZE ≤ 2 ^ 32
  · exact roundup_eq fits
  have wrapped : roundup (word (addr + len)) PGSIZE = 0 ∨
      roundup (word (addr + len)) PGSIZE = pagesUp (addr + len) := by
    unfold roundup rounddown word pagesUp
    unfold PGSIZE at *
    omega
  cases wrapped with
  | inl zero =>
    have positive := access.2.1
    omega
  | inr same => exact same

end Rounding

section Contract

variable {state : MmState} {mm addr len vmFlags : Nat}

/-- `mm_map` keeps its contract exactly when it is not asked for a range in user
space whose first page is free although its length wrapped around, although an area
starts inside, or although the heap has no memory and would have pages swapped
out. -/
theorem mm_map_contract_iff (ordered : VmasOrdered (state.mms mm).mmapList)
    (cached : (state.mms mm).Cached) :
    MmMapContract state mm addr len vmFlags ↔
      ¬ (UserAccess (rounddown addr PGSIZE) (roundup (word (addr + len)) PGSIZE) ∧
        StartFree (state.mms mm).mmapList (rounddown addr PGSIZE) ∧
        (state.pick = none ∧ state.phys.swapInitOk = true ∨
          state.pick ≠ none ∧ (2 ^ 32 ≤ addr + len ∨
            StartsInside (state.mms mm).mmapList (rounddown addr PGSIZE)
              (roundup (word (addr + len)) PGSIZE)))) := by
  constructor
  · rintro contract ⟨access, startFree, reason⟩
    refine absurd contract (CallEnds.not (mmMap_ends rfl rfl ordered cached ?_ ?_ ?_ ?_ ?_ ?_))
    · exact fun invalid => absurd access invalid
    · exact fun _ vma member contains => absurd contains (startFree vma member)
    · rintro _ _ none noSwap
      rcases reason with ⟨_, swap⟩ | ⟨memory, _⟩
      · rw [noSwap] at swap
        cases swap
      · exact absurd none memory
    · exact fun _ _ _ _ => id
    · rintro _ _ block picked fits ⟨accepted, _⟩
      have either := reason.resolve_left fun starved => by simp [picked] at starved
      cases either.2 with
      | inl wrapped =>
        have top := accepted.1.2.2
        have up := le_pagesUp (addr + len)
        unfold USERTOP at top
        omega
      | inr inside =>
        obtain ⟨vma, member, after, before⟩ := inside
        have nonempty := ordered.nonempty vma member
        have apart := fits vma member
        simp only at apart
        omega
    · exact fun _ _ _ _ => id
  intro good
  apply mmMap_ends rfl rfl ordered cached
  · intro invalid
    refine ⟨?_, by decide, rfl⟩
    intro accepted
    apply invalid
    rw [roundup_of_access accepted.1]
    exact accepted.1
  · intro _ vma member contains
    refine ⟨?_, by decide, ?_⟩
    · intro accepted
      have apart := accepted.2.1 vma member
      have nonempty := accepted.1.2.1
      unfold Vma.Contains at contains
      omega
    · rw [MmState.setCache, mms_setMm]
  · intro _ _ none _
    exact ⟨fun accepted => accepted.2.2 none, by decide, rfl⟩
  · exact fun access startFree none swap => good ⟨access, startFree, .inl ⟨none, swap⟩⟩
  · intro access startFree block picked fits
    have memory : state.pick ≠ none := by
      rw [picked]
      simp
    have small : addr + len < 2 ^ 32 := by
      by_contra wrapped
      exact good ⟨access, startFree, .inr ⟨memory, .inl (by omega)⟩⟩
    have isLast := roundup_of_lt small access
    rw [isLast] at access fits ⊢
    refine ⟨⟨access, fits, memory⟩, ?_, ⟨block, _, _, vmFlags⟩, rfl, rfl, rfl, ?_⟩
    · rw [mms_setMm]
      exact ordered.link access.2.1 fits
    · rw [mms_setMm]
      exact link_perm _ _
  · exact fun access startFree memory inside =>
      good ⟨access, startFree, .inr ⟨memory, .inr inside⟩⟩

def oneAreaState : MmState where
  phys := ⟨8, fun _ _ => 0, fun _ => 0, ∅, [], 0, true⟩
  heap := {0, 1}
  heapPicks := [some 2]
  mms := fun _ => ⟨[⟨1, 0x801000, 0x802000, VM_READ⟩], none, none, 1, 1⟩
  bootPgdir := 0

theorem mm_map_contract_next_page : VmasOrdered (oneAreaState.mms 0).mmapList ∧
      (oneAreaState.mms 0).Cached ∧ MmMapContract oneAreaState 0 0x802000 0x1000 VM_READ := by
  have ordered : VmasOrdered (oneAreaState.mms 0).mmapList :=
    ⟨by simp [oneAreaState], by simp [oneAreaState]⟩
  have cached : (oneAreaState.mms 0).Cached := by
    intro vma isCached
    cases isCached
  refine ⟨ordered, cached, (mm_map_contract_iff ordered cached).mpr ?_⟩
  rintro ⟨_, _, ⟨starved, _⟩ | ⟨_, wrapped | ⟨vma, member, after, _⟩⟩⟩
  · exact absurd starved (by decide)
  · exact absurd wrapped (by decide)
  simp only [oneAreaState, List.mem_singleton] at member
  subst member
  revert after
  decide

/-- A range of two pages whose second page is an area fails an assertion. -/
theorem mm_map_asserts_on_overlap : VmasOrdered (oneAreaState.mms 0).mmapList ∧
      mmMap 0 0x800000 0x2000 VM_READ oneAreaState = .error .vmaOverlap ∧
      ¬ MmMapContract oneAreaState 0 0x800000 0x2000 VM_READ := by
  have fails : mmMap 0 0x800000 0x2000 VM_READ oneAreaState = .error .vmaOverlap := rfl
  refine ⟨⟨by simp [oneAreaState], by simp [oneAreaState]⟩, fails, ?_⟩
  intro contract
  exact contract.stopped fails

end Contract

end UcoreSmp
