import Mathlib.Data.List.Pairwise
import Mathlib.Data.List.TakeWhile
import UcoreSmp.Vmm

/-!
# The list of areas

The areas of an address space are sorted and disjoint.  `insert_vma_struct` keeps
them so where the new area fits, and `mm_map` asks for less than that: it looks
only at the first address of the new area, and it computes the last one with
wrapping arithmetic.
-/

namespace UcoreSmp

open List

structure VmasOrdered (list : List Vma) : Prop where
  sorted : list.Pairwise fun vma other => vma.vmEnd ≤ other.vmStart
  nonempty : ∀ vma ∈ list, vma.vmStart < vma.vmEnd

variable {mm : Nat} {state : MmState} {failed : Int → MmState → Prop} {faulty : MmFault → Prop}

theorem mms_setMm (value : MmStruct) : (state.setMm mm value).mms mm = value :=
  Function.update_self _ _ _

theorem mms_setMm_of_ne {other : Nat} (distinct : other ≠ mm)
    (value : MmStruct) : (state.setMm mm value).mms other = state.mms other :=
  Function.update_of_ne distinct _ _

section Insert

variable {list : List Vma} {vma other : Vma}

theorem vmas_split (vma : Vma) (list : List Vma) :
    vmasBefore vma list ++ vmasAfter vma list = list :=
  takeWhile_append_dropWhile

theorem mem_vmasBefore_le (member : other ∈ vmasBefore vma list) : other.vmStart ≤ vma.vmStart := by
  have passes := mem_takeWhile_imp member
  simpa using passes

theorem mem_of_mem_vmasBefore (member : other ∈ vmasBefore vma list) : other ∈ list :=
  (takeWhile_sublist _).subset member

theorem mem_of_mem_vmasAfter (member : other ∈ vmasAfter vma list) : other ∈ list :=
  (dropWhile_suffix _).subset member

theorem VmasOrdered.after (ordered : VmasOrdered list) : VmasOrdered (vmasAfter vma list) where
  sorted := ordered.sorted.sublist (dropWhile_suffix _).sublist
  nonempty other member := ordered.nonempty other (mem_of_mem_vmasAfter member)

/-- The first area behind the new one starts later than the new one, and no later
than the others. -/
theorem vmasAfter_head (ordered : VmasOrdered list) {next : Vma} {rest : List Vma}
    (after : vmasAfter vma list = next :: rest) :
    vma.vmStart < next.vmStart ∧ ∀ other ∈ vmasAfter vma list, next.vmStart ≤ other.vmStart := by
  constructor
  · have stops := List.head?_dropWhile_not (fun other : Vma => decide (other.vmStart ≤ vma.vmStart))
      list
    rw [← vmasAfter, after] at stops
    simpa using stops
  intro other member
  have sorted : (vmasAfter vma list).Pairwise fun vma other => vma.vmEnd ≤ other.vmStart :=
    ordered.after.sorted
  rw [after] at member sorted
  cases mem_cons.mp member with
  | inl same => rw [same]
  | inr later =>
    have disjoint := (pairwise_cons.mp sorted).1 other later
    have := ordered.nonempty next (mem_of_mem_vmasAfter (by rw [after]; exact mem_cons_self))
    omega

theorem mem_vmasAfter_lt (ordered : VmasOrdered list)
    (member : other ∈ vmasAfter vma list) : vma.vmStart < other.vmStart := by
  cases after : vmasAfter vma list with
  | nil =>
    rw [after] at member
    cases member
  | cons next rest =>
    obtain ⟨later, first⟩ := vmasAfter_head ordered after
    exact later.trans_le (first other member)

def VmaFits (vma : Vma) (list : List Vma) : Prop :=
  ∀ other ∈ list, vma.vmEnd ≤ other.vmStart ∨ other.vmEnd ≤ vma.vmStart

theorem VmasOrdered.link (ordered : VmasOrdered list) (nonempty : vma.vmStart < vma.vmEnd)
    (fits : VmaFits vma list) : VmasOrdered (vmasBefore vma list ++ vma :: vmasAfter vma list) := by
  have sorted := ordered.sorted
  rw [← vmas_split vma list, pairwise_append] at sorted
  obtain ⟨sortedBefore, sortedAfter, across⟩ := sorted
  have before : ∀ other ∈ vmasBefore vma list, other.vmEnd ≤ vma.vmStart := by
    intro other member
    have early := mem_vmasBefore_le member
    have apart := fits other (mem_of_mem_vmasBefore member)
    omega
  have after : ∀ other ∈ vmasAfter vma list, vma.vmEnd ≤ other.vmStart := by
    intro other member
    have late := mem_vmasAfter_lt ordered member
    have apart := fits other (mem_of_mem_vmasAfter member)
    have := ordered.nonempty other (mem_of_mem_vmasAfter member)
    omega
  constructor
  · rw [pairwise_append, pairwise_cons]
    refine ⟨sortedBefore, ⟨after, sortedAfter⟩, ?_⟩
    intro first isFirst second isSecond
    cases mem_cons.mp isSecond with
    | inl same => rw [same]; exact before first isFirst
    | inr later => exact across first isFirst second later
  intro other member
  rw [mem_append, mem_cons] at member
  rcases member with early | same | late
  · exact ordered.nonempty other (mem_of_mem_vmasBefore early)
  · rw [same]
    exact nonempty
  · exact ordered.nonempty other (mem_of_mem_vmasAfter late)

theorem mem_link :
    other ∈ vmasBefore vma list ++ vma :: vmasAfter vma list ↔ other = vma ∨ other ∈ list := by
  conv_rhs => rw [← vmas_split vma list]
  simp only [mem_append, mem_cons]
  tauto

variable {post : PUnit → MmState → Prop}

theorem link_perm (struct : MmStruct) (vma : Vma) :
    (struct.link vma).mmapList.Perm (vma :: struct.mmapList) := by
  have moved : (vmasBefore vma struct.mmapList ++ vma :: vmasAfter vma struct.mmapList).Perm
      (vma :: (vmasBefore vma struct.mmapList ++ vmasAfter vma struct.mmapList)) :=
    perm_middle
  rwa [vmas_split] at moved

/-- `insert_vma_struct` on an area whose first address is free: it succeeds if
the area fits, and fails its assertion if another area starts inside. -/
theorem insertVmaStruct_ends (ordered : VmasOrdered (state.mms mm).mmapList)
    (nonempty : vma.vmStart < vma.vmEnd)
    (startFree : ∀ other ∈ (state.mms mm).mmapList, ¬ other.Contains vma.vmStart)
    (fits : VmaFits vma (state.mms mm).mmapList →
      post () (state.setMm mm ((state.mms mm).link vma)))
    (overlaps : (∃ other ∈ (state.mms mm).mmapList,
      vma.vmStart < other.vmStart ∧ other.vmStart < vma.vmEnd) → faulty .vmaOverlap) :
    CallEnds (insertVmaStruct mm vma) post failed faulty state := by
  have before : ∀ other ∈ (state.mms mm).mmapList, other.vmStart ≤ vma.vmStart →
      other.vmEnd ≤ vma.vmStart := by
    intro other member early
    have outside := startFree other member
    unfold Vma.Contains at outside
    omega
  rw [insertVmaStruct, callEnds_bind, callEnds_ensure]
  refine ⟨fun _ => ?_, fun empty => absurd nonempty empty⟩
  rw [callEnds_bind, callEnds_get, callEnds_bind]
  -- The area before ends in time, because it does not contain the first address.
  have previous : ∀ {post : PUnit → MmState → Prop}, post () state →
      CallEnds (checkPrevious (vmasBefore vma (state.mms mm).mmapList).getLast? vma) post failed
        faulty state := by
    intro post holds
    cases isLast : (vmasBefore vma (state.mms mm).mmapList).getLast? with
    | none => exact holds
    | some other =>
      have member := mem_of_getLast? isLast
      have inList := mem_of_mem_vmasBefore member
      simp [checkPrevious, checkVmaOverlap, ordered.nonempty other inList,
        before other inList (mem_vmasBefore_le member), nonempty, holds]
  apply previous
  cases after : vmasAfter vma (state.mms mm).mmapList with
  | nil =>
    apply fits
    intro other member
    right
    rw [← vmas_split vma (state.mms mm).mmapList, after, append_nil] at member
    exact before other (mem_of_mem_vmasBefore member) (mem_vmasBefore_le member)
  | cons next rest =>
    obtain ⟨later, first⟩ := vmasAfter_head ordered after
    have inList : next ∈ (state.mms mm).mmapList :=
      mem_of_mem_vmasAfter (by rw [after]; exact mem_cons_self)
    simp only [List.head?_cons, checkNext, checkVmaOverlap, callEnds_bind, callEnds_ensure,
      nonempty, ordered.nonempty next inList, not_true_eq_false, false_implies, and_true,
      true_implies, callEnds_modify]
    constructor
    · intro apart
      apply fits
      intro other member
      rw [← vmas_split vma (state.mms mm).mmapList, mem_append] at member
      cases member with
      | inl early =>
        exact .inr (before other (mem_of_mem_vmasBefore early) (mem_vmasBefore_le early))
      | inr late => exact .inl (apart.trans (first other late))
    · intro meets
      exact overlaps ⟨next, inList, later, by omega⟩

end Insert

section Lookup

variable {struct : MmStruct} {addr : Nat}

def MmStruct.Cached (struct : MmStruct) : Prop :=
  ∀ vma, struct.mmapCache = some vma → vma ∈ struct.mmapList

theorem lookup_some (cached : struct.Cached) {vma : Vma}
    (found : struct.lookup addr = some vma) : vma ∈ struct.mmapList ∧ vma.Contains addr := by
  have scanned : (struct.mmapList.find? fun vma => decide (vma.Contains addr)) = some vma →
      vma ∈ struct.mmapList ∧ vma.Contains addr := fun found =>
    ⟨mem_of_find?_eq_some found, by simpa using List.find?_some found⟩
  unfold MmStruct.lookup at found
  split at found
  · next isCached =>
    split at found
    · next contains =>
      cases found
      exact ⟨cached vma isCached, contains⟩
    · exact scanned found
  · exact scanned found

theorem lookup_none (missing : struct.lookup addr = none) :
    ∀ vma ∈ struct.mmapList, ¬ vma.Contains addr := by
  have scanned : (struct.mmapList.find? fun vma => decide (vma.Contains addr)) = none →
      ∀ vma ∈ struct.mmapList, ¬ vma.Contains addr := by
    intro missing vma member
    have := List.find?_eq_none.mp missing vma member
    simpa using this
  unfold MmStruct.lookup at missing
  split at missing
  · split at missing
    · cases missing
    · exact scanned missing
  · exact scanned missing

variable {post : Option Vma → MmState → Prop}

def MmState.setCache (state : MmState) (mm : Nat) (vma : Vma) : MmState :=
  state.setMm mm { state.mms mm with mmapCache := some vma }

theorem callEnds_findVma : CallEnds (findVma mm addr) post failed faulty state ↔
      ((state.mms mm).lookup addr = none → post none state) ∧
        ∀ vma, (state.mms mm).lookup addr = some vma → post (some vma) (state.setCache mm vma) := by
  rw [findVma, callEnds_bind, callEnds_get]
  cases (state.mms mm).lookup addr with
  | none => simp
  | some vma =>
    constructor
    · intro holds
      exact ⟨by simp, fun other same => by cases same; exact holds⟩
    · exact fun holds => holds.2 vma rfl

end Lookup

section Map

variable {addr len vmFlags : Nat} {post : PUnit → MmState → Prop}

theorem callEnds_kmalloc {post : Option Nat → MmState → Prop} :
    CallEnds kmalloc post failed faulty state ↔
      (state.pick = none → (state.phys.swapInitOk = true → faulty .swapOut) ∧
        (state.phys.swapInitOk = false → post none state.deny)) ∧
        ∀ block, state.pick = some block → post (some block) (state.take block) := by
  rw [kmalloc, callEnds_bind, callEnds_get]
  cases state.pick with
  | none => simp
  | some block => simp

def StartFree (list : List Vma) (start : Nat) : Prop := ∀ vma ∈ list, ¬ vma.Contains start

def StartsInside (list : List Vma) (start last : Nat) : Prop :=
  ∃ vma ∈ list, start < vma.vmStart ∧ vma.vmStart < last

/-- All the ways in which `mm_map` can end. -/
theorem mmMap_ends {start last : Nat} (isStart : rounddown addr PGSIZE = start)
    (isLast : roundup (word (addr + len)) PGSIZE = last)
    (ordered : VmasOrdered (state.mms mm).mmapList) (cached : (state.mms mm).Cached)
    (invalid : ¬ UserAccess start last → failed (-E_INVAL) state)
    (taken : UserAccess start last → ∀ vma ∈ (state.mms mm).mmapList, vma.Contains start →
      failed (-E_INVAL) (state.setCache mm vma))
    (short : UserAccess start last → StartFree (state.mms mm).mmapList start →
      state.pick = none → state.phys.swapInitOk = false → failed (-E_NO_MEM) state.deny)
    (starved : UserAccess start last → StartFree (state.mms mm).mmapList start →
      state.pick = none → state.phys.swapInitOk = true → faulty .swapOut)
    (mapped : UserAccess start last → StartFree (state.mms mm).mmapList start →
      ∀ block, state.pick = some block →
        VmaFits ⟨block, start, last, vmFlags⟩ (state.mms mm).mmapList →
        post () ((state.take block).setMm mm ((state.mms mm).link ⟨block, start, last, vmFlags⟩)))
    (overlaps : UserAccess start last → StartFree (state.mms mm).mmapList start →
      state.pick ≠ none → StartsInside (state.mms mm).mmapList start last → faulty .vmaOverlap) :
    CallEnds (mmMap mm addr len vmFlags) post failed faulty state := by
  rw [mmMap]
  simp only [isStart, isLast]
  rw [callEnds_ite]
  refine ⟨fun access => ?_, fun access => invalid access⟩
  rw [callEnds_bind, callEnds_findVma]
  constructor
  · intro missing
    have startFree : StartFree (state.mms mm).mmapList start := lookup_none missing
    rw [mapRange, callEnds_bind, vmaCreate, callEnds_bind, callEnds_kmalloc]
    refine ⟨fun none => ⟨starved access startFree none, short access startFree none⟩, ?_⟩
    intro block picked
    exact insertVmaStruct_ends ordered access.2.1 startFree (mapped access startFree block picked)
      (overlaps access startFree (by simp [picked]))
  intro vma found
  obtain ⟨member, contains⟩ := lookup_some cached found
  have meets : vma.vmStart < last := contains.1.trans_lt access.2.1
  simp only [meets, if_true]
  exact taken access vma member contains

end Map

end UcoreSmp
