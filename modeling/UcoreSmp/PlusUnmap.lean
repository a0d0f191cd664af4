import UcoreSmp.PlusShape

/-!
# Unmapping

The effect of `mm_unmap` and `mm_unmap_keep_pages` on the list: every area that
meets the range is replaced by what `cut` leaves of it, provided that the first
address of the range lies in some area.  Otherwise nothing happens, whatever the
rest of the range meets.
-/

namespace UcoreSmp

open List

namespace Plus

open Vma

open Space

/-- What unmapping a range leaves of an area.  In the middle of an area the part in
front is a new area, without the shared memory object. -/
def cut (start stop : Nat) (vma : Vma) : List Vma :=
  if vma.vmEnd ≤ start ∨ stop ≤ vma.vmStart then [vma]
  else if vma.vmStart < start ∧ stop < vma.vmEnd then
    [{ vma with vmEnd := start, shmem := none, shmemOff := 0 }, vma.resized stop vma.vmEnd]
  else if vma.vmStart < start then [vma.resized vma.vmStart start]
  else if stop < vma.vmEnd then [vma.resized stop vma.vmEnd]
  else []

def wiped (keep : Bool) (start stop : Nat) (pte : Nat → Option Bool) (page : Nat) : Option Bool :=
  if keep = false ∧ start ≤ page * PGSIZE ∧ page * PGSIZE < stop then none else pte page

/-- How many references of a kind an area holds. -/
def Vma.holds (ref : Ref) (vma : Vma) : Int :=
  match ref with
  | .file file => if vma.file = some file then 1 else 0
  | .shmem shmem => if vma.Shared ∧ vma.shmem = some shmem then 1 else 0

def held (ref : Ref) (list : List Vma) : Int := (list.map (holds ref)).sum

/-- What is done to the pages of a range. -/
def Clears (keep : Bool) (clear : Nat → Nat → VmRoutine PUnit) : Prop :=
  ∀ (space : Space) (start stop : Nat) (post : PUnit → Space → Prop) (faulty : VmFault → Prop),
    start % PGSIZE = 0 → stop % PGSIZE = 0 → UserAccess start stop →
    (∀ next : Space, next.core = { space.core with pte := wiped keep start stop space.core.pte } →
      post PUnit.unit next) →
    Ends (clear start stop) post faulty space

theorem unmapRange_clears : Clears false unmapRange := by
  intro space start stop post faulty alignedStart alignedStop access done
  simp only [unmapRange, ends_bind, ends_check, ends_modify]
  refine ⟨fun _ => ⟨fun _ => done _ ?_, fun stuck => absurd access stuck⟩,
    fun stuck => absurd ⟨alignedStart, alignedStop⟩ stuck⟩
  simp only [core, Core.mk.injEq, true_and, and_true]
  funext page
  simp [wiped]

theorem keepPages_clears : Clears true fun _ _ => pure () := by
  intro space start stop post faulty _ _ _ done
  apply done
  have same : wiped true start stop space.core.pte = space.core.pte := by
    funext page
    simp [wiped]
  rw [same]

variable {vma piece : Vma} {clear : Nat → Nat → VmRoutine PUnit} {faulty : VmFault → Prop}
  {start stop a : Nat} {list front back : List Vma} {keep : Bool} {space : Space}

section Cut

variable {ref : Ref}

@[simp]
theorem held_nil : held ref [] = 0 :=
  rfl

@[simp]
theorem held_cons : held ref (vma :: list) = vma.holds ref + held ref list := by
  simp [held]

@[simp]
theorem held_append : held ref (front ++ back) = held ref front + held ref back := by
  simp [held]

@[simp]
theorem held_reverse : held ref list.reverse = held ref list := by
  induction list with
  | nil => rfl
  | cons vma list ih =>
    rw [reverse_cons, held_append, ih, held_cons, held_cons, held_nil]
    omega

theorem Vma.holds_nonneg : 0 ≤ vma.holds ref := by
  cases ref <;> simp only [holds] <;> split <;> decide

theorem held_nonneg : 0 ≤ held ref list := by
  induction list with
  | nil => simp
  | cons vma list ih =>
    exact Int.add_nonneg holds_nonneg ih

@[simp]
theorem Vma.holds_resized : (vma.resized start stop).holds ref = vma.holds ref := by
  cases ref <;> rfl

structure Within (piece vma : Vma) : Prop where
  formed : piece.Formed
  low : vma.vmStart ≤ piece.vmStart
  high : piece.vmEnd ≤ vma.vmEnd

theorem Vma.Formed.resized (formed : vma.Formed) (low : vma.vmStart ≤ start)
    (nonempty : start < stop) (high : stop ≤ vma.vmEnd) (alignedStart : start % PGSIZE = 0)
    (alignedStop : stop % PGSIZE = 0) : Within (vma.resized start stop) vma :=
  ⟨⟨nonempty, alignedStart, alignedStop, formed.low.trans low, high.trans formed.high⟩, low, high⟩

/-- The areas that a list of pieces leaves are in shape. -/
theorem Shape.flatMap {pieces : Vma → List Vma} (shape : Shape list)
    (sorted : ∀ vma ∈ list, Shape (pieces vma))
    (inside : ∀ vma ∈ list, ∀ piece ∈ pieces vma, Within piece vma) :
    Shape (list.flatMap pieces) := by
  induction list with
  | nil => exact Shape.nil
  | cons vma list ih =>
    obtain ⟨-, rest, first⟩ := shape_cons.mp shape
    refine shape_append.mpr ⟨sorted vma (by simp), ih rest ?_ ?_, ?_⟩
    · exact fun other member => sorted other (by simp [member])
    · exact fun other member => inside other (by simp [member])
    intro piece ofVma other ofOther
    obtain ⟨source, member, isPiece⟩ := mem_flatMap.mp ofOther
    exact (inside vma (by simp) piece ofVma).high.trans
      ((first source member).trans (inside source (by simp [member]) other isPiece).low)

theorem cut_outside (member : piece ∈ cut start stop vma) :
    piece.vmEnd ≤ start ∨ stop ≤ piece.vmStart := by
  unfold cut at member
  split_ifs at member with apart <;>
    simp only [mem_cons, not_mem_nil, or_false] at member
  · exact member ▸ apart
  · rcases member with rfl | rfl
    · exact .inl le_rfl
    · exact .inr le_rfl
  · exact .inl (by rw [member]; exact le_rfl)
  · exact .inr (by rw [member]; exact le_rfl)

variable (alignedStart : start % PGSIZE = 0) (alignedStop : stop % PGSIZE = 0)

include alignedStart alignedStop in
theorem cut_inside (formed : vma.Formed) (member : piece ∈ cut start stop vma) :
    Within piece vma := by
  unfold cut at member
  split_ifs at member with apart inner front back
  · rw [mem_singleton] at member
    subst member
    exact ⟨formed, le_rfl, le_rfl⟩
  · rcases mem_cons.mp member with rfl | last
    · exact ⟨⟨inner.1, formed.alignedStart, alignedStart, formed.low, by
        have := formed.high
        show start ≤ USERTOP
        omega⟩, le_rfl, by
        show start ≤ vma.vmEnd
        omega⟩
    · rw [mem_singleton] at last
      subst last
      exact formed.resized (by omega) inner.2 le_rfl alignedStop formed.alignedEnd
  · rw [mem_singleton] at member
    subst member
    exact formed.resized le_rfl front (by omega) formed.alignedStart alignedStart
  · rw [mem_singleton] at member
    subst member
    exact formed.resized (by omega) back le_rfl alignedStop formed.alignedEnd
  · cases member

include alignedStart alignedStop in
theorem cut_shape (nonempty : start < stop) (formed : vma.Formed) : Shape (cut start stop vma) := by
  refine ⟨?_, fun piece member => (cut_inside alignedStart alignedStop formed member).formed⟩
  unfold cut
  split_ifs
  all_goals simp only [pairwise_cons, not_mem_nil, false_implies, implies_true,
    List.Pairwise.nil, and_self, mem_singleton, and_true]
  rintro _ rfl
  exact nonempty.le

include alignedStart alignedStop in
theorem Shape.cut (shape : Shape list) (nonempty : start < stop) :
    Shape (list.flatMap (cut start stop)) :=
  shape.flatMap (fun vma member => cut_shape alignedStart alignedStop nonempty
    (shape.formed vma member)) fun vma member _ =>
      cut_inside alignedStart alignedStop (shape.formed vma member)

theorem cut_apart (apart : vma.vmEnd ≤ start ∨ stop ≤ vma.vmStart) : cut start stop vma = [vma] :=
  if_pos apart

theorem flatMap_cut_apart (apart : ∀ vma ∈ list, vma.vmEnd ≤ start ∨ stop ≤ vma.vmStart) :
    list.flatMap (cut start stop) = list := by
  induction list with
  | nil => rfl
  | cons vma list ih =>
    rw [flatMap_cons, cut_apart (apart vma (by simp)),
      ih fun other member => apart other (by simp [member])]
    rfl

end Cut

section Loops

variable {post : PUnit → Space → Prop} {part : List Vma} {core : Core}

/-- The first loop removes the areas that start before the end of the range. -/
theorem takeVictims_ends {post : List Vma → Space → Prop}
    (shape : Shape (front ++ part)) (list : space.core.list = front ++ part)
    (done : ∀ victims rest cache (next : Space), part = victims ++ rest →
      (∀ vma ∈ victims, vma.vmStart < stop) → (∀ vma ∈ rest, stop ≤ vma.vmStart) →
      (∀ vma, cache = some vma → space.core.cache = some vma ∧ vma ∉ victims) →
      next.core = { space.core with list := front ++ rest, cache := cache } →
      post victims next) :
    Ends (takeVictims stop part) post faulty space := by
  induction part generalizing space post with
  | nil =>
    refine done [] [] space.core.cache space rfl (by simp) (by simp) (by simp) ?_
    rw [← list]
  | cons vma part ih =>
    obtain ⟨inFront, rest, across⟩ := shape_append.mp shape
    obtain ⟨formed, inPart, later⟩ := shape_cons.mp rest
    have notFront : vma ∉ front := fun member => by
      have := across vma member vma (by simp)
      have := formed.nonempty
      omega
    simp only [takeVictims, ends_ite, ends_bind, ends_pure]
    constructor
    · intro early
      have erased : space.mm.mmapList.erase vma = front ++ part := by
        rw [show space.mm.mmapList = _ from list, erase_append_right _ notFront, erase_cons_head]
      refine ih ?_ erased ?_
      · exact shape_append.mpr ⟨inFront, inPart, fun a inA b inB => across a inA b (by simp [inB])⟩
      intro victims rest cache next split starts ends caches core
      refine done (vma :: victims) rest cache next (by rw [split]; rfl)
        (forall_mem_cons.mpr ⟨early, starts⟩) ends ?_ core
      intro cachedVma isCached
      obtain ⟨wasCached, notVictim⟩ := caches cachedVma isCached
      simp only [Space.core] at wasCached ⊢
      split_ifs at wasCached with same
      exact ⟨wasCached, by
        rw [mem_cons, not_or]
        refine ⟨?_, notVictim⟩
        rintro rfl
        exact same wasCached⟩
    intro late
    refine done [] (vma :: part) space.core.cache space rfl (by simp) ?_ (by simp) (by rw [← list])
    intro other member
    rcases mem_cons.mp member with rfl | inTail
    · omega
    have := later other inTail
    have := formed.nonempty
    omega

/-- `vma_destroy` gives back the reference to the shared memory object. -/
theorem vmaDestroy_ends (crash : faulty .nullPointer) (done : ∀ (next : Space) refs destroyed,
      (∀ file, refs (.file file) = space.core.refs (.file file)) →
      next.core = { space.core with refs := refs, destroyed := destroyed } →
      post () next) :
    Ends (vmaDestroy vma) post faulty space := by
  rw [vmaDestroy, ends_ite]
  constructor
  · intro shared
    cases object : vma.shmem with
    | none => exact crash
    | some own =>
      have fileRefs : ∀ file, (space.setRef (.shmem own)
          (space.world.refs (.shmem own) - 1)).core.refs (.file file) =
          space.core.refs (.file file) := by
        simp [setRef, core]
      simp only [ends_bind, ends_modify, ends_get, ends_ite, ends_set, ends_pure]
      exact ⟨fun _ => done _ _ _ fileRefs rfl, fun _ => done _ _ _ fileRefs rfl⟩
  · exact fun _ => done space _ _ (fun _ => rfl) rfl

/-- `vma_unmapfile` gives back the reference to the file. -/
theorem vmaUnmapfile_ends
    (files : ¬ faulty .assertion → ∀ file, vma.holds (.file file) ≤ space.core.refs (.file file))
    (done : ∀ (next : Space) refs,
      (∀ file, refs (.file file) = space.core.refs (.file file) - vma.holds (.file file)) →
      next.core = { space.core with refs := refs } → post () next) :
    Ends (vmaUnmapfile vma) post faulty space := by
  unfold vmaUnmapfile
  cases backing : vma.file with
  | none => exact done space space.core.refs (fun _ => by simp [holds, backing]) rfl
  | some own =>
    simp only [filemapRelease, ends_bind, ends_get, ends_check, ends_set]
    refine ⟨fun _ => done _ _ ?_ rfl, fun stuck => ?_⟩
    · intro file
      by_cases same : own = file
      · subst same
        simp [setRef, core, holds, backing]
      · simp [setRef, core, holds, backing, same, Ne.symm same]
    by_contra silent
    have positive := files silent own
    simp only [holds, backing, if_true] at positive
    exact stuck (Int.lt_of_lt_of_le Int.one_pos positive)

/-- The effect of the second loop on the removed areas `gone`, given in the order of
the loop, between the other areas. -/
structure Freed (keep : Bool) (start stop : Nat) (gone front back : List Vma)
    (core next : Core) : Prop where
  list : next.list = front ++ (gone.reverse.flatMap (cut start stop) ++ back)
  pte : ∀ page, next.pte page = if keep = false ∧ start ≤ page * PGSIZE ∧ page * PGSIZE < stop ∧
    (∃ vma ∈ gone, vma.Contains (page * PGSIZE)) then none else core.pte page
  refs : ∀ file, next.refs (.file file) = core.refs (.file file) - held (.file file) gone +
    held (.file file) (gone.reverse.flatMap (cut start stop))
  cache : next.cache = core.cache
  brk : next.brkStart = core.brkStart ∧ next.brk = core.brk

theorem Freed.nil (list : core.list = front ++ back) :
    Freed keep start stop [] front back core core where
  list := list
  pte := by simp
  refs := by simp
  cache := rfl
  brk := ⟨rfl, rfl⟩

variable {gone : List Vma}

theorem Freed.cons {middle next : Core} (first : Freed keep start stop [vma] front back core middle)
    (rest : Freed keep start stop gone front (cut start stop vma ++ back) middle next) :
    Freed keep start stop (vma :: gone) front back core next where
  list := by simp [rest.list]
  pte := by
    intro page
    rw [rest.pte, first.pte]
    by_cases later : keep = false ∧ start ≤ page * PGSIZE ∧ page * PGSIZE < stop ∧
        ∃ vma ∈ gone, vma.Contains (page * PGSIZE)
    · rw [if_pos later, if_pos]
      obtain ⟨drop, low, high, other, member, here⟩ := later
      exact ⟨drop, low, high, other, by simp [member], here⟩
    rw [if_neg later]
    refine if_congr ?_ rfl rfl
    constructor
    · rintro ⟨drop, low, high, other, member, here⟩
      exact ⟨drop, low, high, other, by simp [mem_singleton.mp member], here⟩
    rintro ⟨drop, low, high, other, member, here⟩
    rcases mem_cons.mp member with rfl | inGone
    · exact ⟨drop, low, high, other, by simp, here⟩
    · exact absurd ⟨drop, low, high, other, inGone, here⟩ later
  refs := by
    intro file
    have one := first.refs file
    have more := rest.refs file
    simp only [reverse_cons, flatMap_append, held_append, held_cons, held_nil,
      reverse_nil, nil_append, flatMap_cons, flatMap_nil,
      append_nil] at one ⊢
    omega
  cache := rest.cache.trans first.cache
  brk := ⟨rest.brk.1.trans first.brk.1, rest.brk.2.trans first.brk.2⟩

/-- An area may be replaced by pieces of it. -/
theorem Shape.substitute {pieces : List Vma} (shape : Shape (front ++ vma :: back))
    (inPieces : Shape pieces) (within : ∀ piece ∈ pieces, Within piece vma) :
    Shape (front ++ (pieces ++ back)) := by
  obtain ⟨inFront, rest, across⟩ := shape_append.mp shape
  obtain ⟨formed, inBack, later⟩ := shape_cons.mp rest
  refine shape_append.mpr ⟨inFront, shape_append.mpr ⟨inPieces, inBack, ?_⟩, ?_⟩
  · exact fun piece member other inTail => (within piece member).high.trans (later other inTail)
  intro other member third inRest
  rcases mem_append.mp inRest with isPiece | inTail
  · exact (across other member vma (by simp)).trans (within third isPiece).low
  · exact across other member third (by simp [inTail])

theorem Shape.replace (shape : Shape (front ++ vma :: back))
    (within : Within piece vma) : Shape (front ++ piece :: back) :=
  shape.substitute ⟨pairwise_singleton _ _, by simpa using within.formed⟩ (by simpa using within)

theorem Shape.sublist (shape : Shape list) (sub : part.Sublist list) : Shape part :=
  ⟨shape.ordered.sublist sub, fun vma member => shape.formed vma (sub.subset member)⟩

theorem checkResize_ends {from_ to_ : Nat} (within : Within (vma.resized from_ to_) vma)
    (done : post () space) : Ends (checkResize vma from_ to_) post faulty space := by
  obtain ⟨⟨nonempty, alignedStart, alignedEnd, -, -⟩, low, high⟩ := within
  simp only [checkResize, ends_bind, ends_check]
  exact ⟨fun _ => ⟨fun _ => done, fun stuck => absurd ⟨low, nonempty, high⟩ stuck⟩,
    fun stuck => absurd ⟨alignedStart, alignedEnd⟩ stuck⟩

/-- The pages of a removed area that are cleared are those in the range. -/
theorem wiped_eq {low high page : Nat} {pte : Nat → Option Bool}
    (same : ∀ addr, low ≤ addr ∧ addr < high ↔ start ≤ addr ∧ addr < stop ∧ vma.Contains addr) :
    wiped keep low high pte page = if keep = false ∧ start ≤ page * PGSIZE ∧ page * PGSIZE <
      stop ∧ (∃ other ∈ [vma], other.Contains (page * PGSIZE)) then none else pte page := by
  refine if_congr (and_congr_right fun _ => ?_) rfl rfl
  rw [same]
  simp

/-- One round of the second loop. -/
theorem freeVictim_ends (clears : Clears keep clear) (alignedStart : start % PGSIZE = 0)
    (alignedStop : stop % PGSIZE = 0) (shape : Shape (front ++ vma :: back))
    (list : space.core.list = front ++ back) (early : vma.vmStart < stop) (late : start < vma.vmEnd)
    (ending : start ≤ vma.vmStart ∨ vma.vmEnd ≤ stop)
    (files : ¬ faulty .assertion → ∀ file, vma.holds (.file file) ≤ space.core.refs (.file file))
    (crash : faulty .nullPointer)
    (done : ∀ next : Space, Freed keep start stop [vma] front back space.core next.core →
      post () next) :
    Ends (freeVictim clear start stop vma) post faulty space := by
  have formed := shape.formed vma (by simp)
  have low := formed.low
  have high := formed.high
  simp only [freeVictim, ends_ite, ends_bind]
  refine ⟨fun inFront => ?_, fun notFront => ⟨fun inBack => ?_, fun notBack => ?_⟩⟩
  · have within := formed.resized le_rfl inFront late.le formed.alignedStart alignedStart
    have left : cut start stop vma = [vma.resized vma.vmStart start] := by
      rw [cut, if_neg (by omega), if_neg (by omega), if_pos inFront]
    apply checkResize_ends within
    apply insertVmaStruct_ends list (shape.replace within)
    intro put putCore
    apply clears put start vma.vmEnd post faulty alignedStart formed.alignedEnd
      ⟨by omega, late, high⟩
    intro next core
    rw [putCore] at core
    apply done
    rw [core]
    refine ⟨by simp [left], fun page => wiped_eq ?_, by simp [left], rfl, ⟨rfl, rfl⟩⟩
    intro addr
    unfold Vma.Contains
    omega
  · have within := formed.resized early.le inBack le_rfl alignedStop formed.alignedEnd
    have right : cut start stop vma = [vma.resized stop vma.vmEnd] := by
      rw [cut, if_neg (by omega), if_neg (by omega), if_neg notFront, if_pos inBack]
    apply checkResize_ends within
    apply insertVmaStruct_ends list (shape.replace within)
    intro put putCore
    apply clears put vma.vmStart stop post faulty formed.alignedStart alignedStop
      ⟨low, early, by omega⟩
    intro next core
    rw [putCore] at core
    apply done
    rw [core]
    refine ⟨by simp [right], fun page => wiped_eq ?_, by simp [right], rfl, ⟨rfl, rfl⟩⟩
    intro addr
    unfold Vma.Contains
    omega
  have gone : cut start stop vma = [] := by
    rw [cut, if_neg (by omega), if_neg (by omega), if_neg notFront, if_neg notBack]
  apply vmaUnmapfile_ends files
  intro unmapped refs fileRefs unmappedCore
  apply vmaDestroy_ends crash
  intro dropped refs' destroyed fileRefs' droppedCore
  rw [unmappedCore] at droppedCore fileRefs'
  apply clears dropped vma.vmStart vma.vmEnd post faulty formed.alignedStart formed.alignedEnd
    ⟨low, formed.nonempty, high⟩
  intro next core
  rw [droppedCore] at core
  apply done
  rw [core]
  refine ⟨by simpa [gone] using list, fun page => wiped_eq ?_, ?_, rfl, ⟨rfl, rfl⟩⟩
  · intro addr
    unfold Vma.Contains
    omega
  · simp [gone, fileRefs', fileRefs]

theorem freeVictims_ends (clears : Clears keep clear)
    (alignedStart : start % PGSIZE = 0) (alignedStop : stop % PGSIZE = 0) (range : start < stop)
    (shape : Shape (front ++ (gone.reverse ++ back))) (list : space.core.list = front ++ back)
    (cuts : ∀ vma ∈ gone, vma.vmStart < stop ∧ start < vma.vmEnd ∧
      (start ≤ vma.vmStart ∨ vma.vmEnd ≤ stop))
    (files : ¬ faulty .assertion → ∀ file, held (.file file) gone ≤ space.core.refs (.file file))
    (crash : faulty .nullPointer)
    (done : ∀ next : Space, Freed keep start stop gone front back space.core next.core →
      post () next) :
    Ends (freeVictims clear start stop gone) post faulty space := by
  induction gone generalizing space back with
  | nil => exact done space (Freed.nil list)
  | cons vma gone ih =>
    obtain ⟨early, late, ending⟩ := cuts vma (by simp)
    rw [reverse_cons, append_assoc, singleton_append] at shape
    rw [freeVictims, ends_bind]
    apply freeVictim_ends clears alignedStart alignedStop _ list early late ending _ crash
    · intro next first
      have formed := shape.formed vma (by simp)
      apply ih
      · rw [← append_assoc] at shape ⊢
        exact shape.substitute (cut_shape alignedStart alignedStop range formed)
          fun piece => cut_inside alignedStart alignedStop formed
      · simpa using first.list
      · exact fun other member => cuts other (by simp [member])
      · intro silent file
        have enough := files silent file
        have refs := first.refs file
        have some : 0 ≤ held (.file file) (([vma].reverse).flatMap (cut start stop)) := held_nonneg
        simp only [held_cons, held_nil] at enough refs
        omega
      · exact fun last rest => done last (first.cons rest)
    · exact shape.sublist ((List.Sublist.refl _).append (sublist_append_right _ _))
    intro silent file
    have enough := files silent file
    have some : 0 ≤ held (.file file) gone := held_nonneg
    rw [held_cons] at enough
    omega

end Loops

/-- The range of a call was cut out of the areas. -/
structure Cut (keep : Bool) (start stop : Nat) (core next : Core) : Prop where
  list : next.list = core.list.flatMap (cut start stop)
  pte : ∀ page, next.pte page = if keep = false ∧ start ≤ page * PGSIZE ∧ page * PGSIZE < stop ∧
    (∃ vma ∈ core.list, vma.Contains (page * PGSIZE)) then none else core.pte page
  refs : ∀ file, next.refs (.file file) - held (.file file) next.list =
    core.refs (.file file) - held (.file file) core.list
  sound : next.Sound
  brk : next.brkStart = core.brkStart ∧ next.brk = core.brk

theorem roundDown_aligned (a : Nat) : roundDown a % PGSIZE = 0 := by
  rw [← Nat.dvd_iff_mod_eq_zero]
  exact Nat.dvd_sub_mod a

theorem roundUp_aligned (a : Nat) : roundUp a % PGSIZE = 0 :=
  roundDown_aligned _

theorem roundDown_of_aligned (aligned : a % PGSIZE = 0) : roundDown a = a := by
  rw [roundDown, aligned, Nat.sub_zero]

theorem roundUp_of_aligned (aligned : a % PGSIZE = 0) (small : a < 2 ^ 64) :
    roundUp (word a) = a := by
  unfold PGSIZE at aligned
  simp only [roundUp, roundDown, word, PGSIZE]
  omega

section Unmap

variable {post : Int → Space → Prop}

/-- Writing to an area of the list, and to the cached area if it is that one. -/
theorem writeVma_ends {written : Vma} (sound : space.core.Sound)
    (list : space.core.list = front ++ vma :: back) {post : PUnit → Space → Prop}
    (done : ∀ (next : Space) cache,
      next.core = { space.core with list := front ++ written :: back, cache := cache } →
      (∀ other, cache = some other → other ∈ front ++ written :: back) → post () next) :
    Ends (writeVma vma written) post faulty space := by
  have shape := sound.shape
  have nodup := shape.nodup
  rw [list, nodup_append, nodup_cons] at nodup
  obtain ⟨-, ⟨notBack, -⟩, apart⟩ := nodup
  have kept : ∀ part : List Vma, vma ∉ part →
      part.map (fun other => if other = vma then written else other) = part := by
    intro part outside
    refine (map_congr_left ?_).trans (map_id part)
    intro other member
    have different : other ≠ vma := fun same => outside (same ▸ member)
    simp [different]
  have replaced : space.mm.mmapList.map (fun other => if other = vma then written else other) =
      front ++ written :: back := by
    rw [show space.mm.mmapList = _ from list, map_append, map_cons, if_pos rfl,
      kept front fun member => apart vma member vma (by simp) rfl, kept back notBack]
  rw [writeVma, ends_modify]
  refine done _ _ (by rw [core, replaced]; rfl) ?_
  intro other isCached
  split_ifs at isCached with same
  · cases isCached
    simp
  have member := sound.cached other isCached
  rw [list, mem_append, mem_cons] at member
  rcases member with inFront | rfl | inBack
  · simp [inFront]
  · exact absurd isCached same
  · simp [inBack]

theorem vmaCopymapfile_ends {dest : Vma} {post : Vma → Space → Prop} (done : ∀ (next : Space) refs,
      (∀ file, refs (.file file) = space.core.refs (.file file) + vma.holds (.file file)) →
      next.core = { space.core with refs := refs } →
      post { dest with file := vma.file, offset := if vma.file = none then vma.offset else
        vma.offset + (dest.vmStart - vma.vmStart) } next) :
    Ends (vmaCopymapfile dest vma) post faulty space := by
  unfold vmaCopymapfile
  cases backing : vma.file with
  | none =>
    rw [backing] at done
    exact done space space.core.refs (by simp [holds, backing]) rfl
  | some own =>
    rw [backing] at done
    refine done _ _ ?_ rfl
    intro file
    by_cases same : own = file
    · subst same
      simp [setRef, core, holds, backing]
    · simp [setRef, core, holds, backing, same, Ne.symm same]

variable (clears : Clears keep clear) (sound : space.core.Sound) (files : ¬ faulty .assertion →
    ∀ file, held (.file file) space.core.list ≤ space.core.refs (.file file))
  (crash : faulty .nullPointer)

include clears sound

section

variable (alignedStart : start % PGSIZE = 0) (alignedStop : stop % PGSIZE = 0)
  (range : start < stop)
  (done : ∀ next : Space, Cut keep start stop space.core next.core → post 0 next)

include alignedStart alignedStop range done

/-- Cutting a range out of the middle of an area. -/
theorem unmapInner_ends (list : space.core.list = front ++ vma :: back) (low : vma.vmStart < start)
    (high : stop < vma.vmEnd) :
    Ends (do
      let nvma ← vmaCopymapfile ⟨vma.vmStart, start, vma.vmFlags, none, 0, none, 0⟩ vma
      checkResize vma stop vma.vmEnd
      writeVma vma (vma.resized stop vma.vmEnd)
      insertVmaStruct nvma
      clear start stop
      pure 0) post faulty space := by
  have shape := sound.shape
  rw [list] at shape
  have formed := shape.formed vma (by simp)
  have pieces : cut start stop vma =
      [{ vma with vmEnd := start, shmem := none, shmemOff := 0 }, vma.resized stop vma.vmEnd] := by
    rw [cut, if_neg (by omega), if_pos ⟨low, high⟩]
  have whole : Shape (front ++ (cut start stop vma ++ back)) :=
    shape.substitute (cut_shape alignedStart alignedStop range formed)
      fun piece => cut_inside alignedStart alignedStop formed
  obtain ⟨-, rest, across⟩ := shape_append.mp shape
  obtain ⟨-, -, later⟩ := shape_cons.mp rest
  have cutList : space.core.list.flatMap (cut start stop) =
      front ++ (cut start stop vma ++ back) := by
    have inFront : front.flatMap (cut start stop) = front :=
      flatMap_cut_apart fun other member => by
      have := across other member vma (by simp)
      omega
    have inBack : back.flatMap (cut start stop) = back := flatMap_cut_apart fun other member => by
      have := later other member
      omega
    rw [list, flatMap_append, flatMap_cons, inFront, inBack]
  rw [ends_bind]
  apply vmaCopymapfile_ends
  intro copied refs refsEq copiedCore
  rw [ends_bind]
  apply checkResize_ends (formed.resized (by omega) high le_rfl alignedStop formed.alignedEnd)
  rw [ends_bind]
  have copiedSound : copied.core.Sound := by
    rw [copiedCore]
    exact ⟨sound.shape, sound.cached⟩
  apply writeVma_ends copiedSound (by rw [copiedCore]; exact list)
  intro written cache writtenCore caches
  rw [ends_bind]
  rw [pieces] at whole cutList
  have newArea : ({ vma with vmEnd := start, shmem := none, shmemOff := 0 } : Vma) =
      { vmStart := vma.vmStart, vmEnd := start, vmFlags := vma.vmFlags, shmem := none,
        shmemOff := 0, file := vma.file, offset := if vma.file = none then vma.offset else
          vma.offset + (vma.vmStart - vma.vmStart) } := by
    simp only [Int.sub_self, Int.add_zero, ite_self]
  rw [newArea, cons_append, singleton_append] at whole cutList
  apply insertVmaStruct_ends (by rw [writtenCore]) whole
  intro put putCore
  rw [ends_bind]
  apply clears put start stop _ _ alignedStart alignedStop
    ⟨formed.low.trans low.le, range, high.le.trans formed.high⟩
  intro next core
  rw [putCore, writtenCore, copiedCore] at core
  apply done
  rw [core]
  refine ⟨cutList.symm, ?_, ?_, ⟨whole, ?_⟩, ⟨rfl, rfl⟩⟩
  · intro page
    refine if_congr (and_congr_right fun _ => and_congr_right fun above => ?_) rfl rfl
    constructor
    · intro below
      exact ⟨below, vma, by rw [list]; simp, by omega, by omega⟩
    · exact And.left
  · intro file
    dsimp only
    rw [list, refsEq]
    simp only [held_append, held_cons, holds_resized]
    simp only [holds]
    omega
  intro other isCached
  have member := caches other isCached
  rw [mem_append, mem_cons] at member
  rcases member with inFront | rfl | inBack
  · simp [inFront]
  · simp
  · simp [inBack]

include files crash

/-- Cutting a range that reaches the border of its first area. -/
theorem unmapOuter_ends (list : space.core.list = front ++ vma :: back) (here : vma.Contains start)
    (border : ¬ (vma.vmStart < start ∧ stop < vma.vmEnd)) :
    Ends (do
      let victims ← takeVictims stop (space.mm.mmapList.dropWhile fun other => decide (other ≠ vma))
      freeVictims clear start stop victims.reverse
      pure 0) post faulty space := by
  have shape := sound.shape
  rw [list] at shape
  obtain ⟨-, rest, across⟩ := shape_append.mp shape
  obtain ⟨formed, -, later⟩ := shape_cons.mp rest
  obtain ⟨low, high⟩ := here
  have before : ∀ other ∈ front, other.vmEnd ≤ start := fun other member => by
    have := across other member vma (by simp)
    omega
  have part : (space.mm.mmapList.dropWhile fun other => decide (other ≠ vma)) = vma :: back := by
    rw [show space.mm.mmapList = _ from list, dropWhile_append_of_pos]
    · simp
    intro other member
    simp only [decide_eq_true_eq]
    rintro rfl
    have := before other member
    omega
  rw [part, ends_bind]
  apply takeVictims_ends shape list
  intro victims others cache taken split starts ends caches takenCore
  rw [split] at shape list rest
  have touched : ∀ other ∈ victims, other.vmStart < stop ∧ start < other.vmEnd ∧
      (start ≤ other.vmStart ∨ other.vmEnd ≤ stop) := by
    intro other member
    have inPart : other ∈ vma :: back := by
      rw [split]
      simp [member]
    refine ⟨starts other member, ?_⟩
    rcases mem_cons.mp inPart with rfl | inBack
    · omega
    have := later other inBack
    have := (shape.formed other (by simp [member])).nonempty
    omega
  have cutList : space.core.list.flatMap (cut start stop) =
      front ++ (victims.flatMap (cut start stop) ++ others) := by
    rw [list, flatMap_append, flatMap_append,
      flatMap_cut_apart fun other member => .inl (before other member),
      flatMap_cut_apart fun other member => .inr (ends other member)]
  rw [ends_bind]
  apply freeVictims_ends clears alignedStart alignedStop range
  · rw [reverse_reverse]
    exact shape
  · rw [takenCore]
  · exact fun other member => touched other (mem_reverse.mp member)
  · intro silent file
    have enough := files silent file
    have inFront : 0 ≤ held (.file file) front := held_nonneg
    have inOthers : 0 ≤ held (.file file) others := held_nonneg
    rw [list] at enough
    simp only [held_append, held_reverse, takenCore] at enough ⊢
    omega
  · exact crash
  intro next freed
  rw [takenCore] at freed
  obtain ⟨nextList, ptes, refs, caches', brk⟩ := freed
  rw [reverse_reverse] at nextList refs
  apply done
  refine ⟨by rw [nextList, cutList], ?_, ?_, ⟨?_, ?_⟩, brk⟩
  · intro page
    rw [ptes page]
    refine if_congr (and_congr_right fun _ => and_congr_right fun above =>
      and_congr_right fun below => ?_) rfl rfl
    constructor
    · rintro ⟨other, member, inside⟩
      exact ⟨other, by rw [list]; simp [mem_reverse.mp member], inside⟩
    rintro ⟨other, member, inside⟩
    rw [list, mem_append, mem_append] at member
    rcases member with inFront | isVictim | inOthers
    · have := before other inFront
      have := inside.2
      omega
    · exact ⟨other, by simp [isVictim], inside⟩
    · have := ends other inOthers
      have := inside.1
      omega
  · intro file
    rw [refs, nextList, list]
    simp only [held_append, held_reverse]
    omega
  · rw [nextList, ← cutList]
    exact sound.shape.cut alignedStart alignedStop range
  intro other isCached
  rw [caches'] at isCached
  obtain ⟨wasCached, notVictim⟩ := caches other isCached
  have member := sound.cached other wasCached
  rw [list, mem_append, mem_append] at member
  rw [nextList]
  rcases member with inFront | isVictim | inOthers
  · simp [inFront]
  · exact absurd isVictim notVictim
  · simp [inOthers]

theorem unmapFrom_ends (member : vma ∈ space.core.list) (here : vma.Contains start)
    (denied : ∀ next : Space, next.core = space.core → post (-E_NO_MEM) next) :
    Ends (unmapFrom clear start stop vma) post faulty space := by
  obtain ⟨front, back, list⟩ := append_of_mem member
  simp only [unmapFrom, ends_ite]
  refine ⟨fun above => ?_, fun _ => ⟨fun inner => ?_, fun border => ?_⟩⟩
  · obtain ⟨low, -⟩ := here
    omega
  · rw [ends_bind]
    apply vmaCreate_ends _ denied
    intro made same
    rw [← same] at sound list done
    exact unmapInner_ends clears sound alignedStart alignedStop range done list inner.1 inner.2
  · exact unmapOuter_ends clears sound files crash alignedStart alignedStop range done list here
      border

end

include files crash

/-- `mm_unmap` and `mm_unmap_keep_pages`: the call is refused, or the first address
of the range is in no area, or the range is cut out. -/
theorem unmapAreas_ends {addr len : Nat}
    (refused : ∀ (next : Space) (result : Int) cache, result ≠ 0 → next.core.Sound →
      next.core = { space.core with cache := cache } → post result next)
    (missed : UserAccess (roundDown addr) (roundUp (word (addr + len))) →
      (∀ vma ∈ space.core.list, ¬ vma.Contains (roundDown addr)) → post 0 space)
    (done : UserAccess (roundDown addr) (roundUp (word (addr + len))) →
      (∃ vma ∈ space.core.list, vma.Contains (roundDown addr)) →
      ∀ next : Space, Cut keep (roundDown addr) (roundUp (word (addr + len))) space.core next.core →
        post 0 next) :
    Ends (unmapAreas clear addr len) post faulty space := by
  have alignedStart := roundDown_aligned addr
  have alignedStop := roundUp_aligned (word (addr + len))
  simp only [unmapAreas]
  generalize roundUp (word (addr + len)) = stop at *
  rw [ends_ite]
  refine ⟨fun _ => refused space _ space.core.cache (by decide) sound rfl, fun access => ?_⟩
  rw [not_not] at access
  rw [ends_bind]
  apply findVma_ends sound
  · intro vma member here found foundCore
    have foundSound : found.core.Sound := by
      rw [foundCore]
      refine ⟨sound.shape, ?_⟩
      intro other isCached
      cases isCached
      exact member
    have foundMember : vma ∈ found.core.list := by
      rw [foundCore]
      exact member
    apply unmapFrom_ends clears foundSound _ crash alignedStart alignedStop access.2.1 _ foundMember
      here
    · intro next same
      refine refused next _ (some vma) (by decide) ?_ (by rw [same, foundCore])
      rw [same]
      exact foundSound
    · intro silent file
      rw [foundCore]
      exact files silent file
    intro next cuts
    rw [foundCore] at cuts
    exact done access ⟨vma, member, here⟩ next ⟨cuts.list, cuts.pte, cuts.refs, cuts.sound,
      cuts.brk⟩
  · exact fun absent => missed access absent

end Unmap

end Plus

end UcoreSmp
