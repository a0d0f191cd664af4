import UcoreSmp.PlusCalls
import UcoreSmp.PlusUnmap

/-!
# What the calls keep

In a settled address space the areas are sound, the end of the heap is page
aligned, and every mapped file has a reference for each area that maps it.  The
routines below the system calls keep that, provided that a new area meets no
other one.
-/

namespace UcoreSmp

open List

namespace Plus

/-- Sound areas, an aligned heap and enough references to the mapped files. -/
structure Settled (core : Core) : Prop where
  sound : core.Sound
  aligned : core.brk % PGSIZE = 0
  files : ∀ file, held (.file file) core.list ≤ core.refs (.file file)

/-- No area meets the range. -/
def Free (start stop : Nat) (list : List Vma) : Prop :=
  ∀ vma ∈ list, vma.vmEnd ≤ start ∨ stop ≤ vma.vmStart

/-- The search at the first address of the range says whether an area meets it. -/
def Seen (start stop : Nat) (list : List Vma) : Prop :=
  (∃ vma ∈ list, vma.Contains start) ∨ Free start stop list

variable {front back : List Vma} {vma : Vma}

section Areas

variable {list : List Vma} {start stop len : Nat}

/-- There is a place for an area that meets no other one. -/
theorem Shape.insert (shape : Shape list) (formed : vma.Formed)
    (free : Free vma.vmStart vma.vmEnd list) :
    ∃ front back, list = front ++ back ∧ Shape (front ++ vma :: back) := by
  induction list with
  | nil => exact ⟨[], [], rfl, shape_cons.mpr ⟨formed, Shape.nil, by simp⟩⟩
  | cons head tail ih =>
    obtain ⟨headFormed, rest, first⟩ := shape_cons.mp shape
    have nonempty := headFormed.nonempty
    rcases free head (by simp) with before | behind
    · obtain ⟨front, back, split, whole⟩ := ih rest fun other member => free other
        (by simp [member])
      refine ⟨head :: front, back, by rw [split]; rfl, shape_cons.mpr ⟨headFormed, whole, ?_⟩⟩
      intro other member
      rcases mem_append.mp member with inFront | inRest
      · exact first other (by simp [split, inFront])
      rcases mem_cons.mp inRest with rfl | inBack
      · exact before
      · exact first other (by simp [split, inBack])
    refine ⟨[], head :: tail, rfl, shape_cons.mpr ⟨formed, shape, ?_⟩⟩
    intro other member
    rcases mem_cons.mp member with rfl | inTail
    · exact behind
    · have := first other inTail
      omega

/-- Where a range of a length fits between the lowest user address and `top` and
meets no area. -/
def gaps (areas : List Vma) (len top : Nat) : Set Nat :=
  {start | USERBASE ≤ start ∧ start + len ≤ top ∧ Free start (start + len) areas}

/-- The gaps below an area end before it starts. -/
theorem gaps_cons {areas : List Vma} (low : Nat) (above : start < vma.vmEnd) (lower : low ≤ start)
    (before : low + len ≤ vma.vmStart) (tight : low = start ∨ low + len = vma.vmStart) :
    gaps (vma :: areas) len (start + len) = gaps areas len (low + len) := by
  ext other
  simp only [gaps, Free, Set.mem_ofPred_eq, forall_mem_cons]
  constructor
  · rintro ⟨high, below, here, free⟩
    exact ⟨high, by omega, free⟩
  · rintro ⟨high, below, free⟩
    exact ⟨high, by omega, by omega, free⟩

/-- The loop of `get_unmapped_area` finds the highest gap from `start` down. -/
theorem unmappedBelow_greatest {areas : List Vma}
    (inside : ∀ vma ∈ areas, USERBASE ≤ vma.vmStart ∧ vma.vmStart < vma.vmEnd)
    (ordered : areas.Pairwise fun vma other => other.vmEnd ≤ vma.vmStart) :
    (unmappedBelow len start areas = 0 ∧ gaps areas len (start + len) = ∅) ∨
      IsGreatest (gaps areas len (start + len)) (unmappedBelow len start areas) := by
  induction areas generalizing start with
  | nil =>
    unfold unmappedBelow
    split_ifs with high
    · exact .inr ⟨⟨high, le_rfl, by simp [Free]⟩, fun other gap => by have := gap.2.1; omega⟩
    exact .inl ⟨rfl, Set.eq_empty_of_forall_notMem fun other gap => by
      have := gap.2.1
      have := gap.1
      omega⟩
  | cons vma rest ih =>
    obtain ⟨first, others⟩ := pairwise_cons.mp ordered
    obtain ⟨⟨low, nonempty⟩, restInside⟩ := forall_mem_cons.mp inside
    unfold unmappedBelow
    split_ifs with behind meets small
    · refine .inr ⟨⟨by omega, le_rfl, forall_mem_cons.mpr ⟨.inl behind, ?_⟩⟩, fun other gap => ?_⟩
      · intro other member
        have := first other member
        omega
      · have := gap.2.1
        omega
    · refine .inl ⟨rfl, Set.eq_empty_of_forall_notMem ?_⟩
      rintro other ⟨high, below, free⟩
      have := free vma (by simp)
      unfold USERBASE at high
      omega
    · rw [gaps_cons (vma.vmStart - len) (by omega) (by omega) (by omega) (by omega)]
      exact ih restInside others
    · rw [gaps_cons start (by omega) le_rfl (by omega) (.inl rfl)]
      exact ih restInside others

/-- `get_unmapped_area` returns the highest gap of user space, and 0 if there is no
gap. -/
theorem getUnmappedArea_highest (mm : Mm) (len : Nat)
    (ordered : mm.mmapList.Pairwise fun vma other => vma.vmEnd ≤ other.vmStart)
    (inside : ∀ vma ∈ mm.mmapList, UserAccess vma.vmStart vma.vmEnd) (positive : 0 < len) :
    ((gaps mm.mmapList len USERTOP).Nonempty →
      IsGreatest (gaps mm.mmapList len USERTOP) (getUnmappedArea mm len)) ∧
      (getUnmappedArea mm len = 0 ↔ gaps mm.mmapList len USERTOP = ∅) := by
  have found : (getUnmappedArea mm len = 0 ∧ gaps mm.mmapList len USERTOP = ∅) ∨
      IsGreatest (gaps mm.mmapList len USERTOP) (getUnmappedArea mm len) := by
    unfold getUnmappedArea
    split_ifs with impossible
    · refine .inl ⟨rfl, Set.eq_empty_of_forall_notMem fun start gap => ?_⟩
      have := gap.2.1
      omega
    have scanned : _ ∨ IsGreatest (gaps _ len (USERTOP - len + len)) _ := unmappedBelow_greatest
      (fun vma member => ⟨(inside vma (mem_reverse.mp member)).1,
        (inside vma (mem_reverse.mp member)).2.1⟩) (pairwise_reverse.mpr ordered)
    have reversed : gaps mm.mmapList.reverse len USERTOP = gaps mm.mmapList len USERTOP := by
      simp [gaps, Free]
    rwa [Nat.sub_add_cancel (by omega), reversed] at scanned
  rcases found with ⟨zero, empty⟩ | greatest
  · simp [zero, empty]
  refine ⟨fun _ => greatest, fun zero => ?_, fun empty => ?_⟩
  · have := greatest.1.1
    unfold USERBASE at this
    omega
  have := greatest.1
  rw [empty] at this
  exact this.elim

/-- Two areas at the top of user space: the gap between them is too small, the one below is not. -/
theorem getUnmappedArea_below_two :
    let mm : Mm := ⟨[⟨0xFFFFFFF9000, 0xFFFFFFFC000, VM_READ, none, 0, none, 0⟩,
      ⟨0xFFFFFFFD000, 0x100000000000, VM_READ, none, 0, none, 0⟩],
      none, false, 2, 0, 0, fun _ => none⟩
    IsGreatest (gaps mm.mmapList 0x2000 USERTOP) (getUnmappedArea mm 0x2000) ∧
      getUnmappedArea mm 0x2000 = 0xFFFFFFF7000 := by
  refine ⟨(getUnmappedArea_highest _ 0x2000 (by decide) (by decide) (by decide)).1 ?_, by decide⟩
  exact ⟨0xFFFFFFF7000, by decide, by decide, by simp [Free]⟩

theorem unmappedBelow_aligned {areas : List Vma} (formed : ∀ vma ∈ areas, vma.Formed)
    (aligned : start % PGSIZE = 0) (alignedLen : len % PGSIZE = 0) :
    unmappedBelow len start areas % PGSIZE = 0 := by
  induction areas generalizing start with
  | nil =>
    unfold unmappedBelow
    split_ifs
    · exact aligned
    · rfl
  | cons vma rest ih =>
    obtain ⟨⟨-, alignedStart, -⟩, restFormed⟩ := forall_mem_cons.mp formed
    unfold unmappedBelow
    split_ifs
    · exact aligned
    · rfl
    · apply ih restFormed
      unfold PGSIZE at *
      omega
    · exact ih restFormed aligned

/-- Rounding a range that is rounded already changes nothing. -/
theorem roundUp_range (alignedStop : stop % PGSIZE = 0) (start64 : start < 2 ^ 64)
    (stop64 : stop < 2 ^ 64) : roundUp (word (start + wordSub stop start)) = stop := by
  have same : word (start + wordSub stop start) = word stop := by
    simp only [word, wordSub]
    omega
  rw [same, roundUp_of_aligned alignedStop stop64]

theorem roundDown_word_lt (a : Nat) : roundDown (word a) < 2 ^ 64 := by
  simp only [roundDown, word]
  omega

end Areas

section Routines

variable {space : Space} {start stop addr len : Nat} {faulty : VmFault → Prop} {core next : Core}

/-- `do_mmap` and `do_shmem` ask for a range at an address of their own choice, or
for one that the user chose and that is seen to be free. -/
theorem placeArea_seen {placed size : Nat} (shape : Shape space.core.list)
    (seen : roundDown (word addr) ≠ 0 →
      Seen (roundDown (word addr)) (roundUp (word (addr + len))) space.core.list)
    (place : placeArea space.mm addr len = (placed, size)) (found : placed ≠ 0) :
    Seen (roundDown placed) (roundUp (word (placed + size))) space.core.list := by
  have start64 := roundDown_word_lt addr
  have stop64 : roundUp (word (addr + len)) < 2 ^ 64 := roundDown_word_lt _
  have alignedStart := roundDown_aligned (word addr)
  have alignedStop := roundUp_aligned (word (addr + len))
  simp only [placeArea, Prod.mk.injEq] at place
  obtain ⟨isPlaced, isSize⟩ := place
  split_ifs at isPlaced with zero
  · rw [isSize] at isPlaced
    have alignedSize : size % PGSIZE = 0 := by
      rw [← isSize, zero, wordSub]
      simp only [word, PGSIZE] at alignedStop ⊢
      omega
    unfold getUnmappedArea at isPlaced
    split_ifs at isPlaced with impossible
    · exact absurd isPlaced.symm found
    have isPlaced : unmappedBelow size (USERTOP - size) space.core.list.reverse = placed :=
      isPlaced
    have alignedTop : (USERTOP - size) % PGSIZE = 0 := by
      unfold PGSIZE USERTOP at *
      omega
    have formed := fun vma member => shape.formed vma (mem_reverse.mp member)
    have isAligned := unmappedBelow_aligned formed alignedTop alignedSize
    have greatest := (unmappedBelow_greatest
      (fun vma member => ⟨(formed vma member).low, (formed vma member).nonempty⟩)
      (pairwise_reverse.mpr shape.ordered)).resolve_left fun none => found (isPlaced ▸ none.1)
    rw [isPlaced] at isAligned greatest
    obtain ⟨⟨-, below, free⟩, -⟩ := greatest
    have alignedEnd : (placed + size) % PGSIZE = 0 := by
      unfold PGSIZE at *
      omega
    have small : placed + size < 2 ^ 64 := by
      unfold USERTOP at *
      omega
    rw [roundDown_of_aligned isAligned, roundUp_of_aligned alignedEnd small]
    exact .inr fun vma member => free vma (mem_reverse.mpr member)
  · rw [← isPlaced, ← isSize, roundDown_of_aligned alignedStart,
      roundUp_range alignedStop start64 stop64]
    exact seen zero

/-- `mm_map` is refused, or it puts a new area between the others. -/
theorem mmMap_ends {vmFlags : BitVec 32} {post : Int × Option Vma → Space → Prop}
    (isArea : vma = ⟨roundDown addr, roundUp (word (addr + len)), vmFlags &&& ~~~VM_SHARE,
      none, 0, none, 0⟩) (sound : space.core.Sound)
    (seen : Seen (roundDown addr) (roundUp (word (addr + len))) space.core.list)
    (refused : ∀ (next : Space) (result : Int) cache, result ≠ 0 → next.core.Sound →
      next.core = { space.core with cache := cache } → post (result, none) next)
    (done : ∀ (next : Space) front back, space.core.list = front ++ back →
      Shape (front ++ vma :: back) →
      next.core = { space.core with list := front ++ vma :: back } → post (0, some vma) next) :
    Ends (mmMap addr len vmFlags) post faulty space := by
  subst isArea
  have alignedStart := roundDown_aligned addr
  have alignedStop := roundUp_aligned (word (addr + len))
  simp only [mmMap]
  generalize roundDown addr = start at *
  generalize roundUp (word (addr + len)) = stop at *
  rw [ends_ite]
  refine ⟨fun _ => refused space _ space.core.cache (by decide) sound rfl, fun access => ?_⟩
  rw [not_not] at access
  rw [ends_bind]
  apply findVma_ends sound
  · intro vma member here next same
    obtain ⟨low, -⟩ := here
    obtain ⟨-, range, -⟩ := access
    rw [ends_ite]
    refine ⟨fun _ => refused next _ _ (by decide) ?_ same, fun outside => by omega⟩
    rw [same]
    refine ⟨sound.shape, ?_⟩
    rintro other ⟨rfl⟩
    exact member
  intro absent
  have free := seen.resolve_left fun ⟨vma, member, here⟩ => absent vma member here
  have formed : Vma.Formed ⟨start, stop, vmFlags &&& ~~~VM_SHARE, none, 0, none, 0⟩ :=
    ⟨access.2.1, alignedStart, alignedStop, access.1, access.2.2⟩
  obtain ⟨front, back, list, whole⟩ := sound.shape.insert formed free
  simp only [mmMap.mapArea, ends_bind]
  apply vmaCreate_ends
  · intro made same
    rw [ends_bind]
    apply insertVmaStruct_ends (by rw [same]; exact list) whole
    intro next core
    rw [same] at core
    exact done next front back list whole core
  · intro next same
    exact refused next _ space.core.cache (by decide) (by rw [same]; exact sound) same

variable {keep : Bool}

namespace Settled

section

variable (settled : Settled core)

include settled

variable {cache : Option Vma}

/-- Looking for an area changes the cached one only. -/
theorem recache (sound : next.Sound)
    (same : next = { core with cache := cache }) : Settled next := by
  subst same
  exact ⟨sound, settled.aligned, settled.files⟩

theorem found (member : vma ∈ core.list) : Settled { core with cache := some vma } := by
  refine settled.recache ⟨settled.sound.shape, ?_⟩ rfl
  rintro other ⟨rfl⟩
  exact member

theorem cut (cuts : Cut keep start stop core next) : Settled next := by
  refine ⟨cuts.sound, by rw [cuts.brk.2]; exact settled.aligned, ?_⟩
  intro file
  have slack := cuts.refs file
  have enough := settled.files file
  omega

/-- A new area without a file. -/
theorem insert (list : core.list = front ++ back) (shape : Shape (front ++ vma :: back))
    (anonymous : vma.file = none) :
    Settled { core with list := front ++ vma :: back } := by
  refine ⟨⟨shape, ?_⟩, settled.aligned, ?_⟩
  · intro other isCached
    have member := settled.sound.cached other isCached
    rw [list, mem_append] at member
    rcases member with inFront | inBack
    · simp [inFront]
    · simp [inBack]
  · intro file
    have enough := settled.files file
    simpa [list, Vma.holds, anonymous] using enough

/-- A write to the fields of an area, other than the file. -/
theorem write {written : Vma} (list : core.list = front ++ vma :: back)
    (shape : Shape (front ++ written :: back)) (sameFile : written.file = vma.file)
    (cached : ∀ other, cache = some other → other ∈ front ++ written :: back) :
    Settled { core with list := front ++ written :: back, cache := cache } := by
  refine ⟨⟨shape, cached⟩, settled.aligned, ?_⟩
  intro file
  have enough := settled.files file
  rw [list] at enough
  simpa [Vma.holds, sameFile] using enough

end

end Settled

theorem unmapAreas_keeps {clear : Nat → Nat → VmRoutine PUnit}
    (clears : Clears keep clear) (settled : Settled space.core) :
    Ends (unmapAreas clear addr len) (fun _ next => Settled next.core) (· = .nullPointer)
      space := by
  apply unmapAreas_ends clears settled.sound fun _ => settled.files
  · rfl
  · exact fun _ _ _ _ sound same => settled.recache sound same
  · exact fun _ _ => settled
  · exact fun _ _ _ cuts => settled.cut cuts

def remapped (prot : BitVec 32) (start stop : Nat) (vma : Vma) : Vma where
  vmStart := start
  vmEnd := stop
  vmFlags := protFlags prot vma.vmFlags &&& ~~~VM_SHARE
  shmem := none
  shmemOff := 0
  file := vma.file
  offset := vma.offset + (start - vma.vmStart)

/-- One round of `do_mprotect` on the area that contains `start`. -/
structure Protected (prot : BitVec 32) (start stop : Nat) (vma : Vma) (core next : Core) :
    Prop where
  settled : Settled next
  whole : vma.vmStart = start ∧ vma.vmEnd = stop → ∀ other, other ∈ next.list ↔
    other = { vma with vmFlags := protFlags prot vma.vmFlags } ∨ other ∈ core.list ∧ other ≠ vma
  part : ¬ (vma.vmStart = start ∧ vma.vmEnd = stop) → start < stop ∧
    ∀ other, other ∈ next.list ↔ other ∈ core.list.flatMap (cut start (min stop vma.vmEnd)) ∨
      other = remapped prot start (min stop vma.vmEnd) vma
  pte : next.pte = core.pte
  refs : ∀ file, next.refs (.file file) - held (.file file) next.list =
    core.refs (.file file) - held (.file file) core.list

theorem acquireFile_ends {file : Option Nat} {post : PUnit → Space → Prop}
    (done : ∀ (next : Space) refs, (∀ other, refs (.file other) =
      space.core.refs (.file other) + if file = some other then 1 else 0) →
      next.core = { space.core with refs := refs } → post () next) :
    Ends (acquireFile file) post faulty space := by
  cases file with
  | none => exact done space space.core.refs (by simp) rfl
  | some own =>
    refine done _ _ ?_ rfl
    intro other
    by_cases same : own = other
    · subst same
      simp [Space.setRef, Space.core]
    · simp [Space.setRef, Space.core, same, Ne.symm same]

theorem protectArea_ends {prot : BitVec 32} {post : Int → Space → Prop}
    (settled : Settled space.core) (member : vma ∈ space.core.list) (here : vma.Contains start)
    (alignedStart : start % PGSIZE = 0) (alignedStop : stop % PGSIZE = 0) (stop64 : stop < 2 ^ 64)
    (refused : ∀ (next : Space) (result : Int), result ≠ 0 → Settled next.core → post result next)
    (done : ∀ next : Space, Protected prot start stop vma space.core next.core → post 0 next) :
    Ends (protectArea prot start stop vma) post (· = .nullPointer) space := by
  obtain ⟨front, back, list⟩ := append_of_mem member
  have formed := settled.sound.shape.formed vma member
  simp only [protectArea, ends_ite]
  refine ⟨fun exact_ => ?_, fun inexact => ?_⟩
  · have shape : Shape (front ++ { vma with vmFlags := protFlags prot vma.vmFlags } :: back) :=
      (list ▸ settled.sound.shape).replace
        ⟨⟨formed.nonempty, formed.alignedStart, formed.alignedEnd, formed.low, formed.high⟩,
          le_rfl, le_rfl⟩
    have nodup := settled.sound.shape.nodup
    rw [list, nodup_append, nodup_cons] at nodup
    obtain ⟨-, ⟨notBack, -⟩, apart⟩ := nodup
    rw [ends_bind]
    apply writeVma_ends settled.sound list
    intro next cache core cached
    apply done
    rw [core]
    refine ⟨settled.write list shape rfl cached, fun _ other => ?_, fun other => absurd exact_
      other,
      rfl, ?_⟩
    · simp only [list, mem_append, mem_cons]
      constructor
      · rintro (inFront | rfl | inBack)
        · exact .inr ⟨.inl inFront, apart other inFront vma (by simp)⟩
        · exact .inl rfl
        · exact .inr ⟨.inr (.inr inBack), fun same => notBack (same ▸ inBack)⟩
      rintro (rfl | ⟨inFront | rfl | inBack, different⟩)
      · exact .inr (.inl rfl)
      · exact .inl inFront
      · exact absurd rfl different
      · exact .inr (.inr inBack)
    · intro file
      simp [list, Vma.holds]
  obtain ⟨low, high⟩ := here
  have isStart : (if start ≥ vma.vmStart then start else vma.vmStart) = start := if_pos low
  have isEnd : (if stop ≤ vma.vmEnd then stop else vma.vmEnd) = min stop vma.vmEnd := by
    rw [Nat.min_def]
  have alignedEnd : min stop vma.vmEnd % PGSIZE = 0 := by
    rcases Nat.le_total stop vma.vmEnd with less | more
    · rwa [Nat.min_eq_left less]
    · rw [Nat.min_eq_right more]
      exact formed.alignedEnd
  have range := roundUp_range alignedEnd
    ((high.trans_le formed.high).trans (by decide)) ((Nat.min_le_left _ _).trans_lt stop64)
  have atStart := roundDown_of_aligned alignedStart
  rw [isStart, isEnd, ends_bind]
  apply unmapAreas_ends keepPages_clears settled.sound fun _ => settled.files
  · rfl
  · intro next result cache failed sound same
    rw [ends_ite]
    exact ⟨fun _ => refused next result failed (settled.recache sound same),
      fun zero => absurd failed zero⟩
  · rw [atStart]
    exact fun _ missed => absurd ⟨low, high⟩ (missed vma member)
  rw [atStart, range]
  intro access _ unmapped cuts
  have middle := settled.cut cuts
  rw [ends_ite]
  refine ⟨fun failed => absurd rfl failed, fun _ => ?_⟩
  rw [ends_bind]
  have seen : Seen (roundDown start) (roundUp (word (start +
      wordSub (min stop vma.vmEnd) start))) unmapped.core.list := by
    rw [atStart, range, cuts.list]
    refine .inr fun piece isPiece => ?_
    obtain ⟨source, -, ofSource⟩ := mem_flatMap.mp isPiece
    exact cut_outside ofSource
  apply mmMap_ends rfl middle.sound seen
  · exact fun next result cache failed sound same =>
      refused next result failed (middle.recache sound same)
  rw [atStart, range]
  intro mapped front back split shape mappedCore
  have inserted := middle.insert split shape rfl
  rw [← mappedCore] at inserted
  rw [ends_bind]
  apply writeVma_ends inserted.sound (by rw [mappedCore])
  intro written cache writtenCore cached
  rw [mappedCore] at writtenCore
  rw [ends_bind]
  apply acquireFile_ends
  intro next refs fileRefs nextCore
  rw [writtenCore] at nextCore fileRefs
  apply done
  have shape' : Shape (front ++ remapped prot start (min stop vma.vmEnd) vma :: back) :=
    shape.replace
    ⟨⟨access.2.1, alignedStart, alignedEnd, access.1, access.2.2⟩, le_rfl, le_rfl⟩
  have slack : ∀ file, refs (.file file) -
      held (.file file) (front ++ remapped prot start (min stop vma.vmEnd) vma :: back) =
      space.core.refs (.file file) - held (.file file) space.core.list := by
    intro file
    have before := cuts.refs file
    rw [split] at before
    rw [fileRefs file]
    simp only [held_append, held_cons, Vma.holds, remapped] at before ⊢
    omega
  rw [nextCore]
  refine ⟨⟨⟨shape', cached⟩, middle.aligned, ?_⟩, fun exact_ => absurd exact_ inexact,
    fun _ => ⟨?_, ?_⟩, ?_, slack⟩
  · intro file
    have := slack file
    have := settled.files file
    show held (.file file) (front ++ remapped prot start (min stop vma.vmEnd) vma :: back) ≤
      refs (.file file)
    omega
  · exact access.2.1.trans_le (Nat.min_le_left _ _)
  · intro other
    rw [← cuts.list, split, mem_append, mem_append, mem_cons, or_left_comm, or_comm]
    rfl
  · funext page
    rw [cuts.pte]
    simp

end Routines

end Plus

end UcoreSmp
