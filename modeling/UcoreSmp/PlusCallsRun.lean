import UcoreSmp.PlusProtect

/-!
# Runs of system calls

`mm_map` and `do_brk` look only for an area that contains the first address of a
new range.  As long as no other area starts inside the range, every call keeps
the areas sorted, disjoint, page aligned and inside user space, and fails no
assertion.
-/

namespace UcoreSmp

namespace Plus

open Function Space

/-- The system calls that change the areas. -/
inductive Call where
  | mmap (addrStore : Stored) (len : Nat) (mmapFlags : BitVec 32)
  | munmap (addr len : Nat)
  | brk (brkStore : Stored)
  | shmem (fresh : Nat) (addrStore : Stored) (len : Nat) (mmapFlags : BitVec 32)
  | mprotect (addr len : Nat) (prot : BitVec 32)

namespace Call

def run : Call → VmRoutine Int
  | mmap addrStore len mmapFlags => doMmap addrStore len mmapFlags
  | munmap addr len => doMunmap addr len
  | brk brkStore => doBrk brkStore
  | shmem fresh addrStore len mmapFlags => doShmem fresh addrStore len mmapFlags
  | mprotect addr len prot => doMprotect addr len prot

/-- A range that the user chooses for a new area or for the growth of the heap has
an area at its first address, or none at all. -/
def Fits (core : Core) : Call → Prop
  | mmap (.value addr) len _ | shmem _ (.value addr) len _ => roundDown (word addr) ≠ 0 →
      Seen (roundDown (word addr)) (roundUp (word (addr + len))) core.list
  | brk (.value newbrk) => core.brkStart ≤ word newbrk → core.brk < roundUp (word newbrk) →
      Seen core.brk (roundUp (word newbrk)) core.list
  | _ => True

end Call

inductive Reaches (first : Space) : Space → Prop
  | refl : Reaches first first
  | call {space next : Space} {call : Call} {result : Int} : Reaches first space →
      call.Fits space.core → call.run space = .ok (result, next) → Reaches first next

section Calls

variable {space : Space} {addr len : Nat}

/-- A routine that keeps an address space settled. -/
def Keeps {α : Type} (routine : VmRoutine α) (space : Space) : Prop :=
  Ends routine (fun _ next => Settled next.core) (· = .nullPointer) space

variable {vmFlags mmapFlags : BitVec 32} {addrStore : Stored}

section

variable (settled : Settled space.core)

include settled

theorem mmMap_keeps (seen : Seen (roundDown addr) (roundUp (word (addr + len))) space.core.list) :
    Keeps (mmMap addr len vmFlags) space := by
  apply mmMap_ends rfl settled.sound seen
  · exact fun _ _ _ _ sound same => settled.recache sound same
  intro next front back list shape core
  rw [core]
  exact settled.insert list shape rfl

theorem doMmap_keeps (fits : (Call.mmap addrStore len mmapFlags).Fits space.core) :
    Keeps (doMmap addrStore len mmapFlags) space := by
  cases addrStore with
  | null | unreadable => exact settled
  | value addr =>
    simp only [Keeps, doMmap, ends_ite, ends_bind, ends_get, ends_pure]
    refine ⟨fun _ => settled, fun _ => ⟨fun _ => settled, fun found => ?_⟩⟩
    exact mmMap_keeps settled (placeArea_seen settled.sound.shape fits rfl found)

theorem mmBrk_keeps (free : UserAccess (roundDown addr) (roundUp (word (addr + len))) →
      Free (roundDown addr) (roundUp (word (addr + len))) space.core.list) :
    Keeps (mmBrk addr len) space := by
  have alignedStart := roundDown_aligned addr
  have alignedStop := roundUp_aligned (word (addr + len))
  simp only [Keeps, mmBrk, ends_ite]
  generalize roundDown addr = start at *
  generalize roundUp (word (addr + len)) = stop at *
  refine ⟨fun _ => settled, fun access => ?_⟩
  rw [not_not] at access
  have free := free access
  have grows : ∀ found : Space, (∃ cache, found.core = { space.core with cache := cache }) →
      Settled found.core → Keeps (mmBrk.newArea start stop) found := by
    rintro found ⟨cache, core⟩ isSettled
    have freeFound : Free start stop found.core.list := by
      rw [core]
      exact free
    have formed : Vma.Formed ⟨start, stop, VM_READ ||| VM_WRITE, none, 0, none, 0⟩ :=
      ⟨access.2.1, alignedStart, alignedStop, access.1, access.2.2⟩
    obtain ⟨front, back, list, whole⟩ := isSettled.sound.shape.insert formed freeFound
    simp only [Keeps, mmBrk.newArea, ends_bind]
    apply vmaCreate_ends
    · intro made same
      rw [ends_bind]
      apply insertVmaStruct_ends (by rw [same]; exact list) whole
      intro next nextCore
      rw [ends_pure, nextCore, same]
      exact isSettled.insert list whole rfl
    · intro next same
      rw [ends_pure, same]
      exact isSettled
  rw [ends_bind]
  apply unmapAreas_ends unmapRange_clears settled.sound fun _ => settled.files
  · rfl
  · intro next result cache failed sound same
    rw [ends_ite]
    exact ⟨fun _ => settled.recache sound same, fun zero => absurd failed zero⟩
  · intro _ _
    rw [ends_ite]
    refine ⟨fun failed => absurd rfl failed, fun _ => ?_⟩
    rw [ends_bind]
    apply findVma_ends settled.sound
    · intro vma member here found core
      have isSettled : Settled found.core := by
        rw [core]
        exact settled.found member
      rw [ends_ite]
      refine ⟨fun both => ?_, fun _ => grows found ⟨_, core⟩ isSettled⟩
      have border := both.1
      obtain ⟨front, back, list⟩ := List.append_of_mem member
      have foundList : found.core.list = front ++ vma :: back := by
        rw [core]
        exact list
      obtain ⟨inFront, rest, across⟩ := shape_append.mp (list ▸ settled.sound.shape)
      obtain ⟨formed, inBack, later⟩ := shape_cons.mp rest
      have nonempty := formed.nonempty
      have shape : Shape (front ++ { vma with vmEnd := stop } :: back) := by
        have longer : vma.vmStart < stop := (border ▸ nonempty : vma.vmStart < start).trans
          access.2.1
        refine shape_append.mpr ⟨inFront, shape_cons.mpr ⟨⟨longer, formed.alignedStart,
          alignedStop, formed.low, access.2.2⟩, inBack, ?_⟩, ?_⟩
        · intro other inBack'
          have := later other inBack'
          have := (inBack.formed other inBack').nonempty
          have := free other (by rw [list]; simp [inBack'])
          show stop ≤ other.vmStart
          omega
        intro other member' third inRest
        rcases List.mem_cons.mp inRest with rfl | inBack'
        · exact across other member' vma (by simp)
        · exact across other member' third (by simp [inBack'])
      rw [ends_bind]
      apply writeVma_ends isSettled.sound foundList
      intro next cache nextCore cached
      rw [ends_pure, nextCore]
      exact isSettled.write foundList shape rfl cached
    · exact fun _ => grows space ⟨space.core.cache, rfl⟩ settled
  rw [roundDown_of_aligned alignedStart]
  rintro _ ⟨vma, member, low, high⟩
  have := free vma member
  have := access.2.1
  omega

theorem doBrk_keeps {brkStore : Stored} (fits : (Call.brk brkStore).Fits space.core) :
    Keeps (doBrk brkStore) space := by
  simp only [Keeps, doBrk, ends_bind, ends_get]
  cases brkStore with
  | null | unreadable => exact settled
  | value newbrk =>
    have aligned := roundUp_aligned (word newbrk)
    have small : roundUp (word newbrk) < 2 ^ 64 := roundDown_word_lt _
    simp only [ends_bind, ends_ite, ends_check, ends_pure, ends_modify]
    simp only [Call.Fits] at fits
    generalize roundUp (word newbrk) = stop at *
    have moves : ∀ next : Space, Settled next.core → ∀ moved : Int,
        (moved = 0 → Settled { next.core with brk := stop }) ∧ (moved ≠ 0 → Settled next.core) := by
      intro next kept moved
      exact ⟨fun _ => ⟨⟨kept.sound.shape, kept.sound.cached⟩, aligned, kept.files⟩, fun _ => kept⟩
    refine ⟨fun _ => settled, fun enough => ⟨fun _ => ⟨fun _ => settled, fun changed =>
      ⟨fun _ => ?_, fun more => ?_⟩⟩, fun unaligned => absurd settled.aligned unaligned⟩⟩
    · exact (unmapAreas_keeps unmapRange_clears settled).weaken fun moved next kept =>
        moves next kept moved
    have grown : space.mm.brk < stop := by omega
    have seen := fits (Nat.not_lt.mp enough) grown
    have atBrk : roundDown space.mm.brk = space.mm.brk := roundDown_of_aligned settled.aligned
    have atStop : roundUp (word (space.mm.brk + (stop - space.mm.brk))) = stop := by
      rw [Nat.add_sub_cancel' grown.le, roundUp_of_aligned aligned small]
    simp only [doBrk.grow, findVmaIntersection, ends_bind]
    apply findVma_ends settled.sound
    · intro vma member here found core
      have kept : Settled found.core := by
        rw [core]
        exact settled.found member
      rw [ends_ite]
      refine ⟨fun wrapped => ?_, fun _ => moves found kept _⟩
      refine (mmBrk_keeps kept fun access => ?_).weaken fun moved next kept =>
        moves next kept moved
      -- the end of the range is too high for user space
      rw [atStop] at access
      have := access.2.2
      have := here.1
      unfold word PGSIZE at wrapped
      unfold USERTOP at *
      omega
    intro absent
    have free := seen.resolve_left (by
      rintro ⟨vma, member, here⟩
      exact absent vma member here)
    refine (mmBrk_keeps settled fun _ => ?_).weaken fun moved next kept =>
      moves next kept moved
    rw [atBrk, atStop]
    exact free

end

/-- Changing counts of shared memory objects does not matter. -/
theorem Settled.recount {core : Core} {refs : Ref → Int} {shmemLen : Nat → Nat}
    {destroyed : Nat → Bool} (settled : Settled core)
    (same : ∀ file, refs (.file file) = core.refs (.file file)) :
    Settled { core with refs := refs, shmemLen := shmemLen, destroyed := destroyed } :=
  ⟨⟨settled.sound.shape, settled.sound.cached⟩, settled.aligned,
    fun file => Int.le_trans (settled.files file) (Int.le_of_eq (same file).symm)⟩

section

variable (settled : Settled space.core)

include settled

theorem mmMapShmem_ends {shmem : Nat} {post : Int → Space → Prop}
    (seen : Seen (roundDown addr) (roundUp (word (addr + space.core.shmemLen shmem)))
      space.core.list) (refused : ∀ (next : Space) (result : Int), Settled next.core →
      next.core.refs (.shmem shmem) = space.core.refs (.shmem shmem) → post result next)
    (done : ∀ next : Space, Settled next.core → post 0 next) :
    Ends (mmMapShmem addr vmFlags shmem) post (· = .nullPointer) space := by
  simp only [mmMapShmem, shmemRefAdd, ends_ite, ends_bind, ends_modify, ends_get, ends_pure]
  refine ⟨fun _ => refused space _ settled rfl, fun _ => ?_⟩
  have counted : Settled (space.setRef (.shmem shmem) (space.world.refs (.shmem shmem) + 1)).core :=
    settled.recount fun file => by simp [setRef, core]
  apply mmMap_ends rfl counted.sound seen
  · intro next result cache _ sound same
    apply refused
    · exact (counted.recache sound same).recount fun file => by simp [setRef, core]
    have count : next.world.refs (.shmem shmem) = space.world.refs (.shmem shmem) + 1 := by
      have refs := congrArg (fun core => core.refs (.shmem shmem)) same
      simpa [setRef, core] using refs
    simp [setRef, core, count]
  intro mapped front back list shape core
  have inserted := counted.insert list shape rfl
  rw [← core] at inserted
  have mappedList : mapped.core.list = front ++ _ :: back := congrArg Core.list core
  simp only [ends_bind]
  apply writeVma_ends inserted.sound mappedList
  intro next cache nextCore cached
  apply done
  rw [nextCore]
  have formed := shape.formed _ (List.mem_append_right _ List.mem_cons_self)
  refine inserted.write mappedList (shape.replace ⟨?_, le_rfl, le_rfl⟩) rfl cached
  exact ⟨formed.nonempty, formed.alignedStart, formed.alignedEnd, formed.low, formed.high⟩

theorem doShmem_keeps {fresh : Nat}
    (fits : (Call.shmem fresh addrStore len mmapFlags).Fits space.core) :
    Keeps (doShmem fresh addrStore len mmapFlags) space := by
  cases addrStore with
  | null | unreadable => exact settled
  | value addr =>
    simp only [Keeps, doShmem, ends_ite, ends_bind, ends_get, ends_pure]
    refine ⟨fun _ => settled, fun _ => ⟨fun _ => settled, fun found => ?_⟩⟩
    have seen : Seen (roundDown (placeArea space.mm addr len).1)
        (roundUp (word ((placeArea space.mm addr len).1 + (placeArea space.mm addr len).2)))
        space.core.list := placeArea_seen settled.sound.shape fits rfl found
    generalize placeArea space.mm addr len = place at *
    simp only [shmemCreate, ends_bind]
    apply kmalloc_ends
    intro answer given same
    have kept : Settled given.core := by
      rw [same]
      exact settled
    cases answer with
    | false => exact kept
    | true =>
      simp only [if_true, ends_bind, ends_modify, ends_pure]
      have created : Settled { given.core with
          refs := update given.core.refs (.shmem fresh) 0
          shmemLen := update given.core.shmemLen fresh place.2
          destroyed := update given.core.destroyed fresh false } :=
        kept.recount fun file => by simp
      rw [← update_self fresh place.2 given.core.shmemLen,
        ← show given.core.list = space.core.list from congrArg Core.list same] at seen
      apply mmMapShmem_ends
      · exact created
      · exact seen
      · intro next result isSettled count
        simp only [ends_ite, ends_bind, ends_get, ends_check, ends_set, ends_pure]
        refine ⟨fun _ => ⟨fun _ => isSettled.recount fun _ => rfl, fun stuck => ?_⟩,
          fun _ => isSettled⟩
        exact absurd (count.trans (update_self _ _ _)) stuck
      · intro next isSettled
        simp only [ends_ite, ends_pure]
        exact ⟨fun failed => absurd rfl failed, fun _ => isSettled⟩

/-- Every call that fits keeps an address space settled. -/
theorem Call.keeps {call : Call} (fits : call.Fits space.core) : Keeps call.run space := by
  cases call with
  | mmap addrStore len mmapFlags => exact doMmap_keeps settled fits
  | munmap addr len =>
    simp only [Keeps, Call.run, doMunmap, ends_ite, ends_pure]
    exact ⟨fun _ => settled, fun _ => unmapAreas_keeps unmapRange_clears settled⟩
  | brk brkStore => exact doBrk_keeps settled fits
  | shmem fresh addrStore len mmapFlags => exact doShmem_keeps settled fits
  | mprotect addr len prot =>
    simp only [Keeps, Call.run, doMprotect, ends_ite, ends_pure]
    refine ⟨fun _ => settled, fun _ => ?_⟩
    exact (protectFrom_ends prot (-E_INVAL) settled (roundDown_aligned _) (roundUp_aligned _)
      (roundDown_word_lt _) (Nat.lt_succ_self _)).weaken fun _ _ ended => ended.1

end

theorem Reaches.settled {first : Space} (settled : Settled first.core)
    (reaches : Reaches first space) : Settled space.core := by
  induction reaches with
  | refl => exact settled
  | call _ fits ran ih =>
    have kept := Call.keeps ih fits
    unfold Keeps Ends at kept
    rwa [ran] at kept

end Calls

end Plus

end UcoreSmp
