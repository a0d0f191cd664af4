import UcoreSmp.AddressSpaceCalls

/-!
# Address spaces over whole runs

Any sequence in which address spaces are made, mapped, faulted, copied, shared and
ended.  The allocator always holds exactly the frames that nobody owns, so ending
an address space returns everything that it alone owned, once.
-/

namespace UcoreSmp

open Finset

inductive SpaceCall where
  | newSpace
  | mmMap (mm addr len vmFlags : Nat)
  | doPgfault (mm errorCode addr : Nat)
  | copyMm (cloneVm : Bool) (mm : Nat)
  | mmCountInc (mm : Nat)
  | exitMm (mm : Nat)
  | destroySpace (mm : Nat)

namespace SpaceCall

/-- The call, with the address space that it made or shared. -/
def run : SpaceCall → MmCall (Option Nat)
  | .newSpace => do
    let mm ← UcoreSmp.newSpace
    pure (some mm)
  | .mmMap mm addr len vmFlags => do
    UcoreSmp.mmMap mm addr len vmFlags
    pure none
  | .doPgfault mm errorCode addr => do
    UcoreSmp.doPgfault mm errorCode addr
    pure none
  | .copyMm cloneVm mm => UcoreSmp.copyMm cloneVm (some mm)
  | .mmCountInc mm => do
    modify fun state => state.addCount mm 1
    pure none
  | .exitMm mm => do
    UcoreSmp.exitMm mm
    pure none
  | .destroySpace mm => do
    UcoreSmp.destroySpace mm
    pure none

/-- The address spaces that a call may name. -/
def Valid (live : Finset Nat) : SpaceCall → Prop
  | .newSpace => True
  | .mmMap mm _ _ _ | .doPgfault mm _ _ | .copyMm _ mm | .mmCountInc mm | .exitMm mm
  | .destroySpace mm => mm ∈ live

def liveAfter (call : SpaceCall) (state : MmState) (result : Except Int (Option Nat))
    (live : Finset Nat) : Finset Nat :=
  match call, result with
  | .exitMm mm, .ok _ => if (state.mms mm).mmCount = 1 then live.erase mm else live
  | .destroySpace mm, .ok _ => live.erase mm
  | _, .ok (some mm) => insert mm live
  | _, _ => live

end SpaceCall

/-- The states of all runs from well-formed memory without address spaces. -/
inductive SpaceReaches (kernel : Finset Nat) : Finset Nat → MmState → Finset Nat → Prop where
  | start {held : Finset Nat} {state : MmState} {role : Nat → FrameRole}
      (kept : SpacesKept kernel held id ∅ state role) : SpaceReaches kernel held state ∅
  | step {held : Finset Nat} {state next : MmState} {live : Finset Nat}
      {result : Except Int (Option Nat)} (before : SpaceReaches kernel held state live)
      (call : SpaceCall) (valid : call.Valid live) (ran : call.run state = .ok (result, next)) :
      SpaceReaches kernel held next (call.liveAfter state result live)
  /-- The allocator of `kmalloc` takes a page, which it never returns.  None of the calls frees a
  page before its last `kmalloc`, so a page that goes in a call may as well go before it. -/
  | slobGrow {held : Finset Nat} {state : MmState} {live : Finset Nat} {frame : Nat}
      (before : SpaceReaches kernel held state live) (picked : state.phys.pick = some frame) :
      SpaceReaches kernel (insert frame held) (state.setPhys (state.phys.take frame)) live

variable {kernel held live : Finset Nat} {dirOf : Nat → Nat} {role role' : Nat → FrameRole}
  {state next : MmState}

section Run

variable {mm : Nat}

def SpacesHeld (kernel held live : Finset Nat) (state : MmState) : Prop :=
  ∃ dirOf role, SpacesKept kernel held dirOf live state role

section

variable (kept : SpacesKept kernel held dirOf live state role)

include kept

theorem SpacesKept.slobGrow {frame : Nat} (picked : state.phys.pick = some frame) :
    SpacesKept kernel (insert frame held) dirOf live (state.setPhys (state.phys.take frame))
      (Function.update role frame .held) := by
  have isFree := kept.paged.free_of_pick picked
  have touches : Touches (live.image dirOf) Nowhere state.phys role (state.phys.take frame) _ :=
    touches_take isFree Nowhere
  refine ⟨⟨kept.paged.take isFree, ?_, ?_, ?_⟩, kept.boot.later touches, kept.distinct, ?_, ?_,
    kept.apart⟩
  · exact fun other => (touches.outside other).trans (kept.outside other)
  · exact fun other => (kept.kernel other).trans (touches.kernel other).symm
  · intro other
    rw [mem_insert, kept.held, ← held_update_iff isFree other]
    by_cases same : other = frame <;> simp [same]
  · exact fun isLive => (kept.space isLive).unharmed touches (SpacesKept.member isLive)
      (fun _ => id) rfl
  · exact fun isLive => (kept.blocks isLive).congr rfl (kept.blocks isLive).live

theorem SpacesKept.addCount (isLive : mm ∈ live) (change : Int) :
    SpacesKept kernel held dirOf live (state.addCount mm change) role :=
  kept.setMm isLive rfl rfl (kept.space isLive).cached

/-- `exit_mmap`, `put_pgdir` and `mm_destroy` for one of many address spaces -/
theorem SpacesKept.destroy {post : PUnit → MmState → Prop} {failed : Int → MmState → Prop}
    {faulty : MmFault → Prop} (isLive : mm ∈ live) (unused : (state.mms mm).mmCount = 0)
    (done : ∀ phys role', SpaceGone (live.image dirOf) (dirOf mm) state.phys role phys role' →
      SpacesKept kernel held dirOf (live.erase mm)
        ((state.setPhys phys).release ((state.mms mm).blocks ++ [mm])) role' →
      post () ((state.setPhys phys).release ((state.mms mm).blocks ++ [mm]))) :
    CallEnds (destroySpace mm) post failed faulty state := by
  apply destroySpace_ends kept.paged (kept.isDir isLive) (kept.space isLive) (kept.blocks isLive)
    unused
  exact fun phys role' gone => done phys role' gone (kept.remove isLive gone)

theorem SpaceCall.run_ends (call : SpaceCall) (valid : call.Valid live) : CallEnds call.run
      (fun value next => SpacesHeld kernel held (call.liveAfter state (.ok value) live) next)
      (fun code next => SpacesHeld kernel held (call.liveAfter state (.error code) live) next)
      (fun _ => True) state := by
  cases call with
  | newSpace =>
    rw [run, callEnds_bind]
    apply newSpace_ends kept.paged kept.boot
    · intro mm dir next role' made
      exact ⟨_, role', kept.add made⟩
    · exact fun next same => ⟨dirOf, role, kept.unharmed same⟩
    · trivial
  | mmMap mm addr len vmFlags =>
    rw [run, callEnds_bind]
    apply mmMap_kept kept valid
    · exact fun next kept' => ⟨⟨dirOf, role, kept'⟩, fun _ => ⟨dirOf, role, kept'⟩⟩
    · exact fun _ => trivial
  | doPgfault mm errorCode addr =>
    rw [run, callEnds_bind]
    apply doPgfault_ends kept valid
    · exact fun next role' kept' => ⟨⟨dirOf, role', kept'⟩, fun _ => ⟨dirOf, role', kept'⟩⟩
    · exact fun _ => trivial
  | copyMm cloneVm mm =>
    cases cloneVm with
    | false =>
      apply copyMm_ends kept valid
      · exact fun child dir next role' forked => ⟨_, role', forked⟩
      · exact fun next role' same => ⟨dirOf, role', kept.unharmed same⟩
      · exact fun _ => trivial
    | true =>
      refine ⟨dirOf, role, ?_⟩
      have same : liveAfter (.copyMm true mm) state (.ok (some mm)) live = live :=
        insert_eq_of_mem valid
      rw [same]
      exact kept.addCount valid 1
  | mmCountInc mm =>
    exact ⟨dirOf, role, kept.addCount valid 1⟩
  | exitMm mm =>
    have counted : ((state.addCount mm (-1)).mms mm).mmCount = (state.mms mm).mmCount + -1 := by
      rw [MmState.addCount, mms_setMm]
    have kept' := kept.addCount valid (-1)
    simp only [run, UcoreSmp.exitMm, callEnds_bind, callEnds_modify, callEnds_get, liveAfter]
    rw [callEnds_ite, counted]
    refine ⟨fun last => ?_, fun shared => ?_⟩
    · apply kept'.destroy valid (counted.trans last)
      intro phys role' gone left
      rw [if_pos (by omega)]
      exact ⟨dirOf, role', left⟩
    · rw [if_neg (by omega)]
      exact ⟨dirOf, role, kept'⟩
  | destroySpace mm =>
    rw [run, callEnds_bind]
    by_cases unused : (state.mms mm).mmCount = 0
    · apply kept.destroy valid unused
      exact fun phys role' gone left => ⟨dirOf, role', left⟩
    rw [UcoreSmp.destroySpace, callEnds_bind, exitMmap, callEnds_bind, callEnds_get,
      callEnds_bind, callEnds_ensure]
    exact ⟨fun idle => absurd idle unused, fun _ => trivial⟩

end

theorem SpaceReaches.kept (reached : SpaceReaches kernel held state live) :
    SpacesHeld kernel held live state := by
  induction reached with
  | start kept => exact ⟨id, _, kept⟩
  | step before call valid ran ih =>
    obtain ⟨dirOf, role, kept⟩ := ih
    have ends := call.run_ends kept valid
    unfold CallEnds Ends ExceptT.run at ends
    rw [ran] at ends
    rename_i result
    cases result with
    | ok value => exact ends
    | error code => exact ends
  | slobGrow before picked ih =>
    obtain ⟨dirOf, role, kept⟩ := ih
    exact ⟨dirOf, _, kept.slobGrow picked⟩

end Run

section Exit

variable {mm other frame : Nat}

/-- Everything that one address space owned has been returned, and nothing else. -/
structure SpaceReturned (kernel held live : Finset Nat) (state : MmState) (mm : Nat)
    (next : MmState) : Prop where
  freed : ∀ frame, frame ∈ next.phys.free ↔ frame ∈ state.phys.free ∨
    OwnsFrame state mm frame ∧ ∀ other ∈ live.erase mm, ¬ OwnsFrame state other frame
  busy : ∀ frame, OwnsFrame state mm frame → frame ∉ state.phys.free
  notKernel : ∀ frame ∈ kernel ∪ held, frame ∉ next.phys.free
  others : ∀ other ∈ live.erase mm, next.mms other = state.mms other ∧ ∀ frame,
    (OwnsFrame next other frame ↔ OwnsFrame state other frame) ∧
      (OwnsFrame state other frame → frame ∉ next.phys.free)
  blocks : (mm :: (state.mms mm).blocks).Nodup ∧
    ∀ block ∈ mm :: (state.mms mm).blocks, block ∈ state.heap
  heap : ∀ block, block ∈ next.heap ↔ block ∈ state.heap ∧ block ∉ mm :: (state.mms mm).blocks
  /-- apart from what `kmalloc` took, the free pages are those of an earlier state -/
  level : ∀ before held', SpaceReaches kernel held' before (live.erase mm) →
    before.phys.npage = state.phys.npage →
    (∀ frame, (∃ other ∈ live.erase mm, OwnsFrame before other frame) ↔
      ∃ other ∈ live.erase mm, OwnsFrame state other frame) →
    next.phys.free \ held' = before.phys.free \ held

theorem ownsFrame_congr {dirs : Finset Nat} {dir : Nat}
    (touches : Touches dirs Nowhere state.phys role next.phys role') (member : dir ∈ dirs)
    (pgdir : (state.mms mm).pgdir = some dir) (same : next.mms mm = state.mms mm) :
    OwnsFrame next mm frame ↔ OwnsFrame state mm frame := by
  have table : ∀ {index}, index < USERTABLES →
      next.phys.table dir index = state.phys.table dir index :=
    fun inside => touches.table_eq member inside fun _ near => near
  have mapped : ∀ {page}, page < USERPAGES →
      next.phys.mapped dir page = state.phys.mapped dir page :=
    fun inside => PhysState.mapped_congr (touches.pte member inside id)
  unfold OwnsFrame
  rw [same]
  apply exists_congr
  intro found
  apply and_congr_right
  intro isFound
  obtain rfl : dir = found := Option.some.inj (pgdir.symm.trans isFound)
  apply or_congr_right
  apply or_congr
  · exact exists_congr fun index => and_congr_right fun inside => by rw [table inside]
  · exact exists_congr fun page => and_congr_right fun inside => by rw [mapped inside]

section

variable (kept : SpacesKept kernel held dirOf live state role) (isLive : mm ∈ live)
  (owns : OwnsFrame state mm frame)

include kept isLive owns

theorem SpacesKept.owned_busy : frame ∉ state.phys.free := by
  rw [kept.free_iff]
  exact fun isFree => isFree.2.2.2 mm isLive owns

theorem SpacesKept.owned_inside : frame < state.phys.npage ∧ frame ∉ kernel ∧ frame ∉ held := by
  obtain ⟨dir, pgdir, owns⟩ := owns
  obtain rfl : dirOf mm = dir := Option.some.inj ((kept.space isLive).pgdir.symm.trans pgdir)
  have isDir := kept.isDir isLive
  have isRole : role frame ≠ .outside ∧ role frame ≠ .kernel ∧ role frame ≠ .held := by
    rcases owns with rfl | ⟨index, small, found⟩ | ⟨page, small, maps⟩
    · simp [isDir]
    · simp [(kept.paged.layout.table_iff isDir small).mp found]
    · simp [kept.paged.layout.user_of_mapped isDir small maps]
  rw [kept.kernel, kept.held]
  exact ⟨kept.paged.inside isRole.1, isRole.2⟩

end

theorem SpacesKept.destroy_returned (kept : SpacesKept kernel held dirOf live state role)
    (isLive : mm ∈ live) (unused : (state.mms mm).mmCount = 0) :
    CallEnds (destroySpace mm) (fun _ next => SpaceReturned kernel held live state mm next)
      (fun _ _ => False) (fun _ => False) state := by
  apply kept.destroy isLive unused
  intro phys role' gone left
  set next := (state.setPhys phys).release ((state.mms mm).blocks ++ [mm])
  have npage : next.phys.npage = state.phys.npage := gone.touches.npage
  have touches : Touches ((live.erase mm).image dirOf) Nowhere state.phys role next.phys role' := by
    rw [image_erase kept.distinct isLive]
    exact gone.touches
  have heap : ∀ block, block ∈ next.heap ↔
      block ∈ state.heap ∧ block ∉ mm :: (state.mms mm).blocks := by
    intro block
    rw [List.mem_cons, or_comm, ← List.mem_singleton, ← List.mem_append]
    exact mem_release
  have owns : ∀ {other}, other ∈ live.erase mm → ∀ frame,
      (OwnsFrame next other frame ↔ OwnsFrame state other frame) := by
    intro other isOther frame
    exact ownsFrame_congr touches (SpacesKept.member isOther)
      (kept.space (mem_of_mem_erase isOther)).pgdir rfl
  have unowned : ∀ frame, (∀ other ∈ live.erase mm, ¬ OwnsFrame next other frame) ↔
      ∀ other ∈ live.erase mm, ¬ OwnsFrame state other frame :=
    fun frame => forall₂_congr fun other isOther => not_congr (owns isOther frame)
  constructor
  · intro frame
    rw [left.free_iff, kept.free_iff, unowned, npage]
    by_cases mine : OwnsFrame state mm frame
    · have inside := kept.owned_inside isLive mine
      tauto
    have nobody : (∀ other ∈ live, ¬ OwnsFrame state other frame) ↔
        ∀ other ∈ live.erase mm, ¬ OwnsFrame state other frame := by
      constructor
      · exact fun all other isOther => all other (mem_of_mem_erase isOther)
      intro rest other isOther
      by_cases same : other = mm
      · rwa [same]
      · exact rest other (mem_erase.mpr ⟨same, isOther⟩)
    tauto
  · exact fun frame => kept.owned_busy isLive
  · intro frame taken
    rw [left.free_iff]
    exact fun isFree => (mem_union.mp taken).elim isFree.2.1 isFree.2.2.1
  · intro other isOther
    refine ⟨rfl, fun frame => ⟨owns isOther frame, fun theirs => ?_⟩⟩
    exact left.owned_busy isOther ((owns isOther frame).mpr theirs)
  · exact ⟨(kept.blocks isLive).nodup, (kept.blocks isLive).live⟩
  · exact heap
  intro before held' reachedBefore samePages sameOwners
  obtain ⟨dirBefore, roleBefore, keptBefore⟩ := reachedBefore.kept
  ext frame
  have owner := not_congr (sameOwners frame)
  push Not at owner
  rw [mem_sdiff, mem_sdiff, left.free_iff, keptBefore.free_iff, npage, samePages, unowned, owner]
  tauto

/-- The count of an address space is no part of what it owns. -/
theorem SpaceReturned.of_addCount {change : Int}
    (returned : SpaceReturned kernel held live (state.addCount mm change) mm next) :
    SpaceReturned kernel held live state mm next := by
  have blocks : ((state.addCount mm change).mms mm).blocks = (state.mms mm).blocks := by
    rw [MmState.addCount, mms_setMm]
    rfl
  have owns (other frame : Nat) :
      OwnsFrame (state.addCount mm change) other frame ↔ OwnsFrame state other frame := by
    by_cases same : other = mm
    · rw [same, OwnsFrame, MmState.addCount, mms_setMm]
      exact Iff.rfl
    · rw [OwnsFrame, MmState.addCount, mms_setMm_of_ne same]
      exact Iff.rfl
  obtain ⟨freed, busy, notKernel, others, owned, heap, level⟩ := returned
  simp only [owns, blocks] at freed busy others owned heap level
  refine ⟨freed, busy, notKernel, fun other isOther => ?_, owned, heap, level⟩
  refine ⟨(others other isOther).1.trans ?_, (others other isOther).2⟩
  exact mms_setMm_of_ne (ne_of_mem_erase isOther) _

/-- For every address space of every run: when the last process that uses it exits, or when it is
destroyed before any process uses it, `exit_mmap`, `put_pgdir` and `mm_destroy` return without a
panic, every frame and block that it alone owned is free afterwards and was not before, and the
other address spaces keep what they own. -/
theorem exit_returns_all (reached : SpaceReaches kernel held state live) (isLive : mm ∈ live) :
    ((state.mms mm).mmCount = 1 →
      CallEnds (exitMm mm) (fun _ next => SpaceReturned kernel held live state mm next)
        (fun _ _ => False) (fun _ => False) state) ∧
    ((state.mms mm).mmCount = 0 →
      CallEnds (destroySpace mm) (fun _ next => SpaceReturned kernel held live state mm next)
        (fun _ _ => False) (fun _ => False) state) := by
  obtain ⟨dirOf, role, kept⟩ := reached.kept
  refine ⟨fun last => ?_, kept.destroy_returned isLive⟩
  have unused : ((state.addCount mm (-1)).mms mm).mmCount = 0 := by
    rw [MmState.addCount, mms_setMm, last]
    rfl
  simp only [exitMm, callEnds_bind, callEnds_modify, callEnds_get, unused, if_true]
  exact ((kept.addCount isLive (-1)).destroy_returned isLive unused).mono
    (fun _ _ returned => returned.of_addCount) (fun _ _ => id) fun _ => id

/-- Memory with the kernel's directory only. -/
def freshState : MmState where
  phys := bareMemory 1 [some 1, some 2, some 3, some 4, some 5, some 6]
  heap := ∅
  heapPicks := [some 0, some 1, some 2, some 3]
  mms := fun _ => ⟨[], none, none, 0, 0⟩
  bootPgdir := 0

theorem freshState_kept : SpacesKept {0} ∅ id ∅ freshState (bareRole 1) := by
  have memory := bareMemory_kept Nat.one_pos (by decide)
    [some 1, some 2, some 3, some 4, some 5, some 6]
  refine ⟨memory, ⟨rfl, ?_⟩, ?_, ?_, ?_, ?_⟩
  · exact fun index _ => table_bareMemory 1 _ 0 index
  all_goals
    intro mm
    simp

def SpaceCall.after (call : SpaceCall) (state : MmState) : MmState :=
  match call.run state with
  | .ok (_, next) => next
  | .error _ => state

/-- The address space that a call returns. -/
def SpaceCall.result (call : SpaceCall) (state : MmState) : Option Nat :=
  match call.run state with
  | .ok (.ok result, _) => result
  | _ => none

theorem SpaceCall.run_of_result {call : SpaceCall} (returns : call.result state = some mm) :
    call.run state = .ok (.ok (some mm), call.after state) := by
  unfold result at returns
  unfold after
  split at returns
  · next ran => rw [ran, returns]
  · cases returns

def mappedState : MmState :=
  (SpaceCall.mmMap 0 0x800000 PGSIZE VM_WRITE).after
    ((SpaceCall.mmCountInc 0).after (SpaceCall.newSpace.after freshState))

/-- A process has touched a page and has forked. -/
@[irreducible] def forkedState : MmState :=
  (SpaceCall.copyMm false 0).after ((SpaceCall.doPgfault 0 2 0x800010).after mappedState)

theorem mappedState_reached : SpaceReaches {0} ∅ mappedState {0} := by
  have isLive := mem_singleton_self 0
  have made : SpaceReaches {0} ∅ (SpaceCall.newSpace.after freshState) {0} :=
    (SpaceReaches.start freshState_kept).step .newSpace trivial rfl
  have used : SpaceReaches {0} ∅ ((SpaceCall.mmCountInc 0).after
      (SpaceCall.newSpace.after freshState)) {0} := made.step (.mmCountInc 0) isLive rfl
  exact used.step (.mmMap 0 0x800000 PGSIZE VM_WRITE) isLive rfl

theorem forkedState_reached : SpaceReaches {0} ∅ forkedState {2, 0} := by
  have isLive := mem_singleton_self 0
  have touched : SpaceReaches {0} ∅ ((SpaceCall.doPgfault 0 2 0x800010).after mappedState) {0} :=
    mappedState_reached.step (.doPgfault 0 2 0x800010) isLive rfl
  unfold forkedState
  exact touched.step (.copyMm false 0) isLive (SpaceCall.run_of_result (by decide +kernel))

/-- The parent exits; its page was its own, and the child has a copy. -/
theorem exit_returns_all_parent :
    (forkedState.phys.mapped 1 0x800 = some 3 ∧ forkedState.phys.mapped 4 0x800 = some 6 ∧
      3 ∉ forkedState.phys.free) ∧
      CallEnds (exitMm 0) (fun _ next => SpaceReturned {0} ∅ {2, 0} forkedState 0 next)
        (fun _ _ => False) (fun _ => False) forkedState :=
  ⟨by decide +kernel,
    (exit_returns_all forkedState_reached (by decide)).1 (by decide +kernel)⟩

end Exit

end UcoreSmp
