import Mathlib.Order.Interval.Finset.Nat
import UcoreSmp.PagingRanges

/-!
# Page reference counts in every run

Any sequence of `pgdir_alloc_page`, `page_insert`, `page_remove`, `unmap_range`
and `copy_range` on a set of page directories.  The counter of every user frame
is the number of entries that map it, and the allocator holds exactly the user
frames that nothing maps and no caller holds.
-/

namespace UcoreSmp

inductive PagingCall where
  | pgdirAllocPage (dir la perm : Nat)
  | pageInsert (dir page la perm : Nat)
  | pageRemove (dir la : Nat)
  | unmapRange (dir start last : Nat)
  | copyRange (toDir fromDir start last : Nat)

namespace PagingCall

def run : PagingCall → Paging PUnit
  | .pgdirAllocPage dir la perm => do let _ ← UcoreSmp.pgdirAllocPage dir la perm
  | .pageInsert dir page la perm => UcoreSmp.pageInsert dir page la perm
  | .pageRemove dir la => UcoreSmp.pageRemove dir la
  | .unmapRange dir start last => UcoreSmp.unmapRange dir start last
  | .copyRange toDir fromDir start last => UcoreSmp.copyRange toDir fromDir start last

/-- A frame that the caller held is no longer its own once it is mapped. -/
def heldAfter (call : PagingCall) (result : Except Int Unit) (held : Finset Nat) : Finset Nat :=
  match call, result with
  | .pageInsert _ page _ _, .ok _ => held.erase page
  | _, _ => held

end PagingCall

/-- A frame that is no page directory, no page table of user space and not owned
by the kernel. -/
structure UserFrame (dirs kernel : Finset Nat) (state : PhysState) (frame : Nat) : Prop where
  inside : frame < state.npage
  notKernel : frame ∉ kernel
  notDir : frame ∉ dirs
  notTable : ∀ dir ∈ dirs, ∀ index, index < USERTABLES → state.table dir index ≠ some frame

def UserAddress (la : Nat) : Prop := USERBASE ≤ la ∧ la < USERTOP

/-- The arguments that a call may have.  `page_insert` takes an allocated user
frame. -/
def PagingCall.Valid (dirs kernel : Finset Nat) (state : PhysState) : PagingCall → Prop
  | .pgdirAllocPage dir la perm => dir ∈ dirs ∧ UserAddress la ∧ perm < PGSIZE
  | .pageInsert dir page la perm => dir ∈ dirs ∧ UserAddress la ∧ perm < PGSIZE ∧
      UserFrame dirs kernel state page ∧ page ∉ state.free
  | .pageRemove dir la => dir ∈ dirs ∧ UserAddress la
  | .unmapRange dir start last => dir ∈ dirs ∧ PageRange start last
  | .copyRange toDir fromDir start last => toDir ∈ dirs ∧ fromDir ∈ dirs ∧ PageRange start last

/-- Well-formed memory with the given directories, kernel frames and frames that
callers hold. -/
structure PagingKept (dirs kernel held : Finset Nat) (state : PhysState)
    (role : Nat → FrameRole) : Prop where
  paged : Paged state dirs role none
  outside : ∀ frame, role frame = .outside ↔ state.npage ≤ frame
  kernel : ∀ frame, frame ∈ kernel ↔ role frame = .kernel
  held : ∀ frame, frame ∈ held ↔ role frame = .held

inductive PagingReaches (dirs kernel : Finset Nat) : PhysState → Finset Nat → Prop where
  | start {state : PhysState} {held : Finset Nat} {role : Nat → FrameRole}
      (kept : PagingKept dirs kernel held state role) : PagingReaches dirs kernel state held
  | step {state next : PhysState} {held : Finset Nat} {result : Except Int Unit}
      (before : PagingReaches dirs kernel state held) (call : PagingCall)
      (valid : call.Valid dirs kernel state) (ran : call.run state = .ok (result, next)) :
      PagingReaches dirs kernel next (call.heldAfter result held)

variable {dirs kernel held : Finset Nat} {role : Nat → FrameRole} {state : PhysState}

section Kept

variable {next : PhysState} {role' : Nat → FrameRole} {frame : Nat}

section

variable (kept : PagingKept dirs kernel held state role)

include kept

theorem PagingKept.userFrame_iff : UserFrame dirs kernel state frame ↔
      role frame = .free ∨ role frame = .held ∨ role frame = .user := by
  constructor
  · rintro ⟨inside, notKernel, notDir, notTable⟩
    rw [kept.kernel] at notKernel
    rw [kept.paged.dirs_iff] at notDir
    cases isRole : role frame with
    | outside => exact absurd ((kept.outside frame).mp isRole) (by omega)
    | free => exact .inl rfl
    | kernel => exact absurd isRole notKernel
    | directory => exact absurd isRole notDir
    | table dir index =>
      obtain ⟨isDir, small⟩ := kept.paged.layout.table_dir isRole
      exact absurd ((kept.paged.layout.table_iff isDir small).mpr isRole)
        (notTable dir (kept.paged.mem_dirs isDir) index small)
    | held => exact .inr (.inl rfl)
    | user => exact .inr (.inr rfl)
  intro either
  have other : ∀ third, third ≠ .free → third ≠ .held → third ≠ .user → role frame ≠ third := by
    rintro third notFree notHeld notUser rfl
    simp [notFree, notHeld, notUser] at either
  refine ⟨kept.paged.inside (other _ (by simp) (by simp) (by simp)), ?_, ?_, ?_⟩
  · rw [kept.kernel]
    exact other _ (by simp) (by simp) (by simp)
  · rw [kept.paged.dirs_iff]
    exact other _ (by simp) (by simp) (by simp)
  intro dir member index small found
  have isTable := (kept.paged.layout.table_iff (kept.paged.isDir member) small).mp found
  exact other _ (by simp) (by simp) (by simp) isTable

/-- The directories may change, but not what the kernel and the callers have. -/
theorem PagingKept.later {area : Nat → Nat → Prop} {among dirs' : Finset Nat}
    (paged : Paged next dirs' role' none) (touches : Touches among area state role next role')
    (same : ∀ frame, role' frame = .held ↔ role frame = .held) :
    PagingKept dirs' kernel held next role' where
  paged := paged
  outside frame := by
    rw [touches.outside, touches.npage]
    exact kept.outside frame
  kernel frame := (kept.kernel frame).trans (touches.kernel frame).symm
  held frame := (kept.held frame).trans (same frame).symm

theorem PagingKept.step {area : Nat → Nat → Prop}
    (step : PagedStep dirs area state role next role') : PagingKept dirs kernel held next role' :=
  kept.later step.paged step.touches step.held.same

theorem PagingKept.insert {dir page entry : Nat}
    (inserted : Inserted dirs state role dir page frame entry next role') :
    PagingKept dirs kernel (held.erase frame) next role' where
  paged := inserted.paged
  outside other := by
    rw [inserted.touches.outside, inserted.touches.npage]
    exact kept.outside other
  kernel other := (kept.kernel other).trans (inserted.touches.kernel other).symm
  held other := by
    rw [inserted.held, Finset.mem_erase, kept.held]
    exact and_comm

theorem PagingCall.run_ends (call : PagingCall) (valid : call.Valid dirs kernel state) :
    CallEnds call.run
      (fun value next => ∃ role', PagingKept dirs kernel (call.heldAfter (.ok value) held) next
        role')
      (fun code next => ∃ role',
        PagingKept dirs kernel (call.heldAfter (.error code) held) next role')
      MmFault.OutOfMemory state := by
  cases call with
  | pgdirAllocPage dir la perm =>
    obtain ⟨member, user, fits⟩ := valid
    rw [run, callEnds_bind]
    apply pgdirAllocPage_ends kept.paged (kept.paged.isDir member) user.2 fits
    · exact fun _ _ role' _ step _ => ⟨role', kept.step step⟩
    · exact fun _ step _ _ => ⟨role, kept.step step⟩
    · exact fun _ => .inl rfl
  | pageInsert dir page la perm =>
    obtain ⟨member, user, fits, isUser, taken⟩ := valid
    have owned : role page = .user ∨ role page = .held := by
      rw [kept.paged.free_iff] at taken
      have := kept.userFrame_iff.mp isUser
      tauto
    apply pageInsert_ends kept.paged (kept.paged.isDir member) user.2 fits owned
    · intro _ _
      exact ⟨fun _ => .inl rfl, fun _ => ⟨role, kept.step (kept.paged.step_deny Nowhere)⟩⟩
    · exact fun _ role' inserted => ⟨role', kept.insert inserted⟩
  | pageRemove dir la =>
    obtain ⟨member, user⟩ := valid
    apply pageRemove_ends kept.paged (kept.paged.isDir member) user.2
    exact fun _ role' step _ => ⟨role', kept.step step⟩
  | unmapRange dir start last =>
    obtain ⟨member, range⟩ := valid
    apply unmapRange_ends kept.paged (kept.paged.isDir member) range
    exact fun _ role' step _ => ⟨role', kept.step step⟩
  | copyRange toDir fromDir start last =>
    obtain ⟨memberTo, memberFrom, range⟩ := valid
    apply copyRange_ends kept.paged (kept.paged.isDir memberFrom)
      (kept.paged.isDir memberTo) range
    · exact fun _ role' _ _ copying => ⟨role', kept.step copying.step⟩
    · exact fun _ role' step _ _ _ => ⟨role', kept.step step⟩
    · exact fun _ _ short _ _ => short

end

theorem PagingReaches.kept (reached : PagingReaches dirs kernel state held) :
    ∃ role, PagingKept dirs kernel held state role := by
  induction reached with
  | start kept => exact ⟨_, kept⟩
  | step before call valid ran ih =>
    obtain ⟨role, kept⟩ := ih
    have ends := call.run_ends kept valid
    unfold CallEnds Ends ExceptT.run at ends
    rw [ran] at ends
    rename_i result
    cases result with
    | ok value => exact ends
    | error code => exact ends

theorem PagingKept.ref_eq (kept : PagingKept dirs kernel held state role)
    (isUser : UserFrame dirs kernel state frame) : state.ref frame = state.mappers dirs frame := by
  by_cases maps : role frame = .user
  · simpa using kept.paged.counted maps
  have idle : role frame = .free ∨ role frame = .held := by
    have := kept.userFrame_iff.mp isUser
    tauto
  rw [kept.paged.idle idle, kept.paged.mappers_eq_zero maps]
  rfl

theorem PagingKept.free_iff (kept : PagingKept dirs kernel held state role)
    (isUser : UserFrame dirs kernel state frame) (mine : frame ∉ held) :
    frame ∈ state.free ↔ state.mappers dirs frame = 0 := by
  rw [kept.held] at mine
  rw [kept.paged.free_iff]
  constructor
  · intro isFree
    exact kept.paged.mappers_eq_zero (by simp [isFree])
  intro unmapped
  have notMapped : role frame ≠ .user := by
    intro maps
    have := kept.paged.used maps (by simp)
    omega
  have := kept.userFrame_iff.mp isUser
  tauto

end Kept

theorem PagingKept.empty (small : state.npage ≤ 2 ^ 20)
    (outside : ∀ frame, role frame = .outside ↔ state.npage ≤ frame)
    (free : ∀ frame, frame ∈ state.free ↔ role frame = .free)
    (isDir : ∀ dir, dir ∈ dirs ↔ role dir = .directory)
    (isKernel : ∀ frame, frame ∈ kernel ↔ role frame = .kernel)
    (isHeld : ∀ frame, frame ∈ held ↔ role frame = .held)
    (noTable : ∀ frame dir index, role frame ≠ .table dir index)
    (noUser : ∀ frame, role frame ≠ .user)
    (clear : ∀ dir ∈ dirs, ∀ index, index < USERTABLES → state.table dir index = none)
    (ref : ∀ frame, state.ref frame = 0) : PagingKept dirs kernel held state role := by
  have pte : ∀ {dir page}, role dir = .directory → page < USERPAGES → state.pte dir page = 0 := by
    intro dir page directory inside
    exact PhysState.pte_of_none (clear dir ((isDir dir).mpr directory) _ (page_table_lt inside))
  have unmapped : ∀ {dir page}, role dir = .directory → page < USERPAGES →
      state.mapped dir page = none := by
    intro dir page directory inside
    rw [PhysState.mapped, pte directory inside]
    rfl
  refine ⟨⟨small, ?_, free, isDir, ⟨?_, ?_, ?_, ?_⟩, by simp, ?_, ?_, ?_⟩, outside, isKernel,
    isHeld⟩
  · intro frame notOutside
    rw [Ne, outside] at notOutside
    omega
  · intro dir index table directory inside
    rw [clear dir ((isDir dir).mpr directory) index inside]
    simp [noTable table dir index]
  · exact fun isTable => absurd isTable (noTable _ _ _)
  · intro dir page frame directory inside maps
    rw [unmapped directory inside] at maps
    cases maps
  · exact fun directory inside _ => pte directory inside
  · exact fun user => absurd user (noUser _)
  · exact fun user => absurd user (noUser _)
  · exact fun _ => ref _

/-- In every state of every run: counters are exact, the allocator holds a user
frame exactly when nothing maps it and no caller holds it, no free frame is
mapped, the next call frees exactly the frames whose last mapping it removes, and
it can only stop for lack of memory, never by freeing a frame twice. -/
theorem page_refs_exact (reached : PagingReaches dirs kernel state held) :
    (∀ frame, UserFrame dirs kernel state frame → state.ref frame = state.mappers dirs frame ∧
        (frame ∉ held → (frame ∈ state.free ↔ state.mappers dirs frame = 0))) ∧
    (∀ frame ∈ state.free, state.mappers dirs frame = 0) ∧
    ∀ call : PagingCall, call.Valid dirs kernel state →
      CallEnds call.run (fun _ _ => True) (fun _ _ => True) MmFault.OutOfMemory state ∧
      ∀ result next, call.run state = .ok (result, next) →
        ∀ frame, UserFrame dirs kernel state frame → UserFrame dirs kernel next frame →
          frame ∉ held →
          ((frame ∉ state.free ∧ frame ∈ next.free) ↔
            (0 < state.mappers dirs frame ∧ next.mappers dirs frame = 0)) := by
  obtain ⟨role, kept⟩ := reached.kept
  refine ⟨?_, ?_, ?_⟩
  · exact fun frame isUser => ⟨kept.ref_eq isUser, kept.free_iff isUser⟩
  · intro frame isFree
    rw [kept.paged.free_iff] at isFree
    exact kept.paged.mappers_eq_zero (by simp [isFree])
  intro call valid
  constructor
  · exact (call.run_ends kept valid).weaken (fun _ _ _ => trivial) (fun _ _ _ => trivial)
  intro result next ran frame isUser isUser' mine
  obtain ⟨role', kept'⟩ := (reached.step call valid ran).kept
  have mine' : frame ∉ call.heldAfter result held := by
    unfold PagingCall.heldAfter
    split
    · exact fun member => mine (Finset.mem_of_mem_erase member)
    · exact mine
  rw [kept.free_iff isUser mine, kept'.free_iff isUser' mine', Nat.pos_iff_ne_zero]

/-- Eight frames: the first is the kernel's, then come empty directories. -/
def bareMemory (firstFree : Nat) (picks : List (Option Nat)) : PhysState where
  npage := 8
  mem := fun _ _ => 0
  ref := fun _ => 0
  free := Finset.Ico firstFree 8
  picks := picks
  denied := 0
  swapInitOk := true

def bareRole (firstFree frame : Nat) : FrameRole :=
  if frame = 0 then .kernel
  else if frame < firstFree then .directory
  else if frame < 8 then .free
  else .outside

theorem table_bareMemory (firstFree : Nat) (picks : List (Option Nat)) (dir index : Nat) :
    (bareMemory firstFree picks).table dir index = none := by
  have empty : (bareMemory firstFree picks).entry dir index = 0 := leNat_zero 4 _
  rw [PhysState.table, empty]
  rfl

theorem bareMemory_kept {firstFree : Nat} (pos : 0 < firstFree) (small : firstFree ≤ 8)
    (picks : List (Option Nat)) :
    PagingKept (Finset.Ico 1 firstFree) {0} ∅ (bareMemory firstFree picks)
      (bareRole firstFree) := by
  apply PagingKept.empty
  · change 8 ≤ 2 ^ 20
    decide
  · intro frame
    change _ ↔ 8 ≤ frame
    unfold bareRole
    split_ifs <;> simp <;> omega
  · intro frame
    unfold bareRole
    split_ifs <;> simp [bareMemory] <;> omega
  · intro frame
    unfold bareRole
    split_ifs <;> simp <;> omega
  · intro frame
    unfold bareRole
    split_ifs <;> simp <;> omega
  · intro frame
    unfold bareRole
    split_ifs <;> simp
  · intro frame dir index
    unfold bareRole
    split_ifs <;> simp
  · intro frame
    unfold bareRole
    split_ifs <;> simp
  · exact fun dir _ index _ => table_bareMemory firstFree picks dir index
  · exact fun _ => rfl

/-- The first of two directories maps one page; two more requests will succeed. -/
def mappedMemory : PhysState :=
  match (PagingCall.pgdirAllocPage 1 0x800000 PTE_U).run
      (bareMemory 3 [some 3, some 4, some 5, some 6]) with
  | .ok (_, next) => next
  | .error _ => bareMemory 3 []

theorem mappedMemory_reached : PagingReaches {1, 2} {0} mappedMemory ∅ :=
  (PagingReaches.start (bareMemory_kept (Nat.succ_pos 2) (by decide)
      [some 3, some 4, some 5, some 6])).step
    (.pgdirAllocPage 1 0x800000 PTE_U) ⟨by decide, ⟨by decide, by decide⟩, by decide⟩ rfl

theorem page_refs_exact_one_page : PagingReaches {1, 2} {0} mappedMemory ∅ ∧
      mappedMemory.mapped 1 0x800 = some 3 ∧ ∀ frame, UserFrame {1, 2} {0} mappedMemory frame →
      mappedMemory.ref frame = mappedMemory.mappers {1, 2} frame :=
  ⟨mappedMemory_reached, by decide, fun frame isUser =>
    ((page_refs_exact mappedMemory_reached).1 frame isUser).1⟩

end UcoreSmp
