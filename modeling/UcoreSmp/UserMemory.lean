import UcoreSmp.AddressSpaceCalls
import UcoreSmp.LoadIcode

/-!
# User memory

What a process reads at a user address, through its page tables.  While a program
is loaded, every page of the new address space has a frame of its own, so a write
to one page leaves all others as they are.
-/

namespace UcoreSmp

open PhysState

def PhysState.userByte (state : PhysState) (dir addr : Nat) : Option UInt8 :=
  (state.mapped dir (pageNumber addr)).map fun frame => state.mem frame (addr % PGSIZE)

/-- Every page of the directory has a frame of its own. -/
structure OwnFrames (state : PhysState) (dirs : Finset Nat) (dir : Nat) : Prop where
  same : ∀ {page frame}, page < USERPAGES → state.mapped dir page = some frame →
    ∀ {other spot}, other ∈ dirs → spot < USERPAGES →
      state.mapped other spot = some frame → other = dir ∧ spot = page

variable {dirs : Finset Nat} {role role' : Nat → FrameRole} {phys : PhysState}
  {faulty : MmFault → Prop} {dir page mm : Nat}

section View

variable {state next : PhysState} {area : Nat → Nat → Prop} {frame addr : Nat}

theorem Touches.userByte (touches : Touches dirs area state role next role')
    (member : dir ∈ dirs) (user : addr < USERTOP) (apart : ¬ area dir (pageNumber addr)) :
    next.userByte dir addr = state.userByte dir addr := by
  have inside := pageNumber_lt user
  have same := mapped_congr (touches.pte member inside apart)
  unfold PhysState.userByte
  rw [same]
  cases maps : state.mapped dir (pageNumber addr) with
  | none => rfl
  | some frame => rw [Option.map_some, Option.map_some, touches.mem member inside apart maps]

theorem OwnFrames.alloc (own : OwnFrames state dirs dir) (paged : Paged state dirs role none)
    (member : dir ∈ dirs) (isFree : role frame = .free)
    (touches : Touches dirs (OnPage dir page) state role next role')
    (maps : next.mapped dir page = some frame) : OwnFrames next dirs dir := by
  -- a page that is mapped elsewhere was so before, and its frame was not free
  have elsewhere : ∀ {other spot}, other ∈ dirs → spot < USERPAGES → ¬ (other = dir ∧ spot = page) →
      next.mapped other spot = state.mapped other spot ∧ next.mapped other spot ≠ some frame := by
    intro other spot isDir inside apart
    have same := mapped_congr (touches.pte isDir inside apart)
    refine ⟨same, fun mapsHere => ?_⟩
    rw [same] at mapsHere
    have isUser := paged.layout.user_of_mapped (paged.isDir isDir) inside mapsHere
    rw [isFree] at isUser
    cases isUser
  constructor
  intro page' frame' inside' maps' other spot isDir inside mapsOther
  by_cases here : page' = page
  · subst here
    obtain rfl : frame' = frame := Option.some.inj (maps'.symm.trans maps)
    by_contra apart
    exact (elsewhere isDir inside apart).2 mapsOther
  have first := elsewhere member inside' fun same => here same.2
  by_cases there : other = dir ∧ spot = page
  · obtain ⟨rfl, rfl⟩ := there
    obtain rfl : frame' = frame := Option.some.inj (mapsOther.symm.trans maps)
    exact absurd maps' first.2
  rw [first.1] at maps'
  rw [(elsewhere isDir inside there).1] at mapsOther
  exact own.same inside' maps' isDir inside mapsOther

theorem OwnFrames.congr (own : OwnFrames state dirs dir) (member : dir ∈ dirs)
    (same : ∀ {other spot}, other ∈ dirs → spot < USERPAGES →
      next.pte other spot = state.pte other spot) : OwnFrames next dirs dir := by
  constructor
  intro page frame inside maps other spot isDir inside' mapsOther
  rw [mapped_congr (same member inside)] at maps
  rw [mapped_congr (same isDir inside')] at mapsOther
  exact own.same inside maps isDir inside' mapsOther

theorem Paged.writePage (paged : Paged state dirs role none) (own : OwnFrames state dirs dir)
    (member : dir ∈ dirs) (inside : page < USERPAGES) (maps : state.mapped dir page = some frame)
    (bytes : Bytes) : PagedStep dirs (OnPage dir page) state role (state.setMem frame bytes) role ∧
      ∀ {other spot}, other ∈ dirs →
      spot < USERPAGES → (state.setMem frame bytes).pte other spot = state.pte other spot := by
  have isUser := paged.layout.user_of_mapped (paged.isDir member) inside maps
  have data : ¬ (role frame = .directory ∨ ∃ dir index, role frame = .table dir index) := by
    simp [isUser]
  refine ⟨⟨paged.fillData data bytes, ?_, fun _ => Iff.rfl, ?_⟩, paged.pte_fill data bytes⟩
  · apply paged.touches_fillData data bytes (by simp [isUser])
    exact fun isMember inside' maps' => own.same inside maps isMember inside' maps'
  · exact fun isHeld => mem_setMem_of_ne (ne_of_role isHeld isUser (by simp)) _

end View

/-! ## An address space that is being filled -/

/-- Well-formed memory, in which the pages of this address space have frames of
their own. -/
structure Mapping (dirs : Finset Nat) (dir mm : Nat) (state : MmState) : Prop where
  pgdir : (state.mms mm).pgdir = some dir
  member : dir ∈ dirs
  paged : ∃ role, Paged state.phys dirs role none
  own : OwnFrames state.phys dirs dir

/-- The memory after steps that changed only these pages of a directory, and after
which it is well formed again in this sense. -/
structure PageStep (formed : MmState → Prop) (dir : Nat) (pages : Nat → Prop)
    (state next : MmState) : Prop where
  formed : formed next
  bytes : ∀ {addr}, addr < USERTOP → ¬ pages (pageNumber addr) →
    next.phys.userByte dir addr = state.phys.userByte dir addr
  mms : next.mms = state.mms

section Steps

variable {pages pages' : Nat → Prop} {state middle next : MmState} {formed : MmState → Prop}

theorem PageStep.refl (isFormed : formed state) : PageStep formed dir pages state state :=
  ⟨isFormed, fun _ _ => rfl, rfl⟩

theorem PageStep.trans (first : PageStep formed dir pages state middle)
    (second : PageStep formed dir pages middle next) : PageStep formed dir pages state next where
  formed := second.formed
  bytes user apart := (second.bytes user apart).trans (first.bytes user apart)
  mms := second.mms.trans first.mms

theorem PageStep.mono (step : PageStep formed dir pages state next)
    (wider : ∀ page, pages page → pages' page) : PageStep formed dir pages' state next where
  formed := step.formed
  bytes user apart := step.bytes user fun near => apart (wider _ near)
  mms := step.mms

theorem Mapping.onPage (mapping : Mapping dirs dir mm state)
    (step : PagedStep dirs (OnPage dir page) state.phys role phys role')
    (own : OwnFrames phys dirs dir) :
    PageStep (Mapping dirs dir mm) dir (· = page) state (state.setPhys phys) where
  formed := ⟨mapping.pgdir, mapping.member, ⟨role', step.paged⟩, own⟩
  bytes user apart :=
    step.touches.userByte mapping.member user fun near => apart near.2
  mms := rfl

theorem Mapping.congr (mapping : Mapping dirs dir mm state) (phys : next.phys = state.phys)
    (pgdir : (next.mms mm).pgdir = (state.mms mm).pgdir) : Mapping dirs dir mm next where
  pgdir := pgdir.trans mapping.pgdir
  member := mapping.member
  paged := phys ▸ mapping.paged
  own := phys ▸ mapping.own

theorem Mapping.write (mapping : Mapping dirs dir mm state) {frame : Nat}
    (inside : page < USERPAGES) (maps : state.phys.mapped dir page = some frame) (bytes : Bytes) :
    PageStep (Mapping dirs dir mm) dir (· = page) state
        (state.setPhys (state.phys.setMem frame bytes)) ∧
      ∀ addr, pageNumber addr = page →
        (state.phys.setMem frame bytes).userByte dir addr = some (bytes (addr % PGSIZE)) := by
  obtain ⟨role, paged⟩ := mapping.paged
  obtain ⟨step, pte⟩ := paged.writePage mapping.own mapping.member inside maps bytes
  refine ⟨mapping.onPage step (mapping.own.congr mapping.member pte), ?_⟩
  rintro addr rfl
  rw [userByte, mapped_congr (pte mapping.member inside), maps, Option.map_some, mem_setMem_self]

end Steps

theorem pageNumber_rounddown (addr : Nat) :
    pageNumber (rounddown addr PGSIZE) = pageNumber addr := by
  unfold pageNumber rounddown PGSIZE
  omega

section Calls

variable {state : MmState} {failed : Int → MmState → Prop}

theorem Mapping.pgdirAllocPage {la perm : Nat} {post : Option Nat → MmState → Prop}
    (mapping : Mapping dirs dir mm state) (user : la < USERTOP) (fits : perm < PGSIZE)
    (done : ∀ frame next, PageStep (Mapping dirs dir mm) dir (· = pageNumber la) state next →
      next.phys.mapped dir (pageNumber la) = some frame → post (some frame) next)
    (short : ∀ next, PageStep (Mapping dirs dir mm) dir (· = pageNumber la) state next →
      post none next) (stuck : faulty .swapOut) :
    CallEnds (onPhys (UcoreSmp.pgdirAllocPage dir la perm)) post failed faulty state := by
  obtain ⟨role, paged⟩ := mapping.paged
  have isDir := paged.isDir mapping.member
  rw [callEnds_onPhys]
  apply pgdirAllocPage_ends paged isDir user fits
  · intro frame phys role' isFree step pte
    have maps : phys.mapped dir (pageNumber la) = some frame := by
      rw [mapped, pte, entryFrame_present fits]
    have own := mapping.own.alloc paged mapping.member isFree step.touches maps
    exact done frame _ (mapping.onPage step own) maps
  · intro phys step mem _
    have own : OwnFrames phys dirs dir := by
      apply mapping.own.congr mapping.member
      intro other spot _ _
      exact pte_of_sameMem mem
    exact short _ (mapping.onPage step own)
  · exact fun _ => stuck

theorem Mapping.doPgfault {errorCode addr : Nat} {post : PUnit → MmState → Prop}
    (mapping : Mapping dirs dir mm state) (user : addr < USERTOP)
    (done : ∀ next, Mapping dirs dir mm next → (next.mms mm).mmapList = (state.mms mm).mmapList →
      (∀ {other}, other < USERTOP → pageNumber other ≠ pageNumber addr →
        next.phys.userByte dir other = state.phys.userByte dir other) →
      state.phys.mapped dir (pageNumber addr) = none → post () next)
    (fails : ∀ code next, failed code next) (stuck : ∀ fault, faulty fault) :
    CallEnds (UcoreSmp.doPgfault mm errorCode addr) post failed faulty state := by
  rw [UcoreSmp.doPgfault, callEnds_bind, callEnds_findVma]
  refine ⟨fun _ => fails _ _, ?_⟩
  intro vma found
  have cached : Mapping dirs dir mm (state.setCache mm vma) := by
    refine mapping.congr rfl ?_
    rw [MmState.setCache, mms_setMm]
  obtain ⟨role, paged⟩ := cached.paged
  have below : rounddown addr PGSIZE < USERTOP := (Nat.sub_le _ _).trans_lt user
  rw [callEnds_ite]
  refine ⟨fun _ => ?_, fun _ => fails _ _⟩
  rw [callEnds_bind, callEnds_pgdirOf cached.pgdir, callEnds_onPhys]
  apply faultIn_ends paged (paged.isDir cached.member) below (faultPerm_lt _)
  · intro phys role' step
    refine ⟨fun frame isFree unmapped maps => ?_, fun _ => fails _ _⟩
    rw [pageNumber_rounddown] at step unmapped maps
    have own := cached.own.alloc paged cached.member isFree step.touches maps
    have provided := cached.onPage step own
    refine done _ provided.formed ?_ (fun isUser apart => provided.bytes isUser apart) unmapped
    rw [provided.mms, MmState.setCache, mms_setMm]
  · exact stuck

end Calls

end UcoreSmp
