import UcoreSmp.AddressSpace
import UcoreSmp.PagingRun

/-!
# Copying an address space

`dup_mmap` walks the areas of the parent backwards, so that every new area of the
child comes in front of those that the child has already.  When no request for
memory fails, the child has the parent's areas and a private copy of each page
that the parent maps in them, and the parent has not changed.
-/

namespace UcoreSmp

open List PhysState

/-- What an area is, apart from the block that holds it. -/
def Vma.shape (vma : Vma) : Nat × Nat × Nat := (vma.vmStart, vma.vmEnd, vma.vmFlags)

/-- Some areas have been put in front of an address space, and only pages in them
have changed. -/
structure DupPart (dirs : Finset Nat) (state : MmState) (role : Nat → FrameRole)
    (toMm toDir : Nat) (added : List Vma) (next : MmState) (role' : Nat → FrameRole) : Prop where
  step : PagedStep dirs (InVmas toDir added) state.phys role next.phys role'
  struct : next.mms toMm = { state.mms toMm with
    mmapList := added ++ (state.mms toMm).mmapList
    mapCount := (state.mms toMm).mapCount + added.length }
  others : ∀ mm, mm ≠ toMm → next.mms mm = state.mms mm
  nodup : (added.map Vma.block).Nodup
  fresh : ∀ vma ∈ added, vma.block ∉ state.heap
  heap : ∀ block, block ∈ next.heap ↔ block ∈ state.heap ∨ block ∈ added.map Vma.block
  boot : next.bootPgdir = state.bootPgdir
  ordered : VmasOrdered (next.mms toMm).mmapList

variable {dirs : Finset Nat} {role role' : Nat → FrameRole} {added : List Vma}
  {state next : MmState}

section Dup

variable {fromMm toMm fromDir toDir : Nat} {vma : Vma} {phys : PhysState} {role₁ : Nat → FrameRole}
  {request : MemoryRequest} {steps : List CopyStep}

theorem link_front {struct : MmStruct}
    (front : ∀ other ∈ struct.mmapList, vma.vmStart < other.vmStart) :
    struct.link vma = { struct with
      mmapList := vma :: struct.mmapList
      mapCount := struct.mapCount + 1 } := by
  have before : vmasBefore vma struct.mmapList = [] := by
    cases isList : struct.mmapList with
    | nil => rfl
    | cons first rest =>
      have later := front first (by rw [isList]; exact mem_cons_self)
      simp [vmasBefore, Nat.not_le.mpr later]
  have after : vmasAfter vma struct.mmapList = struct.mmapList := by
    have split := vmas_split vma struct.mmapList
    rwa [before, nil_append] at split
  rw [MmStruct.link, before, after]
  rfl

variable {other : Vma} {page : Nat}

theorem covers_of_shape (same : vma.shape = other.shape) : vma.Covers page ↔ other.Covers page := by
  simp only [Vma.shape, Prod.mk.injEq] at same
  rw [Vma.Covers, Vma.Covers, same.1, same.2.1]

theorem inVmas_singleton (dir : Nat) : InVmas dir [vma] =
    InRange dir (pageNumber vma.vmStart) (pageNumber vma.vmEnd) := by
  ext other page
  simp [InVmas, InRange, Vma.Covers]

theorem covers_disjoint (apart : vma.vmEnd ≤ other.vmStart)
    (covers : vma.Covers page) : ¬ other.Covers page := by
  intro both
  have below := covers.2
  have above := both.1
  have : pageNumber vma.vmEnd ≤ pageNumber other.vmStart := Nat.div_le_div_right apart
  omega

theorem InVmas.mono {list : List Vma} (subset : added ⊆ list) (dir : Nat) (page : Nat)
    (inside : InVmas toDir added dir page) : InVmas toDir list dir page := by
  obtain ⟨same, area, member, covers⟩ := inside
  exact ⟨same, area, subset member, covers⟩

theorem DupPart.refl (paged : Paged state.phys dirs role none)
    (ordered : VmasOrdered (state.mms toMm).mmapList) :
    DupPart dirs state role toMm toDir [] state role where
  step := PagedStep.refl paged
  struct := by simp
  others _ _ := rfl
  nodup := by simp
  fresh := by simp
  heap := by simp
  boot := rfl
  ordered := ordered

/-- The state in which a new first area is linked in, and its pages copied. -/
def MmState.withFirst (state : MmState) (mm : Nat) (vma : Vma) (phys : PhysState) : MmState :=
  ((state.take vma.block).setMm mm ((state.mms mm).link vma)).setPhys phys

theorem mms_withFirst (front : ∀ other ∈ (state.mms toMm).mmapList, vma.vmStart < other.vmStart) :
    (state.withFirst toMm vma phys).mms toMm = { state.mms toMm with
      mmapList := vma :: (state.mms toMm).mmapList
      mapCount := (state.mms toMm).mapCount + 1 } := by
  rw [← link_front front]
  exact Function.update_self _ _ _

theorem mms_withFirst_of_ne {mm : Nat} (distinct : mm ≠ toMm) :
    (state.withFirst toMm vma phys).mms mm = state.mms mm :=
  Function.update_of_ne distinct _ _

theorem DupPart.first (vma : Vma) (ordered : VmasOrdered (state.mms toMm).mmapList)
    (nonempty : vma.vmStart < vma.vmEnd)
    (front : ∀ other ∈ (state.mms toMm).mmapList, vma.vmEnd ≤ other.vmStart)
    (unused : vma.block ∉ state.heap)
    (step : PagedStep dirs (InRange toDir (pageNumber vma.vmStart) (pageNumber vma.vmEnd))
      state.phys role phys role₁) :
    DupPart dirs state role toMm toDir [vma] (state.withFirst toMm vma phys) role₁ := by
  have struct : (state.withFirst toMm vma phys).mms toMm = _ :=
    mms_withFirst fun other member => nonempty.trans_le (front other member)
  refine ⟨by rwa [inVmas_singleton], struct, fun _ => mms_withFirst_of_ne, by simp, by simpa, ?_,
    rfl, ?_⟩
  · intro block
    change block ∈ insert vma.block state.heap ↔ _
    rw [Finset.mem_insert, map_singleton, mem_singleton, or_comm]
  · rw [struct]
    exact ⟨pairwise_cons.mpr ⟨front, ordered.sorted⟩, forall_mem_cons.mpr ⟨nonempty,
      ordered.nonempty⟩⟩

theorem DupPart.trans {mid : MmState} {more : List Vma}
    (first : DupPart dirs state role toMm toDir added mid role₁)
    (later : DupPart dirs mid role₁ toMm toDir more next role') :
    DupPart dirs state role toMm toDir (more ++ added) next role' where
  step := (first.step.mono (InVmas.mono (subset_append_right _ _))).trans
    (later.step.mono (InVmas.mono (subset_append_left _ _)))
  struct := by
    rw [later.struct, first.struct]
    simp only [append_assoc, length_append, Nat.cast_add, MmStruct.mk.injEq, true_and, and_true]
    omega
  others mm distinct := (later.others mm distinct).trans (first.others mm distinct)
  nodup := by
    rw [map_append, nodup_append]
    refine ⟨later.nodup, first.nodup, ?_⟩
    rintro block isMore _ isAdded rfl
    obtain ⟨area, member, rfl⟩ := mem_map.mp isMore
    exact later.fresh area member ((first.heap _).mpr (.inr isAdded))
  fresh := by
    refine forall_mem_append.mpr ⟨fun area member used => ?_, first.fresh⟩
    exact later.fresh area member ((first.heap _).mpr (.inl used))
  heap block := by
    rw [later.heap, first.heap, map_append, mem_append]
    tauto
  boot := later.boot.trans first.boot
  ordered := later.ordered

theorem pick_unused {block : Nat} (picked : state.pick = some block) : block ∉ state.heap := by
  unfold MmState.pick at picked
  split at picked
  · split at picked
    · cases picked
    next unused =>
    cases picked
    exact unused
  · cases picked

def MmState.supply (state : MmState) : Supply :=
  ⟨state.phys.free, state.phys.picks, state.heap, state.heapPicks⟩

abbrev DupSpends (toDir : Nat) : MmState → List CopyStep → MmState → Prop :=
  CopyServed (fun (_ : Unit) state => state.supply) fun state => HasTables state.phys toDir

abbrev DupRefuses (toDir : Nat) : MmState → List CopyStep → MemoryRequest → Prop :=
  CopyStopped (fun (_ : Unit) state => state.supply) fun state => HasTables state.phys toDir

def vmaSteps (phys : PhysState) (dir : Nat) (vma : Vma) : List CopyStep :=
  .area :: mappedSteps phys dir (pageNumber vma.vmStart)
    (pageNumber vma.vmEnd - pageNumber vma.vmStart)

def EmptyArea (phys : PhysState) (dir : Nat) (vma : Vma) : Prop :=
  ∀ page, vma.Covers page → phys.pte dir page = 0

theorem serve_block : state.supply.serve .block =
    state.pick.map fun block => (state.take block).supply := by
  unfold MmState.pick Supply.serve MmState.supply MmState.take
  cases state.heapPicks with
  | nil => rfl
  | cons answer rest =>
    cases answer with
    | none => rfl
    | some found =>
      dsimp only
      split <;> rfl

theorem dupSpends_area {block : Nat} (picked : state.pick = some block)
    (same : next.supply = (state.take block).supply) (phys : next.phys = state.phys) :
    DupSpends toDir state [.area] next := by
  intro tables has
  constructor
  · intro _
    dsimp only
    rw [same, copyRequests, serveAll, serve_block, picked]
    rfl
  · change HasTables next.phys toDir tables
    rw [phys]
    exact has

theorem dupRefuses_area (refused : state.pick = none) : DupRefuses toDir state [.area] .block := by
  intro tables has _
  dsimp only
  rw [copyRequests, firstRefused, serve_block, refused]
  rfl

/-- What `copy_range` took, seen from the whole state. -/
theorem CopyServed.onPhys (served : CopySpends toDir state.phys steps phys) :
    DupSpends toDir state steps (state.setPhys phys) := by
  intro tables has
  obtain ⟨supply, has'⟩ := served tables has
  exact ⟨fun _ => supply state.supply, has'⟩

theorem CopyStopped.onPhys (stopped : CopyRefuses toDir state.phys steps request) :
    DupRefuses toDir state steps request :=
  fun tables has _ => stopped tables has state.supply

variable {post : PUnit → MmState → Prop} {failed : Int → MmState → Prop} {faulty : MmFault → Prop}

/-- What the two sides of `dup_mmap` need to be copied. -/
structure DupReady (dirs : Finset Nat) (state : MmState) (role : Nat → FrameRole)
    (fromMm toMm fromDir toDir : Nat) : Prop where
  paged : Paged state.phys dirs role none
  isFrom : role fromDir = .directory
  isTo : role toDir = .directory
  distinctDirs : fromDir ≠ toDir
  distinctMms : fromMm ≠ toMm
  fromPgdir : (state.mms fromMm).pgdir = some fromDir
  toPgdir : (state.mms toMm).pgdir = some toDir
  ordered : VmasOrdered (state.mms toMm).mmapList

theorem DupReady.after (ready : DupReady dirs state role fromMm toMm fromDir toDir)
    (part : DupPart dirs state role toMm toDir added next role') :
    DupReady dirs next role' fromMm toMm fromDir toDir where
  paged := part.step.paged
  isFrom := part.step.paged.isDir (ready.paged.mem_dirs ready.isFrom)
  isTo := part.step.paged.isDir (ready.paged.mem_dirs ready.isTo)
  distinctDirs := ready.distinctDirs
  distinctMms := ready.distinctMms
  fromPgdir := by
    rw [part.others _ ready.distinctMms]
    exact ready.fromPgdir
  toPgdir := by
    rw [part.struct]
    exact ready.toPgdir
  ordered := part.ordered

/-- The areas have been copied in front of those of the target. -/
structure DupDone (dirs : Finset Nat) (state : MmState) (role : Nat → FrameRole)
    (fromDir toMm toDir : Nat) (areas added : List Vma) (next : MmState)
    (role' : Nat → FrameRole) : Prop where
  part : DupPart dirs state role toMm toDir added next role'
  shapes : added.map Vma.shape = areas.reverse.map Vma.shape
  copied : ∀ vma ∈ areas, ∀ page, vma.Covers page →
    PageCopied dirs (InVmas toDir added) state.phys fromDir toDir next.phys page
  spends : (∀ vma ∈ areas, EmptyArea state.phys toDir vma) →
    DupSpends toDir state (areas.flatMap (vmaSteps state.phys fromDir)) next

/-- The first request for some areas that is refused, if the target maps nothing
there. -/
def AreasRefuse (state : MmState) (fromDir toDir : Nat) (areas : List Vma)
    (request : MemoryRequest) : Prop :=
  (∀ vma ∈ areas, EmptyArea state.phys toDir vma) →
    DupRefuses toDir state (areas.flatMap (vmaSteps state.phys fromDir)) request

/-- The copy of some areas gave up for want of memory. -/
def DupShort (dirs : Finset Nat) (state : MmState) (role : Nat → FrameRole)
    (fromDir toMm toDir : Nat) (areas : List Vma) (next : MmState) : Prop :=
  ∃ role' added request, DupPart dirs state role toMm toDir added next role' ∧
    (∀ area ∈ added, area.shape ∈ areas.map Vma.shape) ∧
    state.phys.denied < next.phys.denied ∧ ¬ request.Fatal state.phys.swapInitOk ∧
    AreasRefuse state fromDir toDir areas request

/-- The copy of some areas stopped the kernel for want of memory. -/
def DupStuck (state : MmState) (fromDir toDir : Nat) (areas : List Vma) (fault : MmFault) : Prop :=
  ∃ request : MemoryRequest, fault.OutOfMemory ∧ request.Fatal state.phys.swapInitOk ∧
    AreasRefuse state fromDir toDir areas request

section Refusals

variable {areas more : List Vma} {fault : MmFault}

theorem AreasRefuse.append (refuses : AreasRefuse state fromDir toDir areas request) :
    AreasRefuse state fromDir toDir (areas ++ more) request := by
  intro empty
  rw [flatMap_append]
  exact (refuses fun vma member => empty vma (mem_append_left more member)).append _

theorem DupShort.append (short : DupShort dirs state role fromDir toMm toDir areas next) :
    DupShort dirs state role fromDir toMm toDir (areas ++ more) next := by
  obtain ⟨role', added, request, part, shapes, denied, mild, refuses⟩ := short
  refine ⟨role', added, request, part, ?_, denied, mild, refuses.append⟩
  intro area member
  rw [map_append]
  exact mem_append_left _ (shapes area member)

theorem DupStuck.append (stuck : DupStuck state fromDir toDir areas fault) :
    DupStuck state fromDir toDir (areas ++ more) fault := by
  obtain ⟨request, outOfMemory, fatal, refuses⟩ := stuck
  exact ⟨request, outOfMemory, fatal, refuses.append⟩

end Refusals

/-- One round of `dup_mmap`, and what is left to do after it. -/
theorem dupVma_ends (ready : DupReady dirs state role fromMm toMm fromDir toDir)
    {rest : List Vma} (range : PageRange vma.vmStart vma.vmEnd)
    (front : ∀ other ∈ (state.mms toMm).mmapList, vma.vmEnd ≤ other.vmStart)
    (onwards : ∀ added next role', DupDone dirs state role fromDir toMm toDir [vma] added next
      role' → CallEnds (dupVmas toMm fromMm rest) post failed faulty next)
    (short : ∀ next, DupShort dirs state role fromDir toMm toDir [vma] next →
      failed (-E_NO_MEM) next)
    (stuck : ∀ fault, DupStuck state fromDir toDir [vma] fault → faulty fault) :
    CallEnds (dupVmas toMm fromMm (vma :: rest)) post failed faulty state := by
  have nonempty := range.user.2.1
  rw [dupVmas, callEnds_bind, vmaCreate, callEnds_bind, callEnds_kmalloc]
  constructor
  · intro refused
    have refusal : AreasRefuse state fromDir toDir [vma] .block :=
      fun _ => (dupRefuses_area refused).append _
    refine ⟨fun swap => stuck .swapOut ⟨.block, .inl rfl, swap, refusal⟩, fun noSwap => ?_⟩
    have same : PagedStep dirs (InVmas toDir []) state.phys role state.deny.phys role :=
      ready.paged.step_congr _ rfl rfl rfl rfl rfl (Nat.le_succ _)
    refine short state.deny ⟨role, [], .block, ⟨same, by simp [MmState.deny], fun _ _ => rfl,
      by simp, by simp, by simp [MmState.deny], rfl, ready.ordered⟩, by simp, Nat.lt_succ_self _,
      ?_, refusal⟩
    simp [MemoryRequest.Fatal, noSwap]
  intro block picked
  have unused := pick_unused picked
  rw [callEnds_pure, callEnds_bind]
  apply insertVmaStruct_ends
  · exact ready.ordered
  · exact nonempty
  · intro other member contains
    exact absurd contains.1 (Nat.not_le.mpr (nonempty.trans_le (front other member)))
  · intro _
    set linked := (state.take block).setMm toMm
      (((state.take block).mms toMm).link { vma with block := block })
    have toPgdir : (linked.mms toMm).pgdir = some toDir :=
      (congrArg MmStruct.pgdir (mms_setMm _)).trans ready.toPgdir
    have fromPgdir : (linked.mms fromMm).pgdir = some fromDir :=
      (congrArg MmStruct.pgdir (mms_setMm_of_ne ready.distinctMms _)).trans ready.fromPgdir
    rw [callEnds_bind, callEnds_pgdirOf toPgdir, callEnds_bind, callEnds_pgdirOf fromPgdir,
      callEnds_bind, callEnds_attempt, callEnds_onPhys]
    have first : DupSpends toDir state [.area] linked :=
      dupSpends_area picked rfl rfl
    have target : EmptyArea state.phys toDir vma →
        FreshTarget state.phys fromDir toDir (pageNumber vma.vmStart) (pageNumber vma.vmEnd) :=
      fun empty => ⟨ready.distinctDirs, fun page above below => empty page ⟨above, below⟩⟩
    have refusal : ∀ {request}, RangeRefuses state.phys fromDir toDir (pageNumber vma.vmStart)
        (pageNumber vma.vmEnd) request → AreasRefuse state fromDir toDir [vma] request := by
      intro request refused empty
      rw [flatMap_singleton]
      have stopped := refused (target (empty vma mem_cons_self))
      refine CopyStopped.later first (CopyStopped.onPhys ?_)
      exact stopped
    apply copyRange_ends ready.paged ready.isFrom ready.isTo range
    · intro phys role₁ page past copying
      refine onwards _ _ role₁ ⟨DupPart.first { vma with block := block } ready.ordered nonempty
        front unused copying.step, rfl, ?_, ?_⟩
      · rintro _ (_ | ⟨_, ⟨⟩⟩) spot covers
        rw [inVmas_singleton]
        exact copying.copied ready.distinctDirs spot covers.1 (covers.2.trans_le past) covers.2
      intro empty
      have served : CopySpends toDir linked.phys _ phys :=
        copying.served past (target (empty vma mem_cons_self))
      rw [flatMap_singleton]
      exact first.trans served.onPhys
    · intro phys role₁ step denied noSwap refused
      have part := DupPart.first { vma with block := block } ready.ordered nonempty front unused
        step
      refine short _ ⟨_, _, .table, part, by simp [Vma.shape], denied, ?_, refusal refused⟩
      simp [MemoryRequest.Fatal, noSwap]
    · exact fun fault request outOfMemory fatal refused =>
        stuck fault ⟨request, outOfMemory, fatal, refusal refused⟩
  · rintro ⟨other, member, -, inside⟩
    exact absurd inside (Nat.not_lt.mpr (front other member))

theorem inVmas_of_shapes {list : List Vma} (shapes : added.map Vma.shape = list.map Vma.shape)
    {dir other : Nat} (inside : InVmas dir added other page) : InVmas dir list other page := by
  obtain ⟨same, vma, member, covers⟩ := inside
  have isShape : vma.shape ∈ list.map Vma.shape := by
    rw [← shapes]
    exact mem_map_of_mem member
  obtain ⟨area, isArea, sameShape⟩ := mem_map.mp isShape
  exact ⟨same, area, isArea, (covers_of_shape sameShape).mpr covers⟩

section Cons

variable {mid : MmState} {first more rest : List Vma}
  (copy : DupDone dirs state role fromDir toMm toDir [vma] first mid role₁)
  (ready : DupReady dirs state role fromMm toMm fromDir toDir)
  (ranges : ∀ area ∈ rest, PageRange area.vmStart area.vmEnd)
  (earlier : ∀ area ∈ rest, area.vmEnd ≤ vma.vmStart)

include copy

theorem DupDone.shape_eq (member : other ∈ first) : other.shape = vma.shape := by
  have shape : other.shape ∈ first.map Vma.shape := mem_map_of_mem member
  rw [copy.shapes] at shape
  exact mem_singleton.mp shape

theorem DupDone.near {dir : Nat} (inside : InVmas toDir first dir page) :
    dir = toDir ∧ vma.Covers page := by
  obtain ⟨same, area, member, covers⟩ := inside
  exact ⟨same, (covers_of_shape (copy.shape_eq member)).mp covers⟩

include ready ranges

theorem DupDone.sameSteps : rest.flatMap (vmaSteps mid.phys fromDir) =
    rest.flatMap (vmaSteps state.phys fromDir) := by
  apply flatMap_congr
  intro area member
  unfold vmaSteps
  congr 1
  apply mappedSteps_congr
  intro page above below
  have inside : page < USERPAGES := below.trans_le (ranges area member).last_le
  exact mapped_congr (copy.part.step.touches.pte (ready.paged.mem_dirs ready.isFrom)
    inside fun at' => ready.distinctDirs (copy.near at').1)

include earlier

/-- An area that has been copied leaves the others as empty as they were. -/
theorem DupDone.spends_first (empty : ∀ area ∈ vma :: rest, EmptyArea state.phys toDir area) :
    DupSpends toDir state (vmaSteps state.phys fromDir vma) mid ∧
      ∀ area ∈ rest, EmptyArea mid.phys toDir area := by
  constructor
  · have spent := copy.spends fun area member => mem_singleton.mp member ▸ empty vma mem_cons_self
    rwa [flatMap_singleton] at spent
  intro area member page covers
  have inside : page < USERPAGES := covers.2.trans_le (ranges area member).last_le
  rw [copy.part.step.touches.pte (ready.paged.mem_dirs ready.isTo) inside fun at' =>
    covers_disjoint (earlier area member) covers (copy.near at').2]
  exact empty area (mem_cons_of_mem vma member) page covers

theorem DupDone.refuses (refused : AreasRefuse mid fromDir toDir rest request) :
    AreasRefuse state fromDir toDir (vma :: rest) request := by
  intro empty
  obtain ⟨spends, stillEmpty⟩ := copy.spends_first ready ranges earlier empty
  rw [flatMap_cons, ← copy.sameSteps ready ranges]
  exact CopyStopped.later spends (refused stillEmpty)

theorem DupDone.cons (range : PageRange vma.vmStart vma.vmEnd)
    (later : DupDone dirs mid role₁ fromDir toMm toDir rest more next role') :
    DupDone dirs state role fromDir toMm toDir (vma :: rest) (more ++ first) next role' := by
  have memberFrom := ready.paged.mem_dirs ready.isFrom
  have memberTo := ready.paged.mem_dirs ready.isTo
  have wider := @InVmas.mono first toDir _ (subset_append_right more first)
  refine ⟨copy.part.trans later.part, ?_, ?_, ?_⟩
  · rw [map_append, later.shapes, copy.shapes]
    simp
  · intro area member page covers
    cases mem_cons.mp member with
    | inl same =>
      subst same
      have inside : page < USERPAGES := covers.2.trans_le range.last_le
      have kept := (copy.copied area mem_cons_self page covers).later later.part.step.touches
        memberTo inside (by
          intro at'
          obtain ⟨_, other, isOther, both⟩ := inVmas_of_shapes later.shapes at'
          exact covers_disjoint (earlier other (mem_reverse.mp isOther)) both covers)
      have nowhere : Touches dirs Nowhere state.phys role state.phys role := Touches.refl _ _
      exact kept.since nowhere (fun _ _ none => none.elim) wider memberFrom inside id memberTo id
    | inr old =>
      have inside : page < USERPAGES := covers.2.trans_le (ranges area old).last_le
      exact (later.copied area old page covers).since copy.part.step.touches wider
        (InVmas.mono (subset_append_left _ _)) memberFrom inside
        (fun at' => ready.distinctDirs (copy.near at').1) memberTo
        (fun at' => covers_disjoint (earlier area old) covers (copy.near at').2)
  · intro empty
    obtain ⟨spends, stillEmpty⟩ := copy.spends_first ready ranges earlier empty
    rw [flatMap_cons, ← copy.sameSteps ready ranges]
    exact spends.trans (later.spends stillEmpty)

end Cons

theorem dupVmas_ends (rest : List Vma) (ready : DupReady dirs state role fromMm toMm fromDir toDir)
    (ranges : ∀ vma ∈ rest, PageRange vma.vmStart vma.vmEnd)
    (sorted : rest.Pairwise fun later vma => vma.vmEnd ≤ later.vmStart)
    (front : ∀ vma ∈ rest, ∀ other ∈ (state.mms toMm).mmapList, vma.vmEnd ≤ other.vmStart)
    (done : ∀ next role' added, DupDone dirs state role fromDir toMm toDir rest added next role' →
      post () next)
    (short : ∀ next, DupShort dirs state role fromDir toMm toDir rest next →
      failed (-E_NO_MEM) next)
    (stuck : ∀ fault, DupStuck state fromDir toDir rest fault → faulty fault) :
    CallEnds (dupVmas toMm fromMm rest) post failed faulty state := by
  induction rest generalizing state role with
  | nil =>
    exact done state role [] ⟨DupPart.refl ready.paged ready.ordered, rfl, by simp,
      fun _ => CopyServed.refl state⟩
  | cons vma rest ih =>
    obtain ⟨range, rangesRest⟩ := forall_mem_cons.mp ranges
    obtain ⟨earlier, sortedRest⟩ := pairwise_cons.mp sorted
    obtain ⟨frontVma, frontRest⟩ := forall_mem_cons.mp front
    apply dupVma_ends ready range frontVma
    · intro first mid role₁ copy
      have touches := copy.part.step.touches
      apply ih (ready.after copy.part) rangesRest sortedRest
      · intro area member other isOther
        rw [copy.part.struct, mem_append] at isOther
        cases isOther with
        | inl new =>
          have start : other.vmStart = vma.vmStart := congrArg Prod.fst (copy.shape_eq new)
          rw [start]
          exact earlier area member
        | inr old => exact frontRest area member other old
      · exact fun next role' added later =>
          done next role' _ (copy.cons ready rangesRest earlier range later)
      · rintro next ⟨role', added, request, part, shapes, denied, mild, refused⟩
        refine short next ⟨role', _, request, copy.part.trans part, ?_,
          touches.denied.trans_lt denied, touches.swap ▸ mild,
          copy.refuses ready rangesRest earlier refused⟩
        intro area member
        rw [map_cons, mem_cons]
        cases mem_append.mp member with
        | inl old => exact .inr (shapes area old)
        | inr new => exact .inl (copy.shape_eq new)
      · rintro fault ⟨request, outOfMemory, fatal, refused⟩
        exact stuck fault ⟨request, outOfMemory, touches.swap ▸ fatal,
          copy.refuses ready rangesRest earlier refused⟩
    · exact fun next short' => short next short'.append
    · exact fun fault stuck' => stuck fault stuck'.append

def dupSteps (phys : PhysState) (dir : Nat) (areas : List Vma) : List CopyStep :=
  areas.reverse.flatMap (vmaSteps phys dir)

theorem dupMmap_ends (ready : DupReady dirs state role fromMm toMm fromDir toDir)
    (ordered : VmasOrdered (state.mms fromMm).mmapList)
    (ranges : ∀ vma ∈ (state.mms fromMm).mmapList.reverse, PageRange vma.vmStart vma.vmEnd)
    (childless : (state.mms toMm).mmapList = [])
    (done : ∀ next role' added, DupDone dirs state role fromDir toMm toDir
      (state.mms fromMm).mmapList.reverse added next role' → post () next)
    (short : ∀ next, DupShort dirs state role fromDir toMm toDir (state.mms fromMm).mmapList.reverse
      next → failed (-E_NO_MEM) next)
    (stuck : ∀ fault, DupStuck state fromDir toDir (state.mms fromMm).mmapList.reverse fault →
      faulty fault) :
    CallEnds (dupMmap toMm fromMm) post failed faulty state := by
  apply dupVmas_ends _ ready ranges _ _ done short stuck
  · exact pairwise_reverse.mpr ordered.sorted
  intro vma _ other isOther
  rw [childless] at isOther
  cases isOther

end Dup

section Copy

theorem copied_perm {frame entry : Nat} (present : entry &&& PTE_P ≠ 0) :
    (page2pa frame ||| PTE_P ||| (entry &&& PTE_USER)) &&& PTE_USER = entry &&& PTE_USER := by
  have low : ∀ n, n &&& PTE_USER = n % 8 := fun n => Nat.and_two_pow_sub_one_eq_mod n 3
  have odd : ∀ r, r < 8 → r % 2 = 1 → (PTE_P ||| r) = r := by decide
  rw [PTE_P, Nat.and_one_is_mod] at present
  have flags : (PTE_P ||| entry % 8) = entry % 8 := odd _ (by omega) (by omega)
  rw [Nat.or_assoc, low entry, flags, page2pa_or (by unfold PGSIZE; omega), low]
  unfold PGSIZE
  omega

variable {fromMm toMm fromDir toDir : Nat}

/-- The child's address space is a private copy of the parent's, which has not
changed. -/
structure ForkedCopy (state : MmState) (fromMm toMm fromDir toDir : Nat) (next : MmState) :
    Prop where
  areas : (next.mms toMm).mmapList.map Vma.shape = (state.mms fromMm).mmapList.map Vma.shape
  mapped : ∀ page, page < USERPAGES → (next.phys.mapped toDir page ≠ none ↔
    state.phys.mapped fromDir page ≠ none ∧ ∃ vma ∈ (state.mms fromMm).mmapList, vma.Covers page)
  bytes : ∀ page frame source, page < USERPAGES → next.phys.mapped toDir page = some frame →
    state.phys.mapped fromDir page = some source →
    ∀ i, i < PGSIZE → next.phys.mem frame i = state.phys.mem source i
  perm : ∀ page, page < USERPAGES → next.phys.mapped toDir page ≠ none →
    next.phys.pte toDir page &&& PTE_USER = state.phys.pte fromDir page &&& PTE_USER
  unshared : ∀ page other frame, page < USERPAGES → other < USERPAGES →
    next.phys.mapped toDir page = some frame → next.phys.mapped fromDir other ≠ some frame
  parent : next.mms fromMm = state.mms fromMm
  parentTable : ∀ page, page < USERPAGES → next.phys.pte fromDir page = state.phys.pte fromDir page
  parentMemory : ∀ page source, page < USERPAGES → state.phys.mapped fromDir page = some source →
    next.phys.mem source = state.phys.mem source

/-- What the loop of `dup_mmap` did, seen from the two address spaces. -/
theorem DupDone.forkedCopy (done : DupDone dirs state role fromDir toMm toDir
      (state.mms fromMm).mmapList.reverse added next role')
    (ready : DupReady dirs state role fromMm toMm fromDir toDir)
    (childless : (state.mms toMm).mmapList = [])
    (clear : ∀ index, index < USERTABLES → state.phys.table toDir index = none) :
    ForkedCopy state fromMm toMm fromDir toDir next := by
  obtain ⟨part, shapes, copied, -⟩ := done
  rw [reverse_reverse] at shapes
  have memberFrom := ready.paged.mem_dirs ready.isFrom
  have memberTo := ready.paged.mem_dirs ready.isTo
  have apart : ∀ page, ¬ InVmas toDir added fromDir page :=
    fun page near => ready.distinctDirs near.1
  have parentPte : ∀ {page}, page < USERPAGES →
      next.phys.pte fromDir page = state.phys.pte fromDir page :=
    fun inside => part.step.touches.pte memberFrom inside (apart _)
  -- A page of the child is a copy, or nothing.
  have child : ∀ page, page < USERPAGES →
      (next.phys.mapped toDir page = none ∧ (state.phys.mapped fromDir page = none ∨
        ¬ ∃ vma ∈ (state.mms fromMm).mmapList, vma.Covers page)) ∨
      (state.phys.mapped fromDir page ≠ none ∧
        (∃ vma ∈ (state.mms fromMm).mmapList, vma.Covers page) ∧
        ∃ frame, CopiedPage dirs (InVmas toDir added) state.phys fromDir toDir page next.phys
          frame) := by
    intro page inside
    have empty : state.phys.pte toDir page = 0 :=
      pte_of_none (clear _ (page_table_lt inside))
    by_cases covered : ∃ vma ∈ (state.mms fromMm).mmapList, vma.Covers page
    · obtain ⟨vma, member, covers⟩ := covered
      cases copied vma (mem_reverse.mpr member) page covers with
      | inl skipped =>
        left
        refine ⟨?_, .inl skipped.1⟩
        rw [mapped, skipped.2, empty]
        rfl
      | inr copy => exact .inr ⟨copy.1, ⟨vma, member, covers⟩, copy.2⟩
    left
    refine ⟨?_, .inr covered⟩
    have same := part.step.touches.pte memberTo inside (fun near =>
      covered (inVmas_of_shapes shapes near).2)
    rw [mapped, same, empty]
    rfl
  have copy_of : ∀ {page frame}, page < USERPAGES → next.phys.mapped toDir page = some frame →
      CopiedPage dirs (InVmas toDir added) state.phys fromDir toDir page next.phys frame ∧
        state.phys.mapped fromDir page ≠ none := by
    intro page frame inside maps
    rcases child page inside with ⟨unmapped, _⟩ | ⟨present, _, other, copy⟩
    · rw [unmapped] at maps
      cases maps
    rw [copy.mapped] at maps
    cases maps
    exact ⟨copy, present⟩
  constructor
  · rw [part.struct, childless, append_nil]
    exact shapes
  · intro page inside
    rcases child page inside with ⟨unmapped, neither⟩ | ⟨present, covered, frame, copy⟩
    · rw [unmapped]
      refine ⟨fun absent => absurd rfl absent, ?_⟩
      rintro ⟨present, covered⟩
      exact (neither.elim present (fun uncovered => uncovered covered)).elim
    · simp [copy.mapped, present, covered]
  · intro page frame source inside maps isSource i small
    exact (copy_of inside maps).1.bytes isSource i small
  · intro page inside present
    obtain ⟨frame, maps⟩ := Option.ne_none_iff_exists'.mp present
    obtain ⟨copy, parentMaps⟩ := copy_of inside maps
    rw [copy.pte]
    apply copied_perm
    intro absent
    exact parentMaps (entryFrame_eq_none.mpr absent)
  · intro page other frame inside inside' maps shared
    rw [mapped_congr (parentPte inside')] at shared
    exact (copy_of inside maps).1.fresh memberFrom inside' (apart other) shared
  · exact part.others fromMm ready.distinctMms
  · exact fun page inside => parentPte inside
  · exact fun page source inside maps =>
      part.step.touches.mem memberFrom inside (apart page) maps

/-- The requests of `dup_mmap` for an empty child: the first that is refused. -/
def DupFirstRefused (state : MmState) (fromMm fromDir : Nat) (request : MemoryRequest) : Prop :=
  firstRefused Supply.serve state.supply
    (copyRequests ∅ (dupSteps state.phys fromDir (state.mms fromMm).mmapList)) = some request

theorem AreasRefuse.first {request : MemoryRequest}
    (refuses : AreasRefuse state fromDir toDir (state.mms fromMm).mmapList.reverse request)
    (ranges : ∀ vma ∈ (state.mms fromMm).mmapList, PageRange vma.vmStart vma.vmEnd)
    (clear : ∀ index, index < USERTABLES → state.phys.table toDir index = none) :
    DupFirstRefused state fromMm fromDir request := by
  have empty : ∀ vma ∈ (state.mms fromMm).mmapList.reverse, EmptyArea state.phys toDir vma :=
    fun vma member _ covers => pte_of_none (clear _
      (page_table_lt (covers.2.trans_le (ranges vma (mem_reverse.mp member)).last_le)))
  have hasNone : HasTables state.phys toDir ∅ := by
    intro index inside
    rw [clear index inside]
    simp
  exact refuses empty ∅ hasNone ()

/-- For every parent whose areas are sorted ranges of user pages and every empty
child, `dup_mmap` makes an exact copy, unless a request for memory failed: the first
one that does makes the call fail, or stops the kernel if it is a fatal one. -/
theorem dup_mmap_copies (ready : DupReady dirs state role fromMm toMm fromDir toDir)
    (ordered : VmasOrdered (state.mms fromMm).mmapList)
    (ranges : ∀ vma ∈ (state.mms fromMm).mmapList, PageRange vma.vmStart vma.vmEnd)
    (childless : (state.mms toMm).mmapList = [])
    (clear : ∀ index, index < USERTABLES → state.phys.table toDir index = none) :
    CallEnds (dupMmap toMm fromMm) (fun _ next => ForkedCopy state fromMm toMm fromDir toDir next)
      (fun code next => code = -E_NO_MEM ∧ state.phys.denied < next.phys.denied ∧
        ∃ request, ¬ request.Fatal state.phys.swapInitOk ∧
          DupFirstRefused state fromMm fromDir request)
      (fun fault => fault.OutOfMemory ∧ ∃ request, request.Fatal state.phys.swapInitOk ∧
        DupFirstRefused state fromMm fromDir request) state := by
  apply dupMmap_ends ready ordered (fun vma member => ranges vma (mem_reverse.mp member)) childless
  · exact fun next role' added done => done.forkedCopy ready childless clear
  · rintro next ⟨_, _, request, _, _, denied, mild, refused⟩
    exact ⟨rfl, denied, request, mild, refused.first ranges clear⟩
  · rintro fault ⟨request, outOfMemory, fatal, refused⟩
    exact ⟨outOfMemory, request, fatal, refused.first ranges clear⟩

/-- A parent with one mapped page and an empty child.  Irreducible, so that only
the kernel runs it. -/
@[irreducible] def forkSample : MmState where
  phys := mappedMemory
  heap := {0, 1, 2}
  heapPicks := [some 3]
  mms := fun mm => if mm = 0
    then ⟨[⟨2, 0x800000, 0x801000, VM_READ⟩], none, some 1, 1, 1⟩
    else ⟨[], none, some 2, 0, 0⟩
  bootPgdir := 0

theorem forkSample_ready : ∃ role, DupReady {1, 2} forkSample role 0 1 1 2 := by
  obtain ⟨role, kept⟩ := mappedMemory_reached.kept
  unfold forkSample
  refine ⟨role, kept.paged, kept.paged.isDir (by decide),
    kept.paged.isDir (by decide), by decide, by decide, rfl, rfl, ?_⟩
  exact ⟨List.Pairwise.nil, fun vma member => absurd member not_mem_nil⟩

/-- The sample's copy succeeds, so the child has a page of its own. -/
theorem dup_mmap_copies_one_page :
    CallEnds (dupMmap 1 0) (fun _ next => ForkedCopy forkSample 0 1 1 2 next)
        (fun code next => code = -E_NO_MEM ∧ forkSample.phys.denied < next.phys.denied ∧
          ∃ request, ¬ request.Fatal forkSample.phys.swapInitOk ∧
            DupFirstRefused forkSample 0 1 request)
        (fun fault => fault.OutOfMemory ∧ ∃ request, request.Fatal forkSample.phys.swapInitOk ∧
          DupFirstRefused forkSample 0 1 request) forkSample ∧
      ((dupMmap 1 0).run forkSample).toOption.map
        (fun result => (result.1.isOk, result.2.phys.mapped 2 0x800)) = some (true, some 6) := by
  obtain ⟨role, ready⟩ := forkSample_ready
  refine ⟨dup_mmap_copies ready ?_ ?_ ?_ (by decide +kernel), by decide +kernel⟩
  · exact ⟨by simp [forkSample], by simp [forkSample]⟩
  · simp only [forkSample, if_true, mem_singleton, forall_eq]
    exact ⟨by decide, by decide, by decide, by decide⟩
  · simp [forkSample]

end Copy

end UcoreSmp
