import UcoreSmp.FrameRoles

/-!
# What the paging routines do

One specification for each routine of `pmm.c`, over well-formed memory.  Each
says that the memory is well formed again, which entries may have changed, and
what became of the page in question.  The only faults that are left are those of
a request for memory that failed.
-/

namespace UcoreSmp

open Function PhysState

def OnPage (dir page : Nat) : Nat → Nat → Prop := fun other spot => other = dir ∧ spot = page

def Nowhere : Nat → Nat → Prop := fun _ _ => False

/-- Only pages in the area change: every other entry, the frames mapped there, the
frames of the kernel and the page tables stay. -/
structure Touches (dirs : Finset Nat) (area : Nat → Nat → Prop) (state : PhysState)
    (role : Nat → FrameRole) (next : PhysState) (role' : Nat → FrameRole) : Prop where
  npage : next.npage = state.npage
  swap : next.swapInitOk = state.swapInitOk
  denied : state.denied ≤ next.denied
  outside : ∀ frame, role' frame = .outside ↔ role frame = .outside
  kernel : ∀ frame, role' frame = .kernel ↔ role frame = .kernel
  pte : ∀ {dir page}, dir ∈ dirs → page < USERPAGES → ¬ area dir page →
    next.pte dir page = state.pte dir page
  table : ∀ {dir index table}, dir ∈ dirs → index < USERTABLES →
    state.table dir index = some table → next.table dir index = some table
  tableNew : ∀ {dir index}, dir ∈ dirs → index < USERTABLES →
    state.table dir index = none → next.table dir index ≠ none →
      ∃ page, area dir page ∧ page / 1024 = index
  mem : ∀ {dir page frame}, dir ∈ dirs → page < USERPAGES → ¬ area dir page →
    state.mapped dir page = some frame → next.mem frame = state.mem frame
  kernelMem : ∀ {frame}, role frame = .kernel → next.mem frame = state.mem frame

structure HeldKept (state : PhysState) (role : Nat → FrameRole) (next : PhysState)
    (role' : Nat → FrameRole) : Prop where
  same : ∀ frame, role' frame = .held ↔ role frame = .held
  mem : ∀ {frame}, role frame = .held → next.mem frame = state.mem frame

/-- A completed routine that changed only pages in the area. -/
structure PagedStep (dirs : Finset Nat) (area : Nat → Nat → Prop) (state : PhysState)
    (role : Nat → FrameRole) (next : PhysState) (role' : Nat → FrameRole) : Prop where
  paged : Paged next dirs role' none
  touches : Touches dirs area state role next role'
  held : HeldKept state role next role'

variable {dirs : Finset Nat} {role role' : Nat → FrameRole} {state next : PhysState}
  {failed : Int → PhysState → Prop} {faulty : MmFault → Prop} {page frame table : Nat}
  {pending : Option Nat}

section Steps

variable {area area' : Nat → Nat → Prop} {last : PhysState} {role'' : Nat → FrameRole}

theorem Touches.of_mem (mem : next.mem = state.mem) (npage : next.npage = state.npage)
    (swap : next.swapInitOk = state.swapInitOk) (denied : state.denied ≤ next.denied)
    (outside : ∀ frame, role' frame = .outside ↔ role frame = .outside)
    (kernel : ∀ frame, role' frame = .kernel ↔ role frame = .kernel) :
    Touches dirs area state role next role' := by
  have table : ∀ {dir index}, next.table dir index = state.table dir index :=
    table_congr (congrFun mem _)
  refine ⟨npage, swap, denied, outside, kernel, ?_, ?_, ?_, ?_, ?_⟩
  · intro dir page _ _ _
    exact pte_congr table fun _ _ => entry_congr (congrFun mem _)
  · intro dir index found _ _ isFound
    rw [table, isFound]
  · intro dir index _ _ missing found
    rw [table] at found
    exact absurd missing found
  · exact fun _ _ _ _ => congrFun mem _
  · exact fun _ => congrFun mem _

theorem Touches.refl (state : PhysState) (role : Nat → FrameRole) :
    Touches dirs area state role state role :=
  Touches.of_mem rfl rfl rfl le_rfl (fun _ => Iff.rfl) (fun _ => Iff.rfl)

theorem Touches.trans (first : Touches dirs area state role next role')
    (second : Touches dirs area next role' last role'') :
    Touches dirs area state role last role'' where
  npage := second.npage.trans first.npage
  swap := second.swap.trans first.swap
  denied := first.denied.trans second.denied
  outside frame := (second.outside frame).trans (first.outside frame)
  kernel frame := (second.kernel frame).trans (first.kernel frame)
  pte member inside apart := (second.pte member inside apart).trans (first.pte member inside apart)
  table member inside found := second.table member inside (first.table member inside found)
  tableNew {dir index} member inside missing found := by
    by_cases between : next.table dir index = none
    · exact second.tableNew member inside between found
    · exact first.tableNew member inside missing between
  mem {dir page frame} member inside apart maps := by
    have maps' : next.mapped dir page = some frame := by
      rw [mapped_congr (first.pte member inside apart)]
      exact maps
    exact (second.mem member inside apart maps').trans (first.mem member inside apart maps)
  kernelMem {frame} isKernel :=
    (second.kernelMem ((first.kernel frame).mpr isKernel)).trans (first.kernelMem isKernel)

theorem Touches.restrict {dirs' : Finset Nat} (touches : Touches dirs area state role next role')
    (fewer : dirs' ⊆ dirs) (near : ∀ dir ∈ dirs', ∀ page, area dir page → area' dir page) :
    Touches dirs' area' state role next role' where
  npage := touches.npage
  swap := touches.swap
  denied := touches.denied
  outside := touches.outside
  kernel := touches.kernel
  pte member inside apart :=
    touches.pte (fewer member) inside fun close => apart (near _ member _ close)
  table member := touches.table (fewer member)
  tableNew member inside missing found := by
    obtain ⟨page, close, position⟩ := touches.tableNew (fewer member) inside missing found
    exact ⟨page, near _ member _ close, position⟩
  mem member inside apart :=
    touches.mem (fewer member) inside fun close => apart (near _ member _ close)
  kernelMem := touches.kernelMem

theorem HeldKept.refl (state : PhysState) (role : Nat → FrameRole) :
    HeldKept state role state role :=
  ⟨fun _ => Iff.rfl, fun _ => rfl⟩

theorem HeldKept.trans (first : HeldKept state role next role')
    (second : HeldKept next role' last role'') : HeldKept state role last role'' where
  same frame := (second.same frame).trans (first.same frame)
  mem {frame} isHeld := (second.mem ((first.same frame).mpr isHeld)).trans (first.mem isHeld)

theorem PagedStep.refl (paged : Paged state dirs role none) :
    PagedStep dirs area state role state role :=
  ⟨paged, Touches.refl state role, HeldKept.refl state role⟩

theorem PagedStep.trans (first : PagedStep dirs area state role next role')
    (second : PagedStep dirs area next role' last role'') :
    PagedStep dirs area state role last role'' :=
  ⟨second.paged, first.touches.trans second.touches, first.held.trans second.held⟩

theorem PagedStep.mono (step : PagedStep dirs area state role next role')
    (wider : ∀ dir page, area dir page → area' dir page) :
    PagedStep dirs area' state role next role' :=
  ⟨step.paged, step.touches.restrict (Finset.Subset.refl _) fun dir _ => wider dir, step.held⟩

end Steps

section Primitives

variable {post : Option Nat → PhysState → Prop}

theorem callEnds_allocPage : CallEnds allocPage post failed faulty state ↔
      (∀ page, state.pick = some page → post (some page) (state.take page)) ∧
        (state.pick = none → (state.swapInitOk = true → faulty .swapOut) ∧
          (state.swapInitOk = false → post none state.deny)) := by
  rw [allocPage, callEnds_bind, callEnds_get]
  cases state.pick with
  | some page => simp
  | none => cases state.swapInitOk <;> simp

theorem pick_free (picked : state.pick = some page) : page ∈ state.free := by
  unfold pick at picked
  split at picked
  · split at picked
    · cases picked
      assumption
    · cases picked
  · cases picked

variable {post : PUnit → PhysState → Prop}

theorem callEnds_freePage (taken : page ∉ state.free) :
    CallEnds (freePage page) post failed faulty state ↔ post () (state.give page) := by
  simp [freePage, taken]

variable {post : Nat → PhysState → Prop} {pa : Nat}

theorem callEnds_kaddr (inside : ppn pa < state.npage) :
    CallEnds (kaddr pa) post failed faulty state ↔ post (ppn pa) state := by
  simp [kaddr, inside]

theorem callEnds_pa2page (inside : ppn pa < state.npage) :
    CallEnds (pa2page pa) post failed faulty state ↔ post (ppn pa) state := by
  simp [pa2page, inside]

theorem callEnds_pte2page {pte : Nat} (points : entryFrame pte = some frame)
    (inside : frame < state.npage) :
    CallEnds (pte2page pte) post failed faulty state ↔ post frame state := by
  obtain ⟨present, isFrame⟩ := entryFrame_eq_some.mp points
  have isInside : ppn (entryAddr pte) < state.npage := by
    rw [ppn_entryAddr, isFrame]
    exact inside
  rw [pte2page, callEnds_bind, callEnds_ensure, callEnds_pa2page isInside, ppn_entryAddr, isFrame]
  simp [present]

@[simp]
theorem callEnds_readPte {ptep : PtePtr} : CallEnds (readPte ptep) post failed faulty state ↔
      post (state.entry ptep.table ptep.index) state :=
  Iff.rfl

end Primitives

variable {la index : Nat}

section Tables

variable {dir : Nat}

/-- The page table for an address: an old one, or a frame that was free. -/
inductive TableFor (state : PhysState) (role : Nat → FrameRole) (dir index : Nat) :
    PhysState → (Nat → FrameRole) → Nat → Prop where
  | old {table : Nat} (isTable : role table = .table dir index) :
      TableFor state role dir index state role table
  | new {table : Nat} (picked : state.pick = some table)
      (missing : state.table dir index = none) :
      TableFor state role dir index ((state.take table).addTable dir index table)
        (update role table (.table dir index)) table

theorem TableFor.isTable (found : TableFor state role dir index next role' table) :
    role' table = .table dir index := by
  cases found with
  | old isTable => exact isTable
  | new => exact update_self _ _ _

theorem Paged.free_of_pick (paged : Paged state dirs role pending)
    (picked : state.pick = some frame) : role frame = .free :=
  (paged.free_iff frame).mp (pick_free picked)

theorem TableFor.paged (found : TableFor state role dir index next role' table)
    (paged : Paged state dirs role pending) (isDir : role dir = .directory)
    (inside : index < USERTABLES) : Paged next dirs role' pending := by
  cases found with
  | old => exact paged
  | new picked missing =>
    have isFree := paged.free_of_pick picked
    have taken := (paged.take isFree).addTable (update_self _ _ _)
      (by rw [update_of_ne (ne_of_role isDir isFree (by simp))]; exact isDir)
      inside missing
    rwa [update_idem] at taken

section

variable (found : TableFor state role dir index next role' table)
  (paged : Paged state dirs role pending)

include found paged

theorem TableFor.role_eq (busy : role frame ≠ .free) : role' frame = role frame := by
  cases found with
  | old => rfl
  | new picked _ =>
    exact update_of_ne (ne_of_role rfl (paged.free_of_pick picked) busy) _ _

variable (isDir : role dir = .directory)

include isDir

theorem TableFor.pte_eq {other spot : Nat} (member : other ∈ dirs) (inside : spot < USERPAGES) :
    next.pte other spot = state.pte other spot := by
  cases found with
  | old => rfl
  | new picked missing =>
    have isFree := paged.free_of_pick picked
    have isOther := paged.isDir member
    have busy : ∀ {frame}, role frame = .directory → update role table .held frame = .directory :=
      (role_kept isFree .directory (by simp) (by simp)).mpr
    exact (paged.take isFree).pte_addTable (update_self _ _ _) (busy isDir) missing
      (busy isOther) inside

theorem TableFor.mem (busy : role frame ≠ .free) (data : role frame ≠ .directory) :
    next.mem frame = state.mem frame := by
  cases found with
  | old => rfl
  | new picked _ =>
    exact mem_addTable (ne_of_role rfl (paged.free_of_pick picked) busy) (ne_of_role rfl isDir data)

theorem TableFor.touches (position : page / 1024 = index) :
    Touches dirs (OnPage dir page) state role next role' := by
  have pte : ∀ {other spot}, other ∈ dirs → spot < USERPAGES →
      next.pte other spot = state.pte other spot := found.pte_eq paged isDir
  have mem : ∀ {frame}, role frame ≠ .free → role frame ≠ .directory →
      next.mem frame = state.mem frame := found.mem paged isDir
  cases found with
  | old => exact Touches.refl state role
  | new picked missing =>
    have isFree := paged.free_of_pick picked
    have tables : ∀ {other place}, other ∈ dirs →
        ((state.take table).addTable dir index table).table other place =
          if other = dir ∧ place = index then some table else state.table other place := by
      intro other place member
      have isOther := paged.isDir member
      apply (paged.take isFree).table_addTable (update_self _ _ _)
      exact (role_kept isFree .directory (by simp) (by simp)).mpr isOther
    refine ⟨rfl, rfl, le_rfl, ?_, ?_, ?_, ?_, ?_, ?_, ?_⟩
    · exact fun _ => update_role_iff (by simp [isFree]) (by simp)
    · exact fun _ => update_role_iff (by simp [isFree]) (by simp)
    · exact fun member inside _ => pte member inside
    · intro other place found member _ isFound
      rw [tables member, if_neg]
      · exact isFound
      rintro ⟨rfl, rfl⟩
      rw [missing] at isFound
      cases isFound
    · intro other place member _ absent found
      rw [tables member] at found
      by_cases here : other = dir ∧ place = index
      · exact ⟨page, ⟨here.1, rfl⟩, position.trans here.2.symm⟩
      · rw [if_neg here] at found
        exact absurd absent found
    · intro other spot frame member inside _ maps
      have isUser := paged.layout.user_of_mapped (paged.isDir member) inside maps
      exact mem (by simp [isUser]) (by simp [isUser])
    · intro frame isKernel
      exact mem (by simp [isKernel]) (by simp [isKernel])

theorem TableFor.held : HeldKept state role next role' := by
  constructor
  · cases found with
    | old => exact fun _ => Iff.rfl
    | new picked _ =>
      have isFree := paged.free_of_pick picked
      exact fun _ => update_role_iff (by simp [isFree]) (by simp)
  · intro frame isHeld
    exact found.mem paged isDir (by simp [isHeld]) (by simp [isHeld])

end

variable {post : Option PtePtr → PhysState → Prop}

theorem callEnds_pteAt (found : state.table dir (pdx la) = some table)
    (inside : table < state.npage) :
    CallEnds (pteAt dir la) post failed faulty state ↔ post (some ⟨table, ptx la⟩) state := by
  obtain ⟨_, isTable⟩ := entryFrame_eq_some.mp found
  have isInside : ppn (entryAddr (state.entry dir (pdx la))) < state.npage := by
    rw [ppn_entryAddr, isTable]
    exact inside
  rw [pteAt, callEnds_bind, callEnds_readPte, callEnds_bind, callEnds_kaddr isInside,
    callEnds_pure, ppn_entryAddr, isTable]

section

variable (paged : Paged state dirs role pending) (isDir : role dir = .directory)
  (user : la < USERTOP)

include paged isDir user

theorem pteAt_ends (present : ¬ state.entry dir (pdx la) &&& PTE_P = 0)
    (found : ∀ table, role table = .table dir (pdx la) → post (some ⟨table, ptx la⟩) state) :
    CallEnds (pteAt dir la) post failed faulty state := by
  obtain ⟨table, isFound⟩ := frame_of_present present
  have isTable := (paged.layout.table_iff isDir (pdx_lt user)).mp isFound
  rw [callEnds_pteAt isFound (paged.inside (by simp [isTable]))]
  exact found _ isTable

theorem getPte_find (missing : state.table dir (pdx la) = none → post none state)
    (found : ∀ table, role table = .table dir (pdx la) → post (some ⟨table, ptx la⟩) state) :
    CallEnds (getPte dir la false) post failed faulty state := by
  rw [getPte, callEnds_bind, callEnds_readPte, callEnds_ite]
  constructor
  · intro absent
    exact missing (entryFrame_eq_none.mpr absent)
  · exact fun present => pteAt_ends paged isDir user present found

/-- `get_pte` with `create` finds a table or makes one, unless memory is short. -/
theorem getPte_create (short : state.table dir (pdx la) = none → state.pick = none →
      (state.swapInitOk = true → faulty .swapOut) ∧
        (state.swapInitOk = false → post none state.deny))
    (found : ∀ table next role', TableFor state role dir (pdx la) next role' table →
      post (some ⟨table, ptx la⟩) next) :
    CallEnds (getPte dir la true) post failed faulty state := by
  rw [getPte, callEnds_bind, callEnds_readPte, callEnds_ite]
  constructor
  · intro absent
    have missing : state.table dir (pdx la) = none := entryFrame_eq_none.mpr absent
    rw [if_pos rfl, callEnds_bind, callEnds_allocPage]
    constructor
    · intro table picked
      have inside : table < state.npage := paged.inside (by rw [paged.free_of_pick picked]; simp)
      have made : TableFor state role dir (pdx la)
          ((state.take table).addTable dir (pdx la) table) _ table := .new picked missing
      have isFound : ((state.take table).addTable dir (pdx la) table).table dir (pdx la) =
          some table := table_addTable_self (inside.trans_le paged.small)
      have added : CallEnds (newTable dir la table)
          (fun _ next => CallEnds (pteAt dir la) post failed faulty next) failed faulty
          (state.take table) := by
        have isInside : ppn (page2pa table) < ((state.take table).setRef table 1).npage := by
          rw [ppn_page2pa]
          exact inside
        rw [newTable, callEnds_bind, setPageRef, callEnds_modify, callEnds_bind,
          callEnds_kaddr isInside, ppn_page2pa, callEnds_bind, clearPage, callEnds_modify,
          writePte, callEnds_modify]
        change CallEnds (pteAt dir la) post failed faulty
          ((state.take table).addTable dir (pdx la) table)
        rw [callEnds_pteAt isFound inside]
        exact found table _ _ made
      simpa only [callEnds_bind] using added
    · exact short missing
  · exact fun present => pteAt_ends paged isDir user present fun _ isTable =>
      found _ _ _ (.old isTable)

end

end Tables

section Entries

variable {dir place value : Nat}

theorem mem_setEntry (distinct : frame ≠ table) :
    (state.setEntry table place value).mem frame = state.mem frame :=
  mem_setMem_of_ne distinct _

theorem Paged.touches_setEntry (paged : Paged state dirs role pending)
    (isTable : role table = .table dir index) (place value : Nat) :
    Touches dirs (OnPage dir (index * 1024 + place)) state role
      (state.setEntry table place value) role := by
  have tables : ∀ {other spot}, other ∈ dirs →
      (state.setEntry table place value).table other spot = state.table other spot :=
    fun member => table_setEntry isTable place value (paged.isDir member)
  refine ⟨rfl, rfl, le_rfl, fun _ => Iff.rfl, fun _ => Iff.rfl, ?_, ?_, ?_, ?_, ?_⟩
  · intro other page member inside apart
    exact paged.layout.pte_setEntry_of_ne isTable value (paged.isDir member)
      inside apart
  · intro other spot found member _ isFound
    rw [tables member, isFound]
  · intro other spot member _ missing found
    rw [tables member] at found
    exact absurd missing found
  · intro other page frame member inside _ maps
    have isUser := paged.layout.user_of_mapped (paged.isDir member) inside maps
    exact mem_setEntry (ne_of_role isUser isTable (by simp))
  · intro frame isKernel
    exact mem_setEntry (ne_of_role isKernel isTable (by simp))

/-- What `page_remove_pte` makes of a page: nothing if it was not mapped, and
otherwise one reference less, with the frame freed after the last one. -/
inductive Cleared (state : PhysState) (role : Nat → FrameRole) (dir index table place : Nat) :
    PhysState → (Nat → FrameRole) → Prop where
  | absent (unmapped : state.mapped dir (index * 1024 + place) = none) :
      Cleared state role dir index table place state role
  | shared {frame : Nat} (maps : state.mapped dir (index * 1024 + place) = some frame)
      (more : state.ref frame - 1 ≠ 0) :
      Cleared state role dir index table place
        ((state.setRef frame (state.ref frame - 1)).setEntry table place 0) role
  | freed {frame : Nat} (maps : state.mapped dir (index * 1024 + place) = some frame)
      (last : state.ref frame - 1 = 0) :
      Cleared state role dir index table place
        (((state.setRef frame (state.ref frame - 1)).give frame).setEntry table place 0)
        (update role frame .free)

section Cleared

variable (cleared : Cleared state role dir index table place next role')
  (paged : Paged state dirs role pending) (isTable : role table = .table dir index)
  (small : place < 1024)

include cleared paged isTable small

theorem Cleared.isPaged : Paged next dirs role' pending := by
  cases cleared with
  | absent => exact paged
  | shared maps more => exact paged.unmap isTable small maps more
  | freed maps last => exact paged.unmapLast isTable small maps last

theorem Cleared.role_eq (other : role frame ≠ .user ∨ pending = some frame) :
    role' frame = role frame := by
  cases cleared with
  | absent | shared => rfl
  | @freed freed maps last =>
    apply update_of_ne
    rintro rfl
    have isUser := paged.user_of_place isTable small maps
    cases other with
    | inl notUser => exact notUser isUser
    | inr owed =>
      -- A pending frame that is mapped has more than one reference.
      have count := paged.counted isUser
      have positive : 0 < state.mappers dirs frame :=
        references_pos.mpr ⟨(dir, index * 1024 + place), place_mem paged isTable small, maps⟩
      rw [if_pos owed] at count
      omega

theorem Cleared.touches :
    Touches dirs (OnPage dir (index * 1024 + place)) state role next role' := by
  cases cleared with
  | absent => exact Touches.refl state role
  | shared maps more =>
    exact (paged.touches_setEntry isTable place 0).trans
      (Touches.of_mem rfl rfl rfl le_rfl (fun _ => Iff.rfl) (fun _ => Iff.rfl))
  | freed maps last =>
    have isUser := paged.user_of_place isTable small maps
    refine (paged.touches_setEntry isTable place 0).trans (Touches.of_mem rfl rfl rfl le_rfl ?_ ?_)
    · exact fun _ => update_role_iff (by simp [isUser]) (by simp)
    · exact fun _ => update_role_iff (by simp [isUser]) (by simp)

omit paged isTable small in
theorem Cleared.mem (distinct : frame ≠ table) : next.mem frame = state.mem frame := by
  cases cleared with
  | absent => rfl
  | shared | freed => exact mem_setEntry distinct

theorem Cleared.held : HeldKept state role next role' := by
  constructor
  · cases cleared with
    | absent | shared => exact fun _ => Iff.rfl
    | freed maps last =>
      have isUser := paged.user_of_place isTable small maps
      exact fun _ => update_role_iff (by simp [isUser]) (by simp)
  · intro frame isHeld
    exact cleared.mem (ne_of_role isHeld isTable (by simp))

theorem Cleared.pte_eq : next.pte dir (index * 1024 + place) = 0 := by
  have written : (state.setEntry table place 0).pte dir (index * 1024 + place) = 0 :=
    paged.layout.pte_setEntry_self isTable small (by decide)
  cases cleared with
  | absent unmapped =>
    have member := place_mem paged isTable small
    rw [Finset.mem_product, Finset.mem_range, paged.dirs_iff] at member
    exact paged.layout.present member.1 member.2 unmapped
  | shared | freed => exact written

end Cleared

variable {post : PUnit → PhysState → Prop}

theorem pageRemovePte_ends (paged : Paged state dirs role pending)
    (isTable : role table = .table dir index) (small : place < 1024)
    (done : ∀ next role', Cleared state role dir index table place next role' → post () next) :
    CallEnds (pageRemovePte ⟨table, place⟩) post failed faulty state := by
  have pte := paged.layout.pte_eq isTable small
  rw [pageRemovePte, callEnds_bind, callEnds_readPte, callEnds_ite]
  rw [← pte]
  constructor
  · intro present
    obtain ⟨frame, maps⟩ := frame_of_present present
    have isUser := paged.user_of_place isTable small maps
    rw [callEnds_bind, callEnds_pte2page maps (paged.inside (by simp [isUser])),
      callEnds_bind, pageRefDec, callEnds_bind, callEnds_get, callEnds_bind, callEnds_set,
      callEnds_pure, callEnds_ite]
    constructor
    · intro last
      have taken : frame ∉ (state.setRef frame (state.ref frame - 1)).free :=
        mt (paged.free_iff frame).mp (by simp [isUser])
      rw [callEnds_bind, callEnds_freePage taken, writePte, callEnds_modify]
      exact done _ _ (.freed maps last)
    · intro more
      exact done _ _ (.shared maps more)
  · intro absent
    apply done _ _ (.absent _)
    exact entryFrame_eq_none.mpr (by_contra absent)

/-- The entry of a page is ready to be written for a frame: either nothing is
mapped there and the frame is counted for it already, or it maps the frame. -/
structure ReadyFor (dirs : Finset Nat) (state : PhysState) (role : Nat → FrameRole)
    (dir index table place page : Nat) (next : PhysState) (role' : Nat → FrameRole) : Prop where
  touches : Touches dirs (OnPage dir (index * 1024 + place)) state role next role'
  held : ∀ frame, role' frame = .held ↔ role frame = .held ∧ frame ≠ page
  mem : ∀ {frame}, frame ≠ table → next.mem frame = state.mem frame
  isTable : role' table = .table dir index
  ready : (Paged next dirs role' (some page) ∧ next.mapped dir (index * 1024 + place) = none) ∨
    (Paged next dirs role' none ∧ next.mapped dir (index * 1024 + place) = some page)

theorem owned_ne {third : FrameRole} (owned : role page = .user ∨ role page = .held)
    (notUser : third ≠ .user) (notHeld : third ≠ .held) : role page ≠ third := by
  intro same
  rw [same] at owned
  simp [notUser, notHeld] at owned

theorem table_hold (isTable : role table = .table dir index)
    (owned : role page = .user ∨ role page = .held) :
    update role page .user table = .table dir index :=
  (update_role_iff (owned_ne owned (by simp) (by simp)) (by simp)).mpr isTable

section Insert

variable (paged : Paged state dirs role none)
  (isTable : role table = .table dir index) (small : place < 1024)
  (owned : role page = .user ∨ role page = .held)

include paged isTable small owned

/-- `page_ref_inc`, and `page_remove_pte` on what the page was mapped to. -/
theorem Cleared.readyFor (cleared : Cleared (state.setRef page (state.ref page + 1))
      (update role page .user) dir index table place next role') :
    ReadyFor dirs state role dir index table place page next role' := by
  have counted := paged.hold owned
  have isTable' := table_hold isTable owned
  have touches : Touches dirs (OnPage dir (index * 1024 + place)) state role
      (state.setRef page (state.ref page + 1)) (update role page .user) :=
    Touches.of_mem rfl rfl rfl le_rfl
      (fun _ => update_role_iff (owned_ne owned (by simp) (by simp)) (by simp))
      (fun _ => update_role_iff (owned_ne owned (by simp) (by simp)) (by simp))
  constructor
  · exact touches.trans (cleared.touches counted isTable' small)
  · intro frame
    rw [(cleared.held counted isTable' small).same]
    by_cases same : frame = page
    · simp [same]
    · simp [same]
  · exact fun distinct => cleared.mem distinct
  · rw [cleared.role_eq counted isTable' small (.inl (by simp [isTable']))]
    exact isTable'
  left
  refine ⟨cleared.isPaged counted isTable' small, ?_⟩
  rw [mapped, cleared.pte_eq counted isTable' small]
  rfl

/-- `page_ref_inc` and `page_ref_dec` on a frame that the page maps already. -/
theorem readyFor_same (maps : state.mapped dir (index * 1024 + place) = some page) :
    ReadyFor dirs state role dir index table place page
      ((state.setRef page (state.ref page + 1)).setRef page (state.ref page + 1 - 1))
      (update role page .user) := by
  have isUser := paged.user_of_place isTable small maps
  have unchanged : update role page .user = role := by
    rw [← isUser, update_eq_self]
  have counted := paged.hold owned
  have positive : 0 < state.mappers dirs page :=
    references_pos.mpr ⟨(dir, index * 1024 + place), place_mem paged isTable small, maps⟩
  have restored := counted.unhold positive
  have value : (state.setRef page (state.ref page + 1)).ref page = state.ref page + 1 :=
    update_self _ _ _
  rw [value] at restored
  rw [unchanged] at restored ⊢
  constructor
  · exact Touches.of_mem rfl rfl rfl le_rfl (fun _ => Iff.rfl) (fun _ => Iff.rfl)
  · intro frame
    constructor
    · exact fun isHeld => ⟨isHeld, ne_of_role isHeld isUser (by simp)⟩
    · exact fun both => both.1
  · exact fun _ => rfl
  · exact isTable
  · exact .inr ⟨restored, maps⟩

theorem releasePte_ends
    (done : ∀ next role', ReadyFor dirs state role dir index table place page next role' →
      post () next) :
    CallEnds (releasePte ⟨table, place⟩ page) post failed faulty
      (state.setRef page (state.ref page + 1)) := by
  have counted := paged.hold owned
  have isTable' := table_hold isTable owned
  have pte : (state.setRef page (state.ref page + 1)).entry table place =
      state.pte dir (index * 1024 + place) := (paged.layout.pte_eq isTable small).symm
  have cleared : ∀ next role', Cleared (state.setRef page (state.ref page + 1))
      (update role page .user) dir index table place next role' →
      post () next :=
    fun next role' cleared => done next role' (cleared.readyFor paged isTable small owned)
  rw [releasePte, callEnds_bind, callEnds_readPte]
  rw [pte, callEnds_ite]
  constructor
  · intro present
    obtain ⟨frame, maps⟩ := frame_of_present present
    have isUser := paged.user_of_place isTable small maps
    have inside : frame < (state.setRef page (state.ref page + 1)).npage :=
      paged.inside (by simp [isUser])
    rw [callEnds_bind, callEnds_pte2page maps inside, callEnds_ite]
    constructor
    · intro isPage
      rw [isPage] at maps
      have value : (state.setRef page (state.ref page + 1)).ref page = state.ref page + 1 :=
        update_self _ _ _
      have same := done _ _ (readyFor_same paged isTable small owned maps)
      simpa [pageRefDec, value] using same
    · intro _
      exact pageRemovePte_ends counted isTable' small cleared
  · intro absent
    apply cleared _ _ (.absent _)
    exact entryFrame_eq_none.mpr (by_contra absent)

end Insert

end Entries

section Mapping

theorem page_split (user : la < USERTOP) : pdx la * 1024 + ptx la = pageNumber la := by
  rw [pdx_eq user, ptx_eq]
  omega

theorem ptx_lt (la : Nat) : ptx la < 1024 :=
  Nat.mod_lt _ (by decide)

/-- A page has been mapped to a frame, which the caller no longer holds. -/
structure Inserted (dirs : Finset Nat) (state : PhysState) (role : Nat → FrameRole)
    (dir page frame entry : Nat) (next : PhysState) (role' : Nat → FrameRole) : Prop where
  paged : Paged next dirs role' none
  touches : Touches dirs (OnPage dir page) state role next role'
  held : ∀ other, role' other = .held ↔ role other = .held ∧ other ≠ frame
  heldMem : ∀ {other}, role other = .held → next.mem other = state.mem other
  pte : next.pte dir page = entry

variable {dir perm : Nat} (paged : Paged state dirs role none) (isDir : role dir = .directory)
  (user : la < USERTOP) (fits : perm < PGSIZE)

theorem Paged.step_congr (paged : Paged state dirs role none) (area : Nat → Nat → Prop)
    (npage : next.npage = state.npage) (mem : next.mem = state.mem) (ref : next.ref = state.ref)
    (free : next.free = state.free) (swap : next.swapInitOk = state.swapInitOk)
    (denied : state.denied ≤ next.denied) : PagedStep dirs area state role next role :=
  ⟨paged.congr npage mem ref free,
    Touches.of_mem mem npage swap denied (fun _ => Iff.rfl) (fun _ => Iff.rfl),
    ⟨fun _ => Iff.rfl, fun {frame} _ => congrFun mem frame⟩⟩

theorem Paged.step_deny (paged : Paged state dirs role none) (area : Nat → Nat → Prop) :
    PagedStep dirs area state role state.deny role :=
  paged.step_congr area rfl rfl rfl rfl rfl (Nat.le_succ _)

include paged isDir user fits

theorem ReadyFor.inserted (owned : role page = .user ∨ role page = .held)
    {found : PhysState} {role₁ role₂ : Nat → FrameRole}
    (tableFor : TableFor state role dir (pdx la) found role₁ table)
    (readied : ReadyFor dirs found role₁ dir (pdx la) table (ptx la) page next role₂) :
    Inserted dirs state role dir (pageNumber la) page (page2pa page ||| PTE_P ||| perm)
      (next.setEntry table (ptx la) (page2pa page ||| PTE_P ||| perm)) role₂ := by
  obtain ⟨touches, held, mem, isTable, ready⟩ := readied
  have inside : page < 2 ^ 20 :=
    (paged.inside (owned_ne owned (by simp) (by simp))).trans_le paged.small
  have fits' := presentEntry_lt fits inside
  have points := @entryFrame_present page _ fits
  have keeps := tableFor.held paged isDir
  obtain ⟨pending, memory, written⟩ : ∃ pending, Paged next dirs role₂ pending ∧
      Paged (next.setEntry table (ptx la) (page2pa page ||| PTE_P ||| perm)) dirs role₂ none := by
    cases ready with
    | inl free => exact ⟨_, free.1, free.1.map isTable (ptx_lt la) fits' free.2 points⟩
    | inr same => exact ⟨_, same.1, same.1.remap isTable (ptx_lt la) fits' same.2 points⟩
  constructor
  · exact written
  · have entered := memory.touches_setEntry isTable (ptx la) (page2pa page ||| PTE_P ||| perm)
    rw [page_split user] at touches entered
    exact ((tableFor.touches paged isDir (pdx_eq user).symm).trans touches).trans entered
  · intro other
    rw [held, keeps.same]
  · intro other isHeld
    have stays : role₁ other = .held := (keeps.same other).mpr isHeld
    have distinct : other ≠ table := ne_of_role stays tableFor.isTable (by simp)
    rw [mem_setEntry distinct, mem distinct]
    exact keeps.mem isHeld
  · rw [← page_split user]
    exact memory.layout.pte_setEntry_self isTable (ptx_lt la) fits'

theorem pageInsert_ends {post : PUnit → PhysState → Prop}
    (owned : role page = .user ∨ role page = .held)
    (short : state.table dir (pdx la) = none → state.pick = none →
      (state.swapInitOk = true → faulty .swapOut) ∧
        (state.swapInitOk = false → failed (-E_NO_MEM) state.deny))
    (done : ∀ next role', Inserted dirs state role dir (pageNumber la) page
      (page2pa page ||| PTE_P ||| perm) next role' → post () next) :
    CallEnds (pageInsert dir page la perm) post failed faulty state := by
  rw [pageInsert, callEnds_bind]
  apply getPte_create paged isDir user
  · exact short
  intro table found role₁ tableFor
  have memory := tableFor.paged paged isDir (pdx_lt user)
  have owned' : role₁ page = .user ∨ role₁ page = .held := by
    rw [tableFor.role_eq paged (owned_ne owned (by simp) (by simp))]
    exact owned
  simp only [pageRefInc, callEnds_bind, callEnds_get, callEnds_set, callEnds_pure]
  apply releasePte_ends memory tableFor.isTable (ptx_lt la) owned'
  intro next role₂ readied
  exact done _ _ (readied.inserted paged isDir user fits owned tableFor)

end Mapping

end UcoreSmp
