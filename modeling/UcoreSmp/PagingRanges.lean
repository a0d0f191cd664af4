import UcoreSmp.MemoryRequests

/-!
# Routines on pages and ranges of pages

`pgdir_alloc_page`, `page_remove`, and the loops of `unmap_range` and
`copy_range`, which step over missing page tables.  The invariant of a loop
speaks about the pages below the current one.
-/

namespace UcoreSmp

open Function PhysState

def InRange (dir first last : Nat) : Nat → Nat → Prop :=
  fun other page => other = dir ∧ first ≤ page ∧ page < last

variable {dirs : Finset Nat} {role : Nat → FrameRole} {state : PhysState}
  {failed : Int → PhysState → Prop} {faulty : MmFault → Prop} {post : PUnit → PhysState → Prop}
  {table frame dir la page : Nat}

theorem touches_take (isFree : role frame = .free) (area : Nat → Nat → Prop) :
    Touches dirs area state role (state.take frame) (update role frame .held) :=
  Touches.of_mem rfl rfl rfl le_rfl (fun _ => update_role_iff (by simp [isFree]) (by simp))
    (fun _ => update_role_iff (by simp [isFree]) (by simp))

theorem held_update_iff (isFree : role frame = .free) (other : Nat) :
    update role frame .held other = .held ∧ other ≠ frame ↔ role other = .held := by
  by_cases same : other = frame
  · simp [same, isFree]
  · simp [same]

section Fill

variable (paged : Paged state dirs role none)
  (data : ¬ (role frame = .directory ∨ ∃ dir index, role frame = .table dir index)) (bytes : Bytes)

include data

theorem mem_fill (other : Nat)
    (structural : role other = .directory ∨ ∃ dir index, role other = .table dir index) :
    (state.setMem frame bytes).mem other = state.mem other := by
  apply mem_setMem_of_ne
  rintro rfl
  exact data structural

include paged

theorem Paged.pte_fill (member : dir ∈ dirs) (inside : page < USERPAGES) :
    (state.setMem frame bytes).pte dir page = state.pte dir page :=
  paged.layout.pte_of_mem (mem_fill data bytes) (paged.isDir member) inside

theorem Paged.fillData : Paged (state.setMem frame bytes) dirs role none := by
  have mappers : ∀ other, (state.setMem frame bytes).mappers dirs other =
      state.mappers dirs other :=
    mappers_congr fun member inside => mapped_congr (paged.pte_fill data bytes member inside)
  refine ⟨paged.small, paged.inside, paged.free_iff, paged.dirs_iff, ?_, paged.pending_user,
    ?_, ?_, paged.idle⟩
  · exact paged.layout.congr (fun isDir _ => table_congr (mem_fill data bytes _ (.inl isDir)))
      (fun isDir => paged.pte_fill data bytes (paged.mem_dirs isDir))
      (fun _ => Iff.rfl) (fun _ _ _ => Iff.rfl) (fun _ user => user)
  · intro other user
    rw [mappers]
    exact paged.counted user
  · intro other user free
    rw [mappers]
    exact paged.used user free

/-- Only the pages that map the frame change. -/
theorem Paged.touches_fillData {area : Nat → Nat → Prop} (notKernel : role frame ≠ .kernel)
    (only : ∀ {dir page}, dir ∈ dirs → page < USERPAGES → state.mapped dir page = some frame →
      area dir page) : Touches dirs area state role (state.setMem frame bytes) role := by
  have table : ∀ {dir index}, dir ∈ dirs →
      (state.setMem frame bytes).table dir index = state.table dir index := fun member =>
    table_congr (mem_fill data bytes _ (.inl (paged.isDir member)))
  refine ⟨rfl, rfl, le_rfl, fun _ => Iff.rfl, fun _ => Iff.rfl, ?_, ?_, ?_, ?_, ?_⟩
  · exact fun member inside _ => paged.pte_fill data bytes member inside
  · intro dir index found member _ isFound
    rw [table member, isFound]
  · intro dir index member _ missing found
    rw [table member] at found
    exact absurd missing found
  · intro dir page other member inside apart maps
    apply mem_setMem_of_ne
    rintro rfl
    exact apart (only member inside maps)
  · intro other isKernel
    apply mem_setMem_of_ne
    rintro rfl
    exact notKernel isKernel

end Fill

theorem Paged.fill (paged : Paged state dirs role none) (isHeld : role frame = .held)
    (bytes : Bytes) : Paged (state.setMem frame bytes) dirs role none :=
  paged.fillData (by simp [isHeld]) bytes

theorem Paged.touches_fill (paged : Paged state dirs role none) (isHeld : role frame = .held)
    (bytes : Bytes) (area : Nat → Nat → Prop) :
    Touches dirs area state role (state.setMem frame bytes) role := by
  apply paged.touches_fillData (by simp [isHeld]) bytes (by simp [isHeld])
  intro dir page member inside maps
  cases isHeld.symm.trans (paged.layout.user_of_mapped (paged.isDir member) inside maps)

variable {perm fromDir toDir : Nat}

section Pages

variable (paged : Paged state dirs role none) (isDir : role dir = .directory) (user : la < USERTOP)

include paged isDir user

theorem pgdirAllocPage_ends {post : Option Nat → PhysState → Prop} (fits : perm < PGSIZE)
    (done : ∀ frame next role', role frame = .free →
      PagedStep dirs (OnPage dir (pageNumber la)) state role next role' →
      next.pte dir (pageNumber la) = page2pa frame ||| PTE_P ||| perm → post (some frame) next)
    (short : ∀ next, PagedStep dirs (OnPage dir (pageNumber la)) state role next role →
      next.mem = state.mem → state.denied < next.denied → post none next)
    (stuck : state.swapInitOk = true → faulty .swapOut) :
    CallEnds (pgdirAllocPage dir la perm) post failed faulty state := by
  rw [pgdirAllocPage, callEnds_bind, callEnds_allocPage]
  constructor
  · intro frame picked
    have isFree := paged.free_of_pick picked
    have taken := paged.take isFree
    have isHeld : update role frame .held frame = .held := update_self _ _ _
    have isDir' : update role frame .held dir = .directory :=
      (update_role_iff (by simp [isFree]) (by simp)).mpr isDir
    rw [callEnds_bind, callEnds_attempt]
    apply pageInsert_ends taken isDir' user fits (.inr isHeld)
    · intro _ _
      refine ⟨stuck, fun _ => ?_⟩
      have absent : frame ∉ (state.take frame).deny.free :=
        mt (taken.free_iff frame).mp (by simp)
      rw [callEnds_bind, callEnds_freePage absent, callEnds_pure]
      have restored := taken.deny.giveHeld isHeld
      rw [update_idem, ← isFree, update_eq_self] at restored
      refine short ((state.take frame).deny.give frame) ?_ rfl (Nat.lt_succ_self _)
      exact ⟨restored,
        Touches.of_mem rfl rfl rfl (Nat.le_succ _) (fun _ => Iff.rfl) (fun _ => Iff.rfl),
        ⟨fun _ => Iff.rfl, fun _ => rfl⟩⟩
    intro next role' inserted
    apply done frame next role' isFree _ inserted.pte
    refine ⟨inserted.paged, (touches_take isFree _).trans inserted.touches, ?_, ?_⟩
    · exact fun other => (inserted.held other).trans (held_update_iff isFree other)
    intro other isOther
    apply inserted.heldMem
    exact ((held_update_iff isFree other).mpr isOther).1
  · intro _
    exact ⟨stuck, fun _ => short _ (paged.step_deny _) rfl (Nat.lt_succ_self _)⟩

omit isDir in
theorem pageRemovePte_page (isTable : role table = .table dir (pdx la))
    (done : ∀ next role', PagedStep dirs (OnPage dir (pageNumber la)) state role next role' →
      next.pte dir (pageNumber la) = 0 → post () next) :
    CallEnds (pageRemovePte ⟨table, ptx la⟩) post failed faulty state := by
  have small := ptx_lt la
  apply pageRemovePte_ends paged isTable small
  intro next role' cleared
  have touches := cleared.touches paged isTable small
  have pte := cleared.pte_eq paged isTable small
  rw [page_split user] at touches pte
  exact done next role' ⟨cleared.isPaged paged isTable small, touches,
    cleared.held paged isTable small⟩ pte

theorem pageRemove_ends
    (done : ∀ next role', PagedStep dirs (OnPage dir (pageNumber la)) state role next role' →
      next.pte dir (pageNumber la) = 0 → post () next) :
    CallEnds (pageRemove dir la) post failed faulty state := by
  rw [pageRemove, callEnds_bind]
  apply getPte_find paged isDir user
  · intro missing
    apply done state role (PagedStep.refl paged)
    rw [pdx_eq user] at missing
    exact pte_of_none missing
  · intro table isTable
    exact pageRemovePte_page paged user isTable done

omit isDir in
theorem Paged.entry_eq (isTable : role table = .table dir (pdx la)) :
    state.entry table (ptx la) = state.pte dir (pageNumber la) := by
  rw [← page_split user]
  exact (paged.layout.pte_eq isTable (ptx_lt la)).symm

omit isDir in
theorem unmapEntry_ends (isTable : role table = .table dir (pdx la))
    (done : ∀ next role', PagedStep dirs (OnPage dir (pageNumber la)) state role next role' →
      next.pte dir (pageNumber la) = 0 → post () next) :
    CallEnds (unmapEntry la ⟨table, ptx la⟩) post failed faulty state := by
  rw [unmapEntry, callEnds_bind, callEnds_readPte]
  rw [paged.entry_eq user isTable, callEnds_ite]
  constructor
  · intro _
    exact pageRemovePte_page paged user isTable done
  · intro empty
    exact done state role (PagedStep.refl paged) (by_contra empty)

end Pages

section Copy

theorem entryFrame_copied {entry : Nat} :
    entryFrame (page2pa frame ||| PTE_P ||| (entry &&& PTE_USER)) = some frame :=
  entryFrame_present (Nat.and_lt_two_pow (n := 12) _ (by decide))

/-- A page has been mapped to a frame with the bytes and the permissions of a
mapped page.  The frame was not mapped before, unless in the area. -/
structure CopiedPage (dirs : Finset Nat) (area : Nat → Nat → Prop) (state : PhysState)
    (fromDir toDir page : Nat) (next : PhysState) (frame : Nat) : Prop where
  pte : next.pte toDir page = page2pa frame ||| PTE_P ||| (state.pte fromDir page &&& PTE_USER)
  fresh : ∀ {dir spot}, dir ∈ dirs → spot < USERPAGES → ¬ area dir spot →
    state.mapped dir spot ≠ some frame
  bytes : ∀ {source}, state.mapped fromDir page = some source →
    ∀ i, i < PGSIZE → next.mem frame i = state.mem source i

/-- `page_insert` asks for nothing where the table exists, and frees nothing where
nothing was mapped. -/
theorem pageInsert_supply (paged : Paged state dirs role none)
    (isDir : role dir = .directory) (user : la < USERTOP)
    (isTable : role table = .table dir (pdx la)) :
    CallEnds (pageInsert dir page la perm) (fun _ next => state.pte dir (pageNumber la) = 0 →
        next.free = state.free ∧ next.picks = state.picks)
      (fun _ _ => True) (fun _ => True) state := by
  by_cases empty : state.pte dir (pageNumber la) = 0
  · have present := (paged.layout.table_iff isDir (pdx_lt user)).mpr isTable
    rw [pageInsert, callEnds_bind]
    apply getPte_create paged isDir user
    · simp [present]
    intro found next role' tableFor
    cases tableFor with
    | new _ missing => simp [present] at missing
    | old isFound =>
      have entry := paged.entry_eq user isFound
      rw [empty] at entry
      simp only [pageRefInc, callEnds_bind, callEnds_get, callEnds_set, callEnds_pure,
        releasePte, callEnds_readPte]
      change CallEnds (if state.entry found (ptx la) &&& PTE_P ≠ 0 then _ else _) _ _ _ _
      rw [entry, if_neg (by decide), callEnds_pure, writePte, callEnds_modify]
      exact fun _ => ⟨rfl, rfl⟩
  apply CallEnds.of_forall
  · exact fun _ _ isEmpty => absurd isEmpty empty
  · exact fun _ _ => trivial
  · exact fun _ => trivial

variable (paged : Paged state dirs role none) (isFrom : role fromDir = .directory)
  (isTo : role toDir = .directory) (user : la < USERTOP)
  (isTable : role table = .table fromDir (pdx la))
  (done : ∀ frame next role',
    PagedStep dirs (OnPage toDir (pageNumber la)) state role next role' →
    state.mapped fromDir (pageNumber la) ≠ none →
    CopiedPage dirs Nowhere state fromDir toDir (pageNumber la) next frame →
    (state.pte toDir (pageNumber la) = 0 →
      CopySpends toDir state [.page (pageNumber la)] next) → post () next)
  (short : ∀ next, PagedStep dirs (OnPage toDir (pageNumber la)) state role next role →
    state.mapped fromDir (pageNumber la) ≠ none → state.denied < next.denied →
    state.swapInitOk = false → CopyRefuses toDir state [.page (pageNumber la)] .table →
    failed (-E_NO_MEM) next)
  (stuck : ∀ (fault : MmFault) (request : MemoryRequest), fault.OutOfMemory →
    state.mapped fromDir (pageNumber la) ≠ none → request.Fatal state.swapInitOk →
    CopyRefuses toDir state [.page (pageNumber la)] request → faulty fault)

include paged isFrom isTo user isTable done short stuck

theorem copyMapping_ends {source : Nat}
    (maps : state.mapped fromDir (pageNumber la) = some source) :
    CallEnds (copyMapping toDir la ⟨table, ptx la⟩) post failed faulty state := by
  have present : state.mapped fromDir (pageNumber la) ≠ none := by simp [maps]
  have inside := pageNumber_lt user
  have position : pdx la = pageNumber la / 1024 := pdx_eq user
  have insideTable : pageNumber la / 1024 < USERTABLES := position ▸ pdx_lt user
  have isUser := paged.layout.user_of_mapped isFrom inside maps
  rw [copyMapping, callEnds_bind]
  apply getPte_create paged isTo user
  · intro missing refused
    rw [position] at missing
    have refusal := copyRefuses_table insideTable missing refused
    exact ⟨fun swap => stuck _ .table (.inl rfl) present swap refusal,
      fun noSwap => short _ (paged.step_deny _) present (Nat.lt_succ_self _) noSwap refusal⟩
  intro found state₁ role₁ tableFor
  have tableHere : TableFor state role toDir (pageNumber la / 1024) state₁ role₁ found :=
    position ▸ tableFor
  have memory := tableFor.paged paged isTo (pdx_lt user)
  have isTable₁ := (tableFor.role_eq paged (by simp [isTable])).trans isTable
  have isSource₁ := (tableFor.role_eq paged (by simp [isUser])).trans isUser
  have entry : state₁.entry table (ptx la) = state.pte fromDir (pageNumber la) := by
    rw [memory.entry_eq user isTable₁]
    exact tableFor.pte_eq paged isTo (paged.mem_dirs isFrom) inside
  rw [callEnds_bind, callEnds_readPte]
  rw [entry, callEnds_bind, callEnds_pte2page maps (memory.inside (by rw [isSource₁]; simp)),
    callEnds_bind, callEnds_allocPage]
  have refusal : state₁.pick = none → CopyRefuses toDir state [.page (pageNumber la)] .data :=
    tableHere.refuses paged isTo insideTable
  refine ⟨?_, fun refused => ⟨fun _ => stuck _ .data (.inl rfl) present trivial (refusal refused),
    fun _ => stuck _ .data (.inr rfl) present trivial (refusal refused)⟩⟩
  intro frame picked
  have isFree := memory.free_of_pick picked
  have taken := memory.take isFree
  have isHeld : update role₁ frame .held frame = .held := update_self _ _ _
  have insideSource : ppn (page2pa source) < (state₁.take frame).npage := by
    rw [ppn_page2pa]
    exact memory.inside (by rw [isSource₁]; simp)
  have insideFrame : ppn (page2pa frame) < (state₁.take frame).npage := by
    rw [ppn_page2pa]
    exact taken.inside (by simp)
  rw [callEnds_bind, callEnds_kaddr insideSource, callEnds_bind, callEnds_kaddr insideFrame,
    ppn_page2pa, ppn_page2pa, callEnds_bind, copyPageBytes, callEnds_modify, callEnds_bind,
    callEnds_attempt]
  have isTo₁ := (tableFor.role_eq paged (by simp [isTo])).trans isTo
  have filled := taken.fill isHeld
    (((state₁.take frame).mem frame).blit 0 ((state₁.take frame).mem source) 0 PGSIZE)
  set state₂ := (state₁.take frame).setMem frame
    (((state₁.take frame).mem frame).blit 0 ((state₁.take frame).mem source) 0 PGSIZE)
  have isTo₂ : update role₁ frame .held toDir = .directory :=
    (role_kept isFree .directory (by simp) (by simp)).mpr isTo₁
  have isTable₂ : update role₁ frame .held found = .table toDir (pdx la) :=
    (role_kept isFree (.table _ _) (by simp) (by simp)).mpr tableFor.isTable
  have inserts : CallEnds
      (pageInsert toDir frame la (state.pte fromDir (pageNumber la) &&& PTE_USER))
      (fun _ next => ∃ role', Inserted dirs state₂ (update role₁ frame .held) toDir
        (pageNumber la) frame
        (page2pa frame ||| PTE_P ||| (state.pte fromDir (pageNumber la) &&& PTE_USER)) next role')
      (fun _ _ => False) (fun _ => False) state₂ := by
    apply pageInsert_ends filled isTo₂ user (Nat.and_lt_two_pow (n := 12) _ (by decide))
      (.inr isHeld)
    · -- The table was found or made just before.
      intro missing
      rw [(filled.layout.table_iff isTo₂ (pdx_lt user)).mpr isTable₂] at missing
      cases missing
    · exact fun next role' inserted => ⟨role', inserted⟩
  apply (inserts.and (pageInsert_supply filled isTo₂ user isTable₂)).mono
  rotate_left
  · exact fun _ _ fails => fails.1.elim
  · exact fun _ stops => stops.1.elim
  rintro _ next ⟨⟨role', inserted⟩, same⟩
  have touches := ((tableFor.touches paged isTo position.symm).trans
    (touches_take isFree _)).trans ((taken.touches_fill isHeld _ _).trans inserted.touches)
  refine done frame next role' ?_ present ?_ ?_
  · refine ⟨inserted.paged, touches, ?_, ?_⟩
    · intro other
      rw [inserted.held, held_update_iff isFree]
      exact (tableFor.held paged isTo).same other
    intro other isOther
    have isOther₁ := ((tableFor.held paged isTo).same other).mpr isOther
    have distinct : other ≠ frame := ne_of_role isOther₁ isFree (by simp)
    rw [inserted.heldMem ((held_update_iff isFree other).mpr isOther₁).1, mem_setMem_of_ne distinct]
    exact (tableFor.held paged isTo).mem isOther
  · constructor
    · exact inserted.pte
    · intro dir spot member inRange _ maps'
      have used := paged.layout.user_of_mapped (paged.isDir member) inRange maps'
      have still : role₁ frame = role frame := tableFor.role_eq paged (by simp [used])
      rw [isFree, used] at still
      cases still
    intro other maps' i small
    rw [maps] at maps'
    cases maps'
    rw [inserted.heldMem isHeld, mem_setMem_self, Bytes.blit_inside _ (by omega)]
    have bytes : state₁.mem source = state.mem source :=
      tableFor.mem paged isTo (by simp [isUser]) (by simp [isUser])
    change state₁.mem source (0 + (i - 0)) = _
    rw [bytes]
    congr 1
    omega
  intro empty tables has
  have member := paged.mem_dirs isTo
  have empty₁ : state₁.pte toDir (pageNumber la) = 0 := by
    rw [tableFor.pte_eq paged isTo member inside]
    exact empty
  have supply := same (((taken.touches_fill isHeld _ Nowhere).pte member inside id).trans empty₁)
  refine ⟨?_, has.insert touches member ?_⟩
  · have spent := (tableHere.spends paged isTo insideTable has).trans
      (Spends.page (.inr rfl) picked)
    exact spent.congr supply.1 supply.2
  rw [inserted.pte]
  intro zero
  have maps' := @entryFrame_copied frame (state.pte fromDir (pageNumber la))
  rw [zero] at maps'
  cases maps'

/-- What `copy_range` does with one page of the source. -/
theorem copyEntry_ends (skipped : state.mapped fromDir (pageNumber la) = none → post () state) :
    CallEnds (copyEntry toDir la ⟨table, ptx la⟩) post failed faulty state := by
  rw [copyEntry, callEnds_bind, callEnds_readPte]
  rw [paged.entry_eq user isTable, callEnds_ite]
  constructor
  · intro present
    obtain ⟨source, maps⟩ := frame_of_present present
    exact copyMapping_ends paged isFrom isTo user isTable done short stuck maps
  · intro absent
    exact skipped (entryFrame_eq_none.mpr (by_contra absent))

end Copy

section Ranges

variable {start last : Nat}

/-- A range of pages that passes the assertions. -/
structure PageRange (start last : Nat) : Prop where
  aligned : start % PGSIZE = 0 ∧ last % PGSIZE = 0
  user : UserAccess start last

variable {next after : PhysState} {area' : Nat → Nat → Prop} {role'' : Nat → FrameRole}

section

variable (range : PageRange start last)

include range

theorem callEnds_checkRange :
    CallEnds (checkRange start last) post failed faulty state ↔ post () state := by
  simp [checkRange, range.aligned, range.user]

theorem PageRange.first_lt : pageNumber start < pageNumber last := by
  obtain ⟨⟨alignedStart, alignedLast⟩, _, below, _⟩ := range
  unfold pageNumber
  unfold PGSIZE at *
  omega

theorem PageRange.last_le : pageNumber last ≤ USERPAGES := by
  have top := range.user.2.2
  unfold USERTOP at top
  unfold pageNumber PGSIZE USERPAGES
  omega

theorem PageRange.start_eq : pageNumber start * PGSIZE = start :=
  Nat.div_mul_cancel (Nat.dvd_of_mod_eq_zero range.aligned.1)

theorem PageRange.last_eq : pageNumber last * PGSIZE = last :=
  Nat.div_mul_cancel (Nat.dvd_of_mod_eq_zero range.aligned.2)

theorem PageRange.budget : pageNumber last < pageNumber start + rangeBudget start last := by
  obtain ⟨⟨alignedStart, alignedLast⟩, _, below, _⟩ := range
  unfold pageNumber rangeBudget
  unfold PGSIZE at *
  omega

end

variable {role' : Nat → FrameRole} {area whole : Nat → Nat → Prop}

theorem page_address_lt (inside : page < USERPAGES) : page * PGSIZE < USERTOP := by
  unfold USERPAGES at inside
  unfold PGSIZE USERTOP
  omega

theorem pageNumber_mul (page : Nat) : pageNumber (page * PGSIZE) = page :=
  Nat.mul_div_cancel _ (by decide)

/-- The loop over a range, with an invariant about the pages below the current
one.  A missing table takes the loop to the first page of the next table. -/
theorem walkRange_ends {visit : Nat → PtePtr → Paging PUnit}
    (inv : Nat → PhysState → (Nat → FrameRole) → Prop) (range : PageRange start last)
    (member : dir ∈ dirs)
    (paged : ∀ {page current role'}, inv page current role' → Paged current dirs role' none)
    (skip : ∀ {page later current role'}, page ≤ later → inv page current role' →
      (∀ spot, page ≤ spot → spot < later → current.pte dir spot = 0) → inv later current role')
    (round : ∀ {page current role' table}, pageNumber start ≤ page → page < pageNumber last →
      inv page current role' → role' table = .table dir (pdx (page * PGSIZE)) →
      CallEnds (visit (page * PGSIZE) ⟨table, ptx (page * PGSIZE)⟩)
        (fun _ next => ∃ role'', inv (page + 1) next role'') failed faulty current)
    (finished : ∀ {page current role'}, pageNumber last ≤ page → inv page current role' →
      post () current) (begins : inv (pageNumber start) state role) :
    CallEnds (do checkRange start last; walkRange dir last visit (rangeBudget start last) start)
      post failed faulty state := by
  rw [callEnds_bind, callEnds_checkRange range]
  have user := range.last_le
  unfold USERPAGES at user
  suffices walked : ∀ fuel page {current role'}, pageNumber last < page + fuel →
      pageNumber start ≤ page → page < pageNumber last → inv page current role' →
      CallEnds (walkRange dir (pageNumber last * PGSIZE) visit fuel (page * PGSIZE)) post failed
        faulty current by
    have done := walked _ _ range.budget le_rfl range.first_lt begins
    rwa [range.start_eq, range.last_eq] at done
  intro fuel
  induction fuel with
  | zero => omega
  | succ fuel ih =>
    intro page current role' budget above below holds
    -- Every round moves on by at least one page.
    have continues : ∀ {next after role''}, page < next → inv next after role'' →
        CallEnds (if next * PGSIZE ≠ 0 ∧ next * PGSIZE < pageNumber last * PGSIZE then
          walkRange dir (pageNumber last * PGSIZE) visit fuel (next * PGSIZE) else pure ())
          post failed faulty after := by
      intro next after role'' onwards holds
      rw [callEnds_ite]
      constructor
      · rintro ⟨_, before⟩
        exact ih next (by omega) (by omega) (Nat.lt_of_mul_lt_mul_right before) holds
      intro beyond
      refine finished ?_ holds
      unfold PGSIZE at beyond
      omega
    have address := page_address_lt (below.trans_le range.last_le)
    rw [walkRange, callEnds_bind, walkRound, callEnds_bind]
    apply getPte_find (paged holds) ((paged holds).isDir member) address
    · intro missing
      have jump : rounddown (word (page * PGSIZE + PTSIZE)) PTSIZE =
          (page / 1024 + 1) * 1024 * PGSIZE := by
        unfold rounddown word PGSIZE PTSIZE
        omega
      rw [callEnds_pure, jump]
      refine continues (by omega) (skip (by omega) holds fun spot _ _ => ?_)
      have sameTable : spot / 1024 = page / 1024 := by omega
      rw [pdx_eq address, pageNumber_mul, ← sameTable] at missing
      exact pte_of_none missing
    intro table isTable
    have onwards : word (page * PGSIZE + PGSIZE) = (page + 1) * PGSIZE := by
      unfold word PGSIZE
      omega
    have visited := round above below holds isTable
    rw [callEnds_bind]
    apply visited.weaken
    · intro _ after holds'
      rw [callEnds_pure, onwards]
      obtain ⟨role'', holds'⟩ := holds'
      exact continues (Nat.lt_succ_self page) holds'
    · exact fun _ _ fails => fails

/-- `unmap_range` leaves nothing mapped in the range. -/
theorem unmapRange_ends (paged : Paged state dirs role none) (isDir : role dir = .directory)
    (range : PageRange start last) (done : ∀ next role',
      PagedStep dirs (InRange dir (pageNumber start) (pageNumber last)) state role next role' →
      (∀ page, pageNumber start ≤ page → page < pageNumber last → next.pte dir page = 0) →
      post () next) :
    CallEnds (unmapRange dir start last) post failed faulty state := by
  have member := paged.mem_dirs isDir
  -- The pages of the range below the current one are clear.
  apply walkRange_ends (fun page current role' =>
    PagedStep dirs (InRange dir (pageNumber start) (pageNumber last)) state role current role' ∧
      ∀ below, pageNumber start ≤ below → below < page → below < pageNumber last →
        current.pte dir below = 0) range member
  · exact fun holds => holds.1.paged
  · rintro page later current role' _ ⟨step, clear⟩ empty
    refine ⟨step, fun spot above below inRange => ?_⟩
    by_cases old : spot < page
    · exact clear spot above old inRange
    · exact empty spot (Nat.le_of_not_lt old) below
  · rintro page current role' table above below ⟨step, clear⟩ isTable
    apply unmapEntry_ends step.paged (page_address_lt (below.trans_le range.last_le)) isTable
    intro next role'' change cleared
    rw [pageNumber_mul] at change cleared
    refine ⟨role'', step.trans (change.mono ?_), ?_⟩
    · rintro other spot ⟨rfl, rfl⟩
      exact ⟨rfl, above, below⟩
    intro spot aboveSpot belowSpot inRange
    by_cases here : spot = page
    · rw [here, cleared]
    rw [change.touches.pte member (inRange.trans_le range.last_le) (fun onPage => here onPage.2)]
    exact clear spot aboveSpot (by omega) inRange
  · rintro page current role' past ⟨step, clear⟩
    exact done current role' step fun spot above below => clear spot above (by omega) below
  · exact ⟨PagedStep.refl paged, fun _ _ _ => by omega⟩

/-- A page of the target after `copy_range`: left alone where the source maps
nothing, and a copy elsewhere. -/
def PageCopied (dirs : Finset Nat) (area : Nat → Nat → Prop) (state : PhysState)
    (fromDir toDir : Nat) (next : PhysState) (page : Nat) : Prop :=
  (state.mapped fromDir page = none ∧ next.pte toDir page = state.pte toDir page) ∨
    (state.mapped fromDir page ≠ none ∧
      ∃ frame, CopiedPage dirs area state fromDir toDir page next frame)

theorem CopiedPage.mapped (copied : CopiedPage dirs area state fromDir toDir page next frame) :
    next.mapped toDir page = some frame := by
  rw [PhysState.mapped, copied.pte, entryFrame_copied]

theorem PageCopied.later (copied : PageCopied dirs area state fromDir toDir next page)
    (touches : Touches dirs area' next role' after role'') (member : toDir ∈ dirs)
    (inside : page < USERPAGES) (apart : ¬ area' toDir page) :
    PageCopied dirs area state fromDir toDir after page := by
  have pte := touches.pte member inside apart
  cases copied with
  | inl skipped => exact .inl ⟨skipped.1, pte.trans skipped.2⟩
  | inr copy =>
    obtain ⟨maps, frame, copy⟩ := copy
    refine .inr ⟨maps, frame, pte.trans copy.pte, copy.fresh, ?_⟩
    intro source isSource i small
    rw [touches.mem member inside apart copy.mapped]
    exact copy.bytes isSource i small

section

variable (touches : Touches dirs area state role next role')
  (before : ∀ dir spot, area dir spot → whole dir spot)
  (now : ∀ dir spot, area' dir spot → whole dir spot) (member : fromDir ∈ dirs)
  (inside : page < USERPAGES) (apart : ¬ area fromDir page)

include touches before now member inside apart

theorem CopiedPage.since (copied : CopiedPage dirs area' next fromDir toDir page after frame) :
    CopiedPage dirs whole state fromDir toDir page after frame := by
  have pte := touches.pte member inside apart
  constructor
  · rw [copied.pte, pte]
  · intro dir spot isDir inSpot apartSpot maps
    apply copied.fresh isDir inSpot (fun near => apartSpot (now dir spot near))
    rw [mapped_congr (touches.pte isDir inSpot (fun near => apartSpot (before dir spot near)))]
    exact maps
  intro source isSource i small
  have isSource' : next.mapped fromDir page = some source := by
    rw [mapped_congr pte]
    exact isSource
  rw [copied.bytes isSource' i small, touches.mem member inside apart isSource]

theorem PageCopied.since (copied : PageCopied dirs area' next fromDir toDir after page)
    (memberTo : toDir ∈ dirs) (apartTo : ¬ area toDir page) :
    PageCopied dirs whole state fromDir toDir after page := by
  have maps := mapped_congr (touches.pte member inside apart)
  cases copied with
  | inl skipped =>
    refine .inl ⟨maps ▸ skipped.1, ?_⟩
    rw [skipped.2]
    exact touches.pte memberTo inside apartTo
  | inr copy =>
    obtain ⟨present, frame, copy⟩ := copy
    exact .inr ⟨maps ▸ present, frame, copy.since touches before now member inside apart⟩

end

/-- A target with nothing mapped in the range. -/
def FreshTarget (state : PhysState) (fromDir toDir first last : Nat) : Prop :=
  fromDir ≠ toDir ∧ ∀ page, first ≤ page → page < last → state.pte toDir page = 0

/-- The first request of a fresh range that is refused. -/
def RangeRefuses (state : PhysState) (fromDir toDir first last : Nat) (request : MemoryRequest) :
    Prop :=
  FreshTarget state fromDir toDir first last →
    CopyRefuses toDir state (mappedSteps state fromDir first (last - first)) request

/-- The loop of `copy_range` at a page: the pages below are copied, the others of
the target untouched, and the requests so far are those of the pages below. -/
structure Copying (dirs : Finset Nat) (state : PhysState) (role : Nat → FrameRole)
    (fromDir toDir first last page : Nat) (current : PhysState) (role' : Nat → FrameRole) :
    Prop where
  step : PagedStep dirs (InRange toDir first last) state role current role'
  copied : fromDir ≠ toDir → ∀ spot, first ≤ spot → spot < page → spot < last →
    PageCopied dirs (InRange toDir first last) state fromDir toDir current spot
  rest : ∀ spot, page ≤ spot → spot < last → current.pte toDir spot = state.pte toDir spot
  spent : FreshTarget state fromDir toDir first last → ∃ before,
    mappedSteps state fromDir first (last - first) =
      before ++ mappedSteps state fromDir page (last - page) ∧
    CopySpends toDir state before current

namespace Copying

variable {first last spot : Nat} {current : PhysState}
  (copying : Copying dirs state role fromDir toDir first last page current role')
  (memberFrom : fromDir ∈ dirs) (user : last ≤ USERPAGES)

include copying

theorem served (past : last ≤ page) (fresh : FreshTarget state fromDir toDir first last) :
    CopySpends toDir state (mappedSteps state fromDir first (last - first)) current := by
  obtain ⟨before, split, served⟩ := copying.spent fresh
  have nothing : mappedSteps state fromDir page 0 = [] := rfl
  rw [split, Nat.sub_eq_zero_of_le past, nothing, List.append_nil]
  exact served

include memberFrom user

theorem source (distinct : fromDir ≠ toDir) (inRange : spot < last) :
    current.mapped fromDir spot = state.mapped fromDir spot :=
  mapped_congr (copying.step.touches.pte memberFrom (inRange.trans_le user)
    fun near => distinct near.1)

theorem skip {later : Nat} (onwards : page ≤ later)
    (empty : ∀ spot, page ≤ spot → spot < later → current.pte fromDir spot = 0) :
    Copying dirs state role fromDir toDir first last later current role' := by
  have unmapped : fromDir ≠ toDir → ∀ spot, page ≤ spot → spot < later → spot < last →
      state.mapped fromDir spot = none := by
    intro distinct spot above below inRange
    rw [← copying.source memberFrom user distinct inRange, mapped, empty spot above below]
    rfl
  refine ⟨copying.step, ?_, fun spot far => copying.rest spot (onwards.trans far), ?_⟩
  · intro distinct spot above below inRange
    by_cases old : spot < page
    · exact copying.copied distinct spot above old inRange
    · exact .inl ⟨unmapped distinct spot (Nat.le_of_not_lt old) below inRange,
        copying.rest spot (Nat.le_of_not_lt old) inRange⟩
  · intro fresh
    rw [← mappedSteps_skip onwards (unmapped fresh.1)]
    exact copying.spent fresh

variable (below : page < last)

include below

omit memberFrom in
theorem advance (memberTo : toDir ∈ dirs) (above : first ≤ page)
    (change : PagedStep dirs (OnPage toDir page) current role' next role'')
    (now : fromDir ≠ toDir → PageCopied dirs (InRange toDir first last) state fromDir toDir next
      page)
    (spends : FreshTarget state fromDir toDir first last → CopySpends toDir current
      (if (state.mapped fromDir page).isSome then [.page page] else []) next) :
    Copying dirs state role fromDir toDir first last (page + 1) next role'' := by
  refine ⟨copying.step.trans (change.mono ?_), ?_, ?_, ?_⟩
  · rintro dir spot ⟨rfl, rfl⟩
    exact ⟨rfl, above, below⟩
  · intro distinct spot aboveSpot belowSpot inRange
    by_cases here : spot = page
    · rw [here]
      exact now distinct
    · exact (copying.copied distinct spot aboveSpot (by omega) inRange).later change.touches
        memberTo (inRange.trans_le user) (fun onPage => here onPage.2)
  · intro spot aboveSpot inRange
    rw [change.touches.pte memberTo (inRange.trans_le user)
      (fun onPage => by have := onPage.2; omega)]
    exact copying.rest spot (by omega) inRange
  intro fresh
  obtain ⟨before, split, served⟩ := copying.spent fresh
  refine ⟨_, ?_, served.trans (spends fresh)⟩
  rw [List.append_assoc, ← mappedSteps_cons state fromDir below]
  exact split

theorem refusal {request : MemoryRequest} (maps : current.mapped fromDir page ≠ none)
    (refused : CopyRefuses toDir current [.page page] request) :
    RangeRefuses state fromDir toDir first last request := by
  intro fresh
  obtain ⟨before, split, served⟩ := copying.spent fresh
  rw [copying.source memberFrom user fresh.1 below] at maps
  rw [split, mappedSteps_cons state fromDir below, if_pos (Option.isSome_iff_ne_none.mpr maps)]
  exact CopyStopped.later served (refused.append _)

end Copying

/-- `copy_range` copies every mapped page of the range. -/
theorem copyRange_ends (paged : Paged state dirs role none) (isFrom : role fromDir = .directory)
    (isTo : role toDir = .directory) (range : PageRange start last)
    (done : ∀ next role' page, pageNumber last ≤ page →
      Copying dirs state role fromDir toDir (pageNumber start) (pageNumber last) page next role' →
      post () next)
    (short : ∀ next role',
      PagedStep dirs (InRange toDir (pageNumber start) (pageNumber last)) state role next role' →
      state.denied < next.denied → state.swapInitOk = false →
      RangeRefuses state fromDir toDir (pageNumber start) (pageNumber last) .table →
      failed (-E_NO_MEM) next)
    (stuck : ∀ (fault : MmFault) (request : MemoryRequest), fault.OutOfMemory →
      request.Fatal state.swapInitOk →
      RangeRefuses state fromDir toDir (pageNumber start) (pageNumber last) request →
      faulty fault) :
    CallEnds (copyRange toDir fromDir start last) post failed faulty state := by
  have memberFrom := paged.mem_dirs isFrom
  have memberTo := paged.mem_dirs isTo
  have user := range.last_le
  apply walkRange_ends (Copying dirs state role fromDir toDir (pageNumber start) (pageNumber last))
    range memberFrom
  · exact fun copying => copying.step.paged
  · exact fun onwards copying empty => copying.skip memberFrom user onwards empty
  · intro page current role' table above below copying isTable
    have inside : page < USERPAGES := below.trans_le user
    have step := copying.step
    have isFrom' : role' fromDir = .directory := step.paged.isDir memberFrom
    have isTo' : role' toDir = .directory := step.paged.isDir memberTo
    have swap := step.touches.swap
    have source : fromDir ≠ toDir → current.mapped fromDir page = state.mapped fromDir page :=
      fun distinct => copying.source memberFrom user distinct below
    apply copyEntry_ends step.paged isFrom' isTo' (page_address_lt inside) isTable
    · intro frame next role'' change maps copy spends
      rw [pageNumber_mul] at change maps copy spends
      refine ⟨role'', copying.advance user below memberTo above change ?_ ?_⟩
      · intro distinct
        refine .inr ⟨source distinct ▸ maps, frame, copy.since step.touches
          (fun _ _ near => near) (fun _ _ nowhere => nowhere.elim) memberFrom inside
          (fun near => distinct near.1)⟩
      intro fresh
      rw [source fresh.1] at maps
      rw [if_pos (Option.isSome_iff_ne_none.mpr maps)]
      exact spends ((copying.rest page le_rfl below).trans (fresh.2 page above below))
    · intro next change maps denied noSwap refused
      rw [pageNumber_mul] at change maps refused
      apply short next role' (step.trans (change.mono ?_)) (step.touches.denied.trans_lt denied)
        (swap ▸ noSwap) (copying.refusal memberFrom user below maps refused)
      rintro dir spot ⟨rfl, rfl⟩
      exact ⟨rfl, above, below⟩
    · intro fault request outOfMemory maps fatal refused
      rw [pageNumber_mul] at maps refused
      exact stuck fault request outOfMemory (swap ▸ fatal)
        (copying.refusal memberFrom user below maps refused)
    intro skipped
    rw [pageNumber_mul] at skipped
    refine ⟨role', copying.advance user below memberTo above (PagedStep.refl step.paged) ?_ ?_⟩
    · exact fun distinct => .inl ⟨source distinct ▸ skipped, copying.rest page le_rfl below⟩
    intro fresh
    rw [source fresh.1] at skipped
    rw [skipped]
    exact CopyServed.refl current
  · intro page current role' past copying
    exact done current role' page past copying
  · exact ⟨PagedStep.refl paged, fun _ _ _ => by omega, fun _ _ _ => rfl,
      fun _ => ⟨[], rfl, CopyServed.refl state⟩⟩

end Ranges

end UcoreSmp
