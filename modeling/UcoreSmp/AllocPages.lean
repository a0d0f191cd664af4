import UcoreSmp.DefaultPmmRun

/-!
# Page allocation once pages can be swapped out

`alloc_pages` of `kern/mm/pmm.c` asks the allocator, and when one page is wanted
and there is none it calls `swap_out` for `check_mm_struct` and asks again.  That
pointer is set by the checks `check_pgfault` and `check_swap` that `kern_init`
runs, and cleared at their ends.  The queue of `kern/mm/swap_fifo.c` is a list
with the latest page first.
-/

namespace UcoreSmp

/-- The fields of `struct mm_struct` that swapping uses.  `smPriv` says whether
`sm_priv` points to `pra_list_head` or is null. -/
structure SwapMm where
  smPriv : Bool
  pgdir : Nat

/-- The allocator, the queue `pra_list_head`, and what `swap_out` reads.  Page
table entries are found by page number, unless there is no table; `saves` are the
results of the next calls of `swapfs_write`. -/
structure SwapState where
  pmm : PmmState
  swapInitOk : Bool
  checkMmStruct : Option Nat
  mms : Nat → SwapMm
  praList : List Nat
  praVaddr : Nat → BitVec 32
  ptes : Nat → Nat → Option (BitVec 32)
  saves : Nat → Bool

/-- The faults of the allocator, null pointers, the assertions of `swap_out` and
of the swap manager, and a loop that outlasts its budget. -/
inductive SwapFault where
  | pmm (fault : PmmFault)
  | nullMm
  | nullPte
  | nullHead
  | inTick
  | emptyQueue
  | notPresent
  | outOfBudget

abbrev SwapM := Routine SwapFault SwapState

def onPmm {α : Type} (routine : PmmM α) : SwapM α := fun state =>
  match routine state.pmm with
  | .ok (value, pmm) => .ok (value, { state with pmm := pmm })
  | .error fault => .error (.pmm fault)

def derefMm (mm : Option Nat) : SwapM SwapMm := do
  match mm with
  | none => throw .nullMm
  | some mm =>
    let state ← get
    pure (state.mms mm)

def fifoMapSwappable (mm : Option Nat) (page : Nat) : SwapM PUnit := do
  let owner ← derefMm mm
  check (owner.smPriv = true) .nullHead
  modify fun state => { state with praList := page :: state.praList }

def fifoSwapOutVictim (mm : Option Nat) (inTick : Bool) : SwapM Nat := do
  let owner ← derefMm mm
  check (owner.smPriv = true) .nullHead
  check (inTick = false) .inTick
  let state ← get
  match state.praList.getLast? with
  | none => throw .emptyQueue
  | some page => do
    set { state with praList := state.praList.dropLast }
    pure page

def SwapState.setPte (state : SwapState) (pgdir page : Nat) (pte : BitVec 32) : SwapState :=
  { state with
    ptes := Function.update state.ptes pgdir (Function.update (state.ptes pgdir) page (some pte)) }

/-- `swap_out`; the swap manager's `swap_out_victim` never returns an error. -/
def swapOut (budget : Nat) (mm : Option Nat) (inTick : Bool) : Nat → SwapM PUnit
  | 0 => pure PUnit.unit
  | n + 1 => do
    let page ← fifoSwapOutVictim mm inTick
    let owner ← derefMm mm
    let state ← get
    let v := (state.praVaddr page).toNat
    match state.ptes owner.pgdir (v / 4096) with
    | none => throw .nullPte
    | some pte => do
      check (pte &&& 1 ≠ 0) .notPresent
      set { state with saves := fun call => state.saves (call + 1) }
      if state.saves 0 then do
        modify fun state => state.setPte owner.pgdir (v / 4096)
          (BitVec.ofNat 32 ((v / 4096 + 1) * 256))
        onPmm (defaultFreePages budget page 1)
      else fifoMapSwappable mm page
      swapOut budget mm inTick n

/-- The loop of `alloc_pages`, for at most the given number of rounds. -/
def allocPages (budget n : Nat) : Nat → SwapM (Option Nat)
  | 0 => throw .outOfBudget
  | rounds + 1 => do
    let page ← onPmm (defaultAllocPages budget n)
    let state ← get
    if page ≠ none ∨ 1 < n ∨ state.swapInitOk = false then pure page
    else do
      swapOut budget state.checkMmStruct false n
      allocPages budget n rounds

/-- `kern_init` outside and inside of a check that sets `check_mm_struct`, and
after it. -/
inductive KernelPhase where
  | boot
  | checking
  | running

/-- The kernel's states.  Besides the calls of the allocator, any code may change
the queue, the page tables and the address spaces, but only the two checks write
`check_mm_struct`. -/
inductive KernelReaches (budget npage : Nat) (boot : PmmState) :
    KernelPhase → SwapState → PmmLedger → Prop
  | init {state : SwapState} : defaultInit boot = .ok (PUnit.unit, state.pmm) →
      state.checkMmStruct = none → KernelReaches budget npage boot .boot state ⟨∅, ∅⟩
  | call {phase state ledger result pmm} (call : PmmCall) :
      KernelReaches budget npage boot phase state ledger → call.Admissible npage ledger →
      call.run budget state.pmm = .ok (result, pmm) →
      KernelReaches budget npage boot phase { state with pmm := pmm } (call.record result ledger)
  | other {phase state ledger} {next : SwapState} :
      KernelReaches budget npage boot phase state ledger → next.pmm = state.pmm →
      next.checkMmStruct = state.checkMmStruct →
      KernelReaches budget npage boot phase next ledger
  | checkBegins {state ledger} (mm : Nat) : KernelReaches budget npage boot .boot state ledger →
      KernelReaches budget npage boot .checking { state with checkMmStruct := some mm } ledger
  | checkEnds {state ledger} : KernelReaches budget npage boot .checking state ledger →
      KernelReaches budget npage boot .boot { state with checkMmStruct := none } ledger
  | kernInitEnds {state ledger} : KernelReaches budget npage boot .boot state ledger →
      KernelReaches budget npage boot .running state ledger

section Runs

variable {budget npage n : Nat} {boot : PmmState} {phase : KernelPhase} {state : SwapState}
  {ledger : PmmLedger}

theorem KernelReaches.pmm (reaches : KernelReaches budget npage boot phase state ledger) :
    PmmReaches budget npage boot state.pmm ledger := by
  induction reaches with
  | init ran => exact .init ran
  | call call _ admissible ran ih => exact .call call ih admissible ran
  | other _ same _ ih => exact same ▸ ih
  | checkBegins _ _ ih | checkEnds _ ih | kernInitEnds _ ih => exact ih

theorem KernelReaches.checkMmStruct (reaches : KernelReaches budget npage boot phase state ledger)
    (ended : phase ≠ .checking) : state.checkMmStruct = none := by
  induction reaches with
  | init _ cleared => exact cleared
  | call _ _ _ _ ih => exact ih ended
  | other _ _ same ih => exact same.trans (ih ended)
  | checkBegins => exact absurd rfl ended
  | checkEnds => rfl
  | kernInitEnds _ ih => exact ih (by simp)

theorem run_onPmm {α : Type} {routine : PmmM α} {value : α} {pmm : PmmState}
    (ran : routine state.pmm = .ok (value, pmm)) :
    onPmm routine state = .ok (value, { state with pmm := pmm }) := by
  rw [onPmm, ran]

/-- With no free page, no `mm` and swapping on, a request for a page stops. -/
theorem allocPages_exhausted (empty : state.pmm.nrFree = 0) (cleared : state.checkMmStruct = none)
    (swapping : state.swapInitOk = true) (rounds : Nat) :
    allocPages budget 1 (rounds + 1) state = .error .nullMm := by
  have none : defaultAllocPages budget 1 state.pmm = .ok (none, state.pmm) := by
    simp only [defaultAllocPages]
    rw [run_bind (run_check Nat.one_pos), run_bind run_get, if_pos (by omega)]
    rfl
  rw [allocPages, run_bind (run_onPmm none), run_bind run_get,
    if_neg (by simpa using swapping), cleared]
  rfl

end Runs

/-- After `kern_init`, `alloc_pages` returns free pages or null when more than
one page is wanted or a page is free. -/
theorem alloc_pages_returns_iff {budget npage n : Nat} {boot : PmmState} {state : SwapState}
    {ledger : PmmLedger} (allReserved : ∀ p < npage, (boot.pages p).pageReserved = true)
    (enough : npage < budget) (reaches : KernelReaches budget npage boot .running state ledger)
    (swapping : state.swapInitOk = true) (positive : 1 ≤ n) :
    (∃ rounds page next, allocPages budget n rounds state = .ok (page, next) ∧
        ∀ first, page = some first →
          Finset.Ico first (first + n) ⊆ ledger.managed \ ledger.allocated) ↔
      1 < n ∨ 0 < state.pmm.nrFree := by
  have kept := reaches.pmm.kept allReserved enough
  obtain ⟨heads, settled⟩ := kept.settled
  constructor
  · rintro ⟨rounds, page, next, returns, -⟩
    by_contra neither
    obtain rfl : n = 1 := by omega
    cases rounds with
    | zero => cases returns
    | succ rounds =>
      rw [allocPages_exhausted (by omega) (reaches.checkMmStruct (by simp)) swapping] at returns
      cases returns
  intro serves
  obtain ⟨page, pmm, ran, -, outcome⟩ :=
    (defaultAllocPages_ends settled positive (kept.card_lt enough)).returns
  refine ⟨1, page, { state with pmm := pmm }, ?_, ?_⟩
  · rw [allocPages, run_bind (run_onPmm ran), run_bind run_get, if_pos ?_]
    · rfl
    by_contra swaps
    obtain ⟨rfl, rfl⟩ : page = none ∧ n = 1 := by
      simp only [not_or, not_not] at swaps
      exact ⟨swaps.1, by omega⟩
    obtain ⟨-, few | small⟩ := outcome
    · omega
    -- every block has a page, so there is none
    have counted := settled.counted
    cases heads with
    | nil =>
      rw [PmmState.total_nil] at counted
      omega
    | cons head rest =>
      have := small head (by simp)
      have := settled.layout.positive head (by simp)
      omega
  · rintro first rfl
    exact outcome.1

/-- An allocator without pages, and an empty queue. -/
def swappingKernel : SwapState where
  pmm := (reservedBoot.setLinks (listInit reservedBoot.links .freeList)).setNrFree 0
  swapInitOk := true
  checkMmStruct := none
  mms _ := ⟨true, 0⟩
  praList := []
  praVaddr _ := 0
  ptes _ _ := none
  saves _ := true

theorem alloc_pages_returns_one_free :
    ∃ state ledger, KernelReaches 5 4 reservedBoot .running state ledger ∧
      ∃ rounds page next, allocPages 5 1 rounds state = .ok (page, next) ∧
        ∀ first, page = some first →
          Finset.Ico first (first + 1) ⊆ ledger.managed \ ledger.allocated := by
  have booted : KernelReaches 5 4 reservedBoot .boot swappingKernel _ := .init rfl rfl
  have mapped := (booted.call (.initMemmap 0 4) (by decide) rfl).kernInitEnds
  exact ⟨_, _, mapped, (alloc_pages_returns_iff (by decide) (by decide) mapped rfl
    le_rfl).mpr (.inr (by decide))⟩

/-- When all four pages are taken, the next request follows a null pointer. -/
theorem alloc_pages_none_free_stops :
    ∃ state ledger, KernelReaches 5 4 reservedBoot .running state ledger ∧
      state.swapInitOk = true ∧ ∀ rounds, allocPages 5 1 (rounds + 1) state = .error .nullMm := by
  have booted : KernelReaches 5 4 reservedBoot .boot swappingKernel _ := .init rfl rfl
  have mapped := (booted.call (.initMemmap 0 4) (by decide) rfl).kernInitEnds
  have taken := mapped.call (.allocPages 4) (by decide) rfl
  exact ⟨_, _, taken, rfl, allocPages_exhausted rfl rfl rfl⟩

end UcoreSmp
