import Mathlib.Data.Finset.Basic
import UcoreSmp.ByteCodec
import UcoreSmp.ErrorCodes
import UcoreSmp.KernelCall

/-!
# Page frames and page tables

`kern/mm/pmm.c`: two-level page tables kept in physical page frames.  A
`struct Page` and the frame that it manages are named by the frame number, and
a `pte_t *` by the frame of the table and an index.  The frame that the
allocator answers with is an input, `picks`: any free frame, or none.  The
translation cache is not modelled, and `check_mm_struct` is null, as it is once
the kernel has passed its own memory tests.
-/

namespace UcoreSmp

def PGSIZE : Nat := 4096

def PTSIZE : Nat := 4096 * 1024

def USERBASE : Nat := 0x00200000
def USERTOP : Nat := 0xB0000000

def PTE_P : Nat := 1
def PTE_W : Nat := 2
def PTE_U : Nat := 4
def PTE_USER : Nat := PTE_U ||| PTE_W ||| PTE_P

def word (n : Nat) : Nat := n % 2 ^ 32

def rounddown (a n : Nat) : Nat := a - a % n

def roundup (a n : Nat) : Nat := rounddown (word (a + n - 1)) n

def pdx (la : Nat) : Nat := la / PTSIZE % 1024
def ptx (la : Nat) : Nat := la / PGSIZE % 1024
def ppn (pa : Nat) : Nat := pa / PGSIZE

def entryAddr (entry : Nat) : Nat := entry / PGSIZE * PGSIZE

def page2pa (page : Nat) : Nat := page * PGSIZE

def UserAccess (first last : Nat) : Prop := USERBASE ≤ first ∧ first < last ∧ last ≤ USERTOP

instance (first last : Nat) : Decidable (UserAccess first last) :=
  inferInstanceAs (Decidable (_ ∧ _ ∧ _))

/-- Physical memory: the bytes of each frame, the `ref` of its `struct Page`,
and the frames that the allocator holds.  `denied` counts the requests for
memory that failed. -/
structure PhysState where
  npage : Nat
  mem : Nat → Bytes
  ref : Nat → Int
  free : Finset Nat
  picks : List (Option Nat)
  denied : Nat
  swapInitOk : Bool

structure PtePtr where
  table : Nat
  index : Nat
  deriving DecidableEq

/-- The panics and assertions of the memory management.  `swapOut` is the null
`mm` that `swap_out` follows when a single page is missing, and `doubleFree` the
release of a frame that the allocator already holds. -/
inductive MmFault where
  | swapOut
  | noPage
  | invalidPa
  | invalidPte
  | doubleFree
  | misaligned
  | noUserAccess
  | insertFailed
  | loopBudget
  | nullPgdir
  | nonWritable
  | swapIn
  | vmaEmpty
  | vmaOverlap
  | mmInUse
  deriving DecidableEq

/-- The faults of a request for memory that failed. -/
def MmFault.OutOfMemory (fault : MmFault) : Prop := fault = .swapOut ∨ fault = .noPage

abbrev Paging := Call MmFault PhysState

namespace PhysState

def entry (state : PhysState) (frame index : Nat) : Nat :=
  leNat 4 (state.mem frame) (4 * index)

def setMem (state : PhysState) (frame : Nat) (bytes : Bytes) : PhysState :=
  { state with mem := Function.update state.mem frame bytes }

def setEntry (state : PhysState) (frame index value : Nat) : PhysState :=
  state.setMem frame ((state.mem frame).blit (4 * index) (leBytes value) 0 4)

def setRef (state : PhysState) (frame : Nat) (ref : Int) : PhysState :=
  { state with ref := Function.update state.ref frame ref }

def pick (state : PhysState) : Option Nat :=
  match state.picks with
  | some frame :: _ => if frame ∈ state.free then some frame else none
  | _ => none

def take (state : PhysState) (frame : Nat) : PhysState :=
  { state with free := state.free.erase frame, picks := state.picks.tail }

def deny (state : PhysState) : PhysState :=
  { state with picks := state.picks.tail, denied := state.denied + 1 }

def give (state : PhysState) (frame : Nat) : PhysState :=
  { state.setRef frame 0 with free := insert frame state.free }

end PhysState

def allocPage : Paging (Option Nat) := do
  let state ← get
  match state.pick with
  | some page =>
    set (state.take page)
    pure (some page)
  | none =>
    if state.swapInitOk then panicWith .swapOut
    else
      set state.deny
      pure none

def freePage (page : Nat) : Paging PUnit := do
  let state ← get
  ensure (page ∉ state.free) .doubleFree
  set (state.give page)

def setPageRef (page : Nat) (value : Int) : Paging PUnit :=
  modify fun state => state.setRef page value

def pageRefInc (page : Nat) : Paging Int := do
  let state ← get
  set (state.setRef page (state.ref page + 1))
  pure (state.ref page + 1)

def pageRefDec (page : Nat) : Paging Int := do
  let state ← get
  set (state.setRef page (state.ref page - 1))
  pure (state.ref page - 1)

def kaddr (pa : Nat) : Paging Nat := do
  let state ← get
  ensure (ppn pa < state.npage) .invalidPa
  pure (ppn pa)

def pa2page (pa : Nat) : Paging Nat := do
  let state ← get
  ensure (ppn pa < state.npage) .invalidPa
  pure (ppn pa)

def pte2page (pte : Nat) : Paging Nat := do
  ensure (pte &&& PTE_P ≠ 0) .invalidPte
  pa2page (entryAddr pte)

def pde2page (pde : Nat) : Paging Nat :=
  pa2page (entryAddr pde)

def readPte (ptep : PtePtr) : Paging Nat := do
  let state ← get
  pure (state.entry ptep.table ptep.index)

def writePte (ptep : PtePtr) (value : Nat) : Paging PUnit :=
  modify fun state => state.setEntry ptep.table ptep.index value

def clearPage (frame : Nat) : Paging PUnit :=
  modify fun state => state.setMem frame ((state.mem frame).blit 0 (fun _ => 0) 0 PGSIZE)

def copyPageBytes (target source : Nat) : Paging PUnit :=
  modify fun state =>
    state.setMem target ((state.mem target).blit 0 (state.mem source) 0 PGSIZE)

def pteAt (pgdir la : Nat) : Paging (Option PtePtr) := do
  let pde ← readPte ⟨pgdir, pdx la⟩
  let table ← kaddr (entryAddr pde)
  pure (some ⟨table, ptx la⟩)

def newTable (pgdir la page : Nat) : Paging PUnit := do
  setPageRef page 1
  let frame ← kaddr (page2pa page)
  clearPage frame
  writePte ⟨pgdir, pdx la⟩ (page2pa page ||| PTE_U ||| PTE_W ||| PTE_P)

def getPte (pgdir la : Nat) (create : Bool) : Paging (Option PtePtr) := do
  let pde ← readPte ⟨pgdir, pdx la⟩
  if pde &&& PTE_P = 0 then
    if create then
      match ← allocPage with
      | none => pure none
      | some page =>
        newTable pgdir la page
        pteAt pgdir la
    else pure none
  else pteAt pgdir la

def pageRemovePte (ptep : PtePtr) : Paging PUnit := do
  let pte ← readPte ptep
  if pte &&& PTE_P ≠ 0 then
    let page ← pte2page pte
    let ref ← pageRefDec page
    if ref = 0 then freePage page
    writePte ptep 0

def pageRemove (pgdir la : Nat) : Paging PUnit := do
  match ← getPte pgdir la false with
  | none => pure ()
  | some ptep => pageRemovePte ptep

/-- The part of `page_insert` that makes room in a present entry. -/
def releasePte (ptep : PtePtr) (page : Nat) : Paging PUnit := do
  let pte ← readPte ptep
  if pte &&& PTE_P ≠ 0 then
    let p ← pte2page pte
    if p = page then
      let _ ← pageRefDec page
    else pageRemovePte ptep

def pageInsert (pgdir page la perm : Nat) : Paging PUnit := do
  match ← getPte pgdir la true with
  | none => throw (-E_NO_MEM)
  | some ptep =>
    let _ ← pageRefInc page
    releasePte ptep page
    writePte ptep (page2pa page ||| PTE_P ||| perm)

def pgdirAllocPage (pgdir la perm : Nat) : Paging (Option Nat) := do
  match ← allocPage with
  | none => pure none
  | some page =>
    match ← attempt (pageInsert pgdir page la perm) with
    | .ok _ => pure (some page)
    | .error _ =>
      freePage page
      pure none

/-- The two assertions of every routine on a range. -/
def checkRange (start last : Nat) : Paging PUnit := do
  ensure (start % PGSIZE = 0 ∧ last % PGSIZE = 0) .misaligned
  ensure (UserAccess start last) .noUserAccess

/-- One round of the loop of `unmap_range` and `copy_range`: visit the entry of
the address, or step over a missing table. -/
def walkRound (pgdir : Nat) (visit : Nat → PtePtr → Paging PUnit) (start : Nat) : Paging Nat := do
  match ← getPte pgdir start false with
  | none => pure (rounddown (word (start + PTSIZE)) PTSIZE)
  | some ptep =>
    visit start ptep
    pure (word (start + PGSIZE))

/-- The loop of `unmap_range` and `copy_range`. -/
def walkRange (pgdir last : Nat) (visit : Nat → PtePtr → Paging PUnit) : Nat → Nat → Paging PUnit
  | 0, _ => panicWith .loopBudget
  | fuel + 1, start => do
    let next ← walkRound pgdir visit start
    if next ≠ 0 ∧ next < last then walkRange pgdir last visit fuel next else pure ()

def rangeBudget (start last : Nat) : Nat := (last - start) / PGSIZE + 1

/-- The body of `unmap_range` for one entry. -/
def unmapEntry (_la : Nat) (ptep : PtePtr) : Paging PUnit := do
  let pte ← readPte ptep
  if pte ≠ 0 then pageRemovePte ptep

def unmapRange (pgdir start last : Nat) : Paging PUnit := do
  checkRange start last
  walkRange pgdir last unmapEntry (rangeBudget start last) start

/-- The body of `copy_range` for one present entry of the source. -/
def copyMapping (toDir la : Nat) (ptep : PtePtr) : Paging PUnit := do
  match ← getPte toDir la true with
  | none => throw (-E_NO_MEM)
  | some _ =>
    let pte ← readPte ptep
    let perm := pte &&& PTE_USER
    let page ← pte2page pte
    match ← allocPage with
    | none => panicWith .noPage
    | some npage =>
      let source ← kaddr (page2pa page)
      let target ← kaddr (page2pa npage)
      copyPageBytes target source
      match ← attempt (pageInsert toDir npage la perm) with
      | .ok _ => pure ()
      | .error _ => panicWith .insertFailed

/-- The body of `copy_range` for one entry of the source. -/
def copyEntry (toDir la : Nat) (ptep : PtePtr) : Paging PUnit := do
  let pte ← readPte ptep
  if pte &&& PTE_P ≠ 0 then copyMapping toDir la ptep

/-- `copy_range`, which does not look at `share`. -/
def copyRange (toDir fromDir start last : Nat) : Paging PUnit := do
  checkRange start last
  walkRange fromDir last (copyEntry toDir) (rangeBudget start last) start

/-- The loop of `exit_range`. -/
def exitTables (pgdir last : Nat) : Nat → Nat → Paging PUnit
  | 0, _ => panicWith .loopBudget
  | fuel + 1, start => do
    let pde ← readPte ⟨pgdir, pdx start⟩
    if pde &&& PTE_P ≠ 0 then
      let table ← pde2page pde
      freePage table
      writePte ⟨pgdir, pdx start⟩ 0
    let next := word (start + PTSIZE)
    if next ≠ 0 ∧ next < last then exitTables pgdir last fuel next else pure ()

def exitRange (pgdir start last : Nat) : Paging PUnit := do
  checkRange start last
  exitTables pgdir last (rangeBudget start last) (rounddown start PTSIZE)

end UcoreSmp
