import UcoreSmp.KernelTriple
import UcoreSmp.KernelList

/-!
# The first-fit page allocator

`kern/mm/default_pmm.c`.  A page is named by its index in the `pages` array, so
that pointer arithmetic on `struct Page *` is addition.  There are at most
`KMEMSIZE / PGSIZE` pages, hence none of the unsigned counters can wrap.  The
`while` loops follow list links and take an iteration budget; running out of it
is a fault of its own.
-/

namespace UcoreSmp

/-- The fields of `struct Page` that this allocator uses.  Its `page_link` is
kept in the links of the state. -/
structure Page where
  ref : Int
  flags : BitVec 32
  property : Nat

def PG_reserved : Nat := 0

def PG_property : Nat := 1

namespace Page

def pageReserved (page : Page) : Bool := page.flags.getLsbD PG_reserved

def pageProperty (page : Page) : Bool := page.flags.getLsbD PG_property

def setPageProperty (page : Page) : Page :=
  { page with flags := page.flags ||| (1#32 <<< PG_property) }

def clearPageProperty (page : Page) : Page :=
  { page with flags := page.flags &&& ~~~(1#32 <<< PG_property) }

@[simp]
theorem setPageProperty_pageProperty (page : Page) : page.setPageProperty.pageProperty = true := by
  simp [setPageProperty, pageProperty, PG_property]

@[simp]
theorem setPageProperty_pageReserved (page : Page) :
    page.setPageProperty.pageReserved = page.pageReserved := by
  simp [setPageProperty, pageReserved, PG_property, PG_reserved]

@[simp]
theorem clearPageProperty_pageProperty (page : Page) :
    page.clearPageProperty.pageProperty = false := by
  simp [clearPageProperty, pageProperty, PG_property]

@[simp]
theorem clearPageProperty_pageReserved (page : Page) :
    page.clearPageProperty.pageReserved = page.pageReserved := by
  simp [clearPageProperty, pageReserved, PG_property, PG_reserved]

end Page

/-- An entry of the free list: its header `free_list` or a page's
`page_link`. -/
inductive FreeEntry where
  | freeList
  | pageLink (page : Nat)
  deriving DecidableEq

structure PmmState where
  pages : Nat → Page
  links : Links FreeEntry
  nrFree : Nat

inductive PmmFault where
  | emptyRequest
  | notReserved
  | notAllocated
  | unmergedNeighbour
  | outOfBudget
  deriving DecidableEq

abbrev PmmM := Routine PmmFault PmmState

namespace PmmState

def setPage (state : PmmState) (p : Nat) (page : Page) : PmmState :=
  { state with pages := Function.update state.pages p page }

def setProperty (state : PmmState) (p value : Nat) : PmmState :=
  state.setPage p { state.pages p with property := value }

def setPageProperty (state : PmmState) (p : Nat) : PmmState :=
  state.setPage p (state.pages p).setPageProperty

def clearPageProperty (state : PmmState) (p : Nat) : PmmState :=
  state.setPage p (state.pages p).clearPageProperty

def setLinks (state : PmmState) (links : Links FreeEntry) : PmmState :=
  { state with links := links }

def setNrFree (state : PmmState) (value : Nat) : PmmState :=
  { state with nrFree := value }

end PmmState

def defaultInit : PmmM PUnit :=
  modify fun state =>
    (state.setLinks (listInit state.links .freeList)).setNrFree 0

/-- The loop of `default_init_memmap` over the pages from `p` on. -/
def initPages (p : Nat) : Nat → PmmM PUnit
  | 0 => pure PUnit.unit
  | count + 1 => do
    let state ← get
    check ((state.pages p).pageReserved = true) .notReserved
    set (state.setPage p { ref := 0, flags := 0, property := 0 })
    initPages (p + 1) count

def defaultInitMemmap (base n : Nat) : PmmM PUnit := do
  check (0 < n) .emptyRequest
  initPages base n
  modify fun state => (state.setProperty base n).setPageProperty base
  modify fun state => state.setNrFree (state.nrFree + n)
  modify fun state =>
    state.setLinks (listAddBefore state.links .freeList (.pageLink base))

/-- The search loop of `default_alloc_pages`: the first block after `le` with
at least `n` pages. -/
def findFit (n : Nat) : Nat → FreeEntry → PmmM (Option Nat)
  | 0, _ => throw .outOfBudget
  | budget + 1, le => do
    let state ← get
    match listNext state.links le with
    | .freeList => pure none
    | .pageLink p =>
      if n ≤ (state.pages p).property then pure (some p)
      else findFit n budget (.pageLink p)

/-- The tail of `default_alloc_pages`: take `n` pages off the block at
`page`. -/
def takePages (page n : Nat) : PmmM PUnit := do
  let state ← get
  let rest := (state.pages page).property
  if n < rest then
    modify fun state =>
      (state.setProperty (page + n) (rest - n)).setPageProperty (page + n)
    modify fun state => state.setLinks
      (listAddAfter state.links (.pageLink page) (.pageLink (page + n)))
  else pure PUnit.unit
  modify fun state => state.setLinks (listDel state.links (.pageLink page))
  modify fun state => state.setNrFree (state.nrFree - n)
  modify fun state => state.clearPageProperty page

def defaultAllocPages (budget n : Nat) : PmmM (Option Nat) := do
  check (0 < n) .emptyRequest
  let state ← get
  if state.nrFree < n then pure none
  else do
    let page ← findFit n budget .freeList
    match page with
    | none => pure none
    | some page => do
      takePages page n
      pure (some page)

/-- The first loop of `default_free_pages` over the pages from `p` on. -/
def clearPages (p : Nat) : Nat → PmmM PUnit
  | 0 => pure PUnit.unit
  | count + 1 => do
    let state ← get
    check ((state.pages p).pageReserved = false ∧
      (state.pages p).pageProperty = false) .notAllocated
    set (state.setPage p { state.pages p with flags := 0, ref := 0 })
    clearPages (p + 1) count

/-- The merging loop of `default_free_pages`; it returns the final `base`. -/
def mergeBlocks : Nat → FreeEntry → Nat → PmmM Nat
  | 0, _, _ => throw .outOfBudget
  | _ + 1, .freeList, base => pure base
  | budget + 1, .pageLink p, base => do
    let state ← get
    let le := listNext state.links (.pageLink p)
    if base + (state.pages base).property = p then do
      modify fun state => state.setProperty base
        ((state.pages base).property + (state.pages p).property)
      modify fun state => state.clearPageProperty p
      modify fun state => state.setLinks (listDel state.links (.pageLink p))
      mergeBlocks budget le base
    else if p + (state.pages p).property = base then do
      modify fun state => state.setProperty p
        ((state.pages p).property + (state.pages base).property)
      modify fun state => state.clearPageProperty base
      modify fun state => state.setLinks (listDel state.links (.pageLink p))
      mergeBlocks budget le p
    else mergeBlocks budget le base

/-- The last loop of `default_free_pages`: the entry before which `base` is
put back. -/
def findPlace (base : Nat) : Nat → FreeEntry → PmmM FreeEntry
  | 0, _ => throw .outOfBudget
  | _ + 1, .freeList => pure .freeList
  | budget + 1, .pageLink p => do
    let state ← get
    if base + (state.pages base).property ≤ p then do
      check (base + (state.pages base).property ≠ p) .unmergedNeighbour
      pure (.pageLink p)
    else findPlace base budget (listNext state.links (.pageLink p))

def defaultFreePages (budget base n : Nat) : PmmM PUnit := do
  check (0 < n) .emptyRequest
  clearPages base n
  modify fun state => (state.setProperty base n).setPageProperty base
  let state ← get
  let base ← mergeBlocks budget (listNext state.links .freeList) base
  modify fun state => state.setNrFree (state.nrFree + n)
  let state ← get
  let le ← findPlace base budget (listNext state.links .freeList)
  modify fun state =>
    state.setLinks (listAddBefore state.links le (.pageLink base))

end UcoreSmp
