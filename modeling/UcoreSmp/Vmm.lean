import UcoreSmp.Paging

/-!
# Address spaces

`kern/mm/vmm.c`, and the functions of `kern/process/proc.c` that build, copy and
tear down the memory of a process.  A `struct mm_struct` and a `struct
vma_struct` are named by the heap block that holds them.  The answers of
`kmalloc` are an input like those of the page allocator.  Locks, `pgfault_num`
and the kernel's messages are not modelled.
-/

namespace UcoreSmp

def VM_READ : Nat := 1
def VM_WRITE : Nat := 2
def VM_EXEC : Nat := 4
def VM_STACK : Nat := 8

def VPT_INDEX : Nat := 1003

structure Vma where
  block : Nat
  vmStart : Nat
  vmEnd : Nat
  vmFlags : Nat
  deriving DecidableEq

/-- `struct mm_struct`, with its list of areas in the order of the list. -/
structure MmStruct where
  mmapList : List Vma
  mmapCache : Option Vma
  pgdir : Option Nat
  mapCount : Int
  mmCount : Int
  deriving DecidableEq

/-- The memory management of the kernel: physical memory, the live heap blocks,
and the address spaces. -/
structure MmState where
  phys : PhysState
  heap : Finset Nat
  heapPicks : List (Option Nat)
  mms : Nat → MmStruct
  bootPgdir : Nat

abbrev MmCall := Call MmFault MmState

namespace MmState

def setPhys (state : MmState) (phys : PhysState) : MmState :=
  { state with phys := phys }

def setMm (state : MmState) (mm : Nat) (value : MmStruct) : MmState :=
  { state with mms := Function.update state.mms mm value }

def pick (state : MmState) : Option Nat :=
  match state.heapPicks with
  | some block :: _ => if block ∈ state.heap then none else some block
  | _ => none

def take (state : MmState) (block : Nat) : MmState :=
  { state with heap := insert block state.heap, heapPicks := state.heapPicks.tail }

def deny (state : MmState) : MmState :=
  { state with
    heapPicks := state.heapPicks.tail
    phys := { state.phys with denied := state.phys.denied + 1 } }

def give (state : MmState) (block : Nat) : MmState :=
  { state with heap := state.heap.erase block }

end MmState

def onPhys {α : Type} (call : Paging α) : MmCall α :=
  within MmState.phys (fun phys state => state.setPhys phys) id call

/-- `kmalloc` of at most a page.  That its allocator takes a page is a step of its own in the runs;
when there is none, `alloc_pages` stops in `swap_out` once pages can be swapped out. -/
def kmalloc : MmCall (Option Nat) := do
  let state ← get
  match state.pick with
  | some block =>
    set (state.take block)
    pure (some block)
  | none =>
    if state.phys.swapInitOk then panicWith .swapOut
    else
      set state.deny
      pure none

def kfree (block : Nat) : MmCall PUnit := do
  let state ← get
  ensure (block ∈ state.heap) .doubleFree
  set (state.give block)

def mmCreate : MmCall (Option Nat) := do
  match ← kmalloc with
  | none => pure none
  | some mm =>
    modify fun state => state.setMm mm ⟨[], none, none, 0, 0⟩
    pure (some mm)

def vmaCreate (vmStart vmEnd vmFlags : Nat) : MmCall (Option Vma) := do
  match ← kmalloc with
  | none => pure none
  | some block => pure (some ⟨block, vmStart, vmEnd, vmFlags⟩)

def Vma.Contains (vma : Vma) (addr : Nat) : Prop := vma.vmStart ≤ addr ∧ addr < vma.vmEnd

instance (vma : Vma) (addr : Nat) : Decidable (vma.Contains addr) :=
  inferInstanceAs (Decidable (_ ∧ _))

/-- The area that `find_vma` returns: the cached one, or the first of the list. -/
def MmStruct.lookup (mm : MmStruct) (addr : Nat) : Option Vma :=
  match mm.mmapCache with
  | some vma =>
    if vma.Contains addr then some vma
    else mm.mmapList.find? fun vma => decide (vma.Contains addr)
  | none => mm.mmapList.find? fun vma => decide (vma.Contains addr)

def findVma (mm addr : Nat) : MmCall (Option Vma) := do
  let state ← get
  match (state.mms mm).lookup addr with
  | none => pure none
  | some vma =>
    set (state.setMm mm { state.mms mm with mmapCache := some vma })
    pure (some vma)

def checkVmaOverlap (previous next : Vma) : MmCall PUnit := do
  ensure (previous.vmStart < previous.vmEnd) .vmaEmpty
  ensure (previous.vmEnd ≤ next.vmStart) .vmaOverlap
  ensure (next.vmStart < next.vmEnd) .vmaEmpty

def vmasBefore (vma : Vma) (list : List Vma) : List Vma :=
  list.takeWhile fun other => decide (other.vmStart ≤ vma.vmStart)

def vmasAfter (vma : Vma) (list : List Vma) : List Vma :=
  list.dropWhile fun other => decide (other.vmStart ≤ vma.vmStart)

def MmStruct.link (mm : MmStruct) (vma : Vma) : MmStruct :=
  { mm with
    mmapList := vmasBefore vma mm.mmapList ++ vma :: vmasAfter vma mm.mmapList
    mapCount := mm.mapCount + 1 }

/-- The overlap checks of `insert_vma_struct`, where there is a neighbour. -/
def checkPrevious (previous : Option Vma) (vma : Vma) : MmCall PUnit :=
  match previous with
  | some previous => checkVmaOverlap previous vma
  | none => pure ()

def checkNext (vma : Vma) (next : Option Vma) : MmCall PUnit :=
  match next with
  | some next => checkVmaOverlap vma next
  | none => pure ()

def insertVmaStruct (mm : Nat) (vma : Vma) : MmCall PUnit := do
  ensure (vma.vmStart < vma.vmEnd) .vmaEmpty
  let state ← get
  checkPrevious (vmasBefore vma (state.mms mm).mmapList).getLast? vma
  checkNext vma (vmasAfter vma (state.mms mm).mmapList).head?
  modify fun state => state.setMm mm ((state.mms mm).link vma)

/-- The part of `mm_map` that makes the area. -/
def mapRange (mm start last vmFlags : Nat) : MmCall PUnit := do
  match ← vmaCreate start last vmFlags with
  | none => throw (-E_NO_MEM)
  | some vma => insertVmaStruct mm vma

def mmMap (mm addr len vmFlags : Nat) : MmCall PUnit := do
  let start := rounddown addr PGSIZE
  let last := roundup (word (addr + len)) PGSIZE
  if UserAccess start last then
    match ← findVma mm start with
    | some vma =>
      if vma.vmStart < last then throw (-E_INVAL)
      else mapRange mm start last vmFlags
    | none => mapRange mm start last vmFlags
  else throw (-E_INVAL)

def pgdirOf (mm : Nat) : MmCall Nat := do
  let state ← get
  match (state.mms mm).pgdir with
  | some pgdir => pure pgdir
  | none => panicWith .nullPgdir

def dupVmas (toMm fromMm : Nat) : List Vma → MmCall PUnit
  | [] => pure ()
  | vma :: rest => do
    match ← vmaCreate vma.vmStart vma.vmEnd vma.vmFlags with
    | none => throw (-E_NO_MEM)
    | some nvma =>
      insertVmaStruct toMm nvma
      let toDir ← pgdirOf toMm
      let fromDir ← pgdirOf fromMm
      match ← attempt (onPhys (copyRange toDir fromDir vma.vmStart vma.vmEnd)) with
      | .ok _ => dupVmas toMm fromMm rest
      | .error _ => throw (-E_NO_MEM)

/-- `dup_mmap`, which walks the list backwards. -/
def dupMmap (toMm fromMm : Nat) : MmCall PUnit := do
  let state ← get
  dupVmas toMm fromMm (state.mms fromMm).mmapList.reverse

def unmapVmas (pgdir : Nat) : List Vma → MmCall PUnit
  | [] => pure ()
  | vma :: rest => do
    onPhys (unmapRange pgdir vma.vmStart vma.vmEnd)
    unmapVmas pgdir rest

def exitVmas (pgdir : Nat) : List Vma → MmCall PUnit
  | [] => pure ()
  | vma :: rest => do
    onPhys (exitRange pgdir vma.vmStart vma.vmEnd)
    exitVmas pgdir rest

def exitMmap (mm : Nat) : MmCall PUnit := do
  let state ← get
  ensure ((state.mms mm).mmCount = 0) .mmInUse
  let pgdir ← pgdirOf mm
  unmapVmas pgdir (state.mms mm).mmapList
  exitVmas pgdir (state.mms mm).mmapList

def destroyVmas : List Vma → MmCall PUnit
  | [] => pure ()
  | vma :: rest => do
    kfree vma.block
    destroyVmas rest

def mmDestroy (mm : Nat) : MmCall PUnit := do
  let state ← get
  ensure ((state.mms mm).mmCount = 0) .mmInUse
  destroyVmas (state.mms mm).mmapList
  kfree mm

/-- The access check of `do_pgfault`, by the low bits of the error code. -/
def faultAllowed (errorCode vmFlags : Nat) : Bool :=
  match errorCode % 4 with
  | 0 => vmFlags &&& (VM_READ ||| VM_EXEC) ≠ 0
  | 1 => false
  | _ => vmFlags &&& VM_WRITE ≠ 0

def faultPerm (vmFlags : Nat) : Nat :=
  if vmFlags &&& VM_WRITE ≠ 0 then PTE_U ||| PTE_W else PTE_U

/-- The part of `do_pgfault` after the checks.  The entry of a page that was
swapped out is never met, since nothing swaps pages out. -/
def faultIn (pgdir addr perm : Nat) : Paging PUnit := do
  match ← getPte pgdir addr true with
  | none => throw (-E_NO_MEM)
  | some ptep =>
    let pte ← readPte ptep
    if pte = 0 then
      match ← pgdirAllocPage pgdir addr perm with
      | none => throw (-E_NO_MEM)
      | some _ => pure ()
    else if pte &&& PTE_P ≠ 0 then panicWith .nonWritable
    else panicWith .swapIn

def doPgfault (mm errorCode addr : Nat) : MmCall PUnit := do
  match ← findVma mm addr with
  | none => throw (-E_INVAL)
  | some vma =>
    if faultAllowed errorCode vma.vmFlags then
      let pgdir ← pgdirOf mm
      onPhys (faultIn pgdir (rounddown addr PGSIZE) (faultPerm vma.vmFlags))
    else throw (-E_INVAL)

def fillPgdir (bootPgdir page : Nat) : Paging PUnit := do
  let pgdir ← kaddr (page2pa page)
  copyPageBytes pgdir bootPgdir
  writePte ⟨pgdir, VPT_INDEX⟩ (page2pa page ||| PTE_P ||| PTE_W)

def setupPgdir (mm : Nat) : MmCall PUnit := do
  match ← onPhys allocPage with
  | none => throw (-E_NO_MEM)
  | some page =>
    let state ← get
    onPhys (fillPgdir state.bootPgdir page)
    modify fun state => state.setMm mm { state.mms mm with pgdir := some page }

def putPgdir (mm : Nat) : MmCall PUnit := do
  let pgdir ← pgdirOf mm
  onPhys (freePage pgdir)

def MmState.addCount (state : MmState) (mm : Nat) (change : Int) : MmState :=
  state.setMm mm { state.mms mm with mmCount := (state.mms mm).mmCount + change }

def destroySpace (mm : Nat) : MmCall PUnit := do
  exitMmap mm
  putPgdir mm
  mmDestroy mm

/-- A new, empty address space: how `copy_mm` and `load_icode` begin. -/
def newSpace : MmCall Nat := do
  match ← mmCreate with
  | none => throw (-E_NO_MEM)
  | some mm =>
    match ← attempt (setupPgdir mm) with
    | .error _ =>
      mmDestroy mm
      throw (-E_NO_MEM)
    | .ok _ => pure mm

/-- `copy_mm` for a process with the given address space: the address space of
the new process. -/
def copyMm (cloneVm : Bool) (oldmm : Option Nat) : MmCall (Option Nat) := do
  match oldmm with
  | none => pure none
  | some oldmm =>
    if cloneVm then
      modify fun state => state.addCount oldmm 1
      pure (some oldmm)
    else
      let mm ← newSpace
      match ← attempt (dupMmap mm oldmm) with
      | .error code =>
        destroySpace mm
        throw code
      | .ok _ =>
        modify fun state => state.addCount mm 1
        pure (some mm)

def exitMm (mm : Nat) : MmCall PUnit := do
  modify fun state => state.addCount mm (-1)
  let state ← get
  if (state.mms mm).mmCount = 0 then destroySpace mm

end UcoreSmp
