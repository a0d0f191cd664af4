import Mathlib
import UcoreSmp.ErrorCodes
import UcoreSmp.KernelTriple

/-!
# Areas of an address space

The memory areas of `ucore_plus`, `mm/vmm.c`, on a 64-bit machine: areas that may
be backed by a file or by a shared memory object, the search for an area, mapping
and unmapping.  A page table is the function from page numbers to entries, an
entry being the permission of the user to write.  The reference counts of files
and shared memory objects, and the answers of `kmalloc`, are shared by all
address spaces.  The red-black tree of a long list is a search tree of the list
in an arbitrary shape.  Locks and the kernel's messages are not modelled.
-/

namespace UcoreSmp

namespace Plus

def PGSIZE : Nat := 4096
def USERBASE : Nat := 0x1000
def USERTOP : Nat := 0x100000000000
def RB_MIN_MAP_COUNT : Int := 32

def VM_READ : BitVec 32 := 1
def VM_WRITE : BitVec 32 := 2
def VM_STACK : BitVec 32 := 8
def VM_SHARE : BitVec 32 := 0x10

def word (value : Nat) : Nat := value % 2 ^ 64

def roundDown (a : Nat) : Nat := a - a % PGSIZE

def roundUp (a : Nat) : Nat := roundDown (word (a + PGSIZE - 1))

def UserAccess (start stop : Nat) : Prop := USERBASE ≤ start ∧ start < stop ∧ stop ≤ USERTOP

instance (start stop : Nat) : Decidable (UserAccess start stop) :=
  inferInstanceAs (Decidable (_ ∧ _ ∧ _))

/-- `struct vma_struct`, with the mapped file and the shared memory object. -/
structure Vma where
  vmStart : Nat
  vmEnd : Nat
  vmFlags : BitVec 32
  shmem : Option Nat
  shmemOff : Nat
  file : Option Nat
  offset : Int
  deriving DecidableEq

namespace Vma

def Contains (vma : Vma) (addr : Nat) : Prop := vma.vmStart ≤ addr ∧ addr < vma.vmEnd

instance (vma : Vma) (addr : Nat) : Decidable (vma.Contains addr) :=
  inferInstanceAs (Decidable (_ ∧ _))

def Shared (vma : Vma) : Prop := vma.vmFlags &&& VM_SHARE ≠ 0

instance (vma : Vma) : Decidable vma.Shared := inferInstanceAs (Decidable (_ ≠ _))

/-- The area between two of its addresses, as `vma_resize` leaves it. -/
def resized (vma : Vma) (start stop : Nat) : Vma where
  vmStart := start
  vmEnd := stop
  vmFlags := vma.vmFlags
  shmem := vma.shmem
  shmemOff := if vma.Shared then vma.shmemOff + (start - vma.vmStart) else vma.shmemOff
  file := vma.file
  offset := if vma.file ≠ none then vma.offset + (start - vma.vmStart) else vma.offset

end Vma

/-- What an area holds a reference to. -/
inductive Ref where
  | file (file : Nat)
  | shmem (shmem : Nat)
  deriving DecidableEq

def inorder : BinaryTree Vma → List Vma
  | .nil => []
  | .node vma left right => inorder left ++ vma :: inorder right

/-- A red-black tree keeps the areas of the list in order, in a shape that depends
on the history. -/
structure Arrangement where
  tree : List Vma → BinaryTree Vma
  ordered : ∀ list, inorder (tree list) = list

/-- `struct mm_struct`, with its page table. -/
structure Mm where
  mmapList : List Vma
  mmapCache : Option Vma
  mmapTree : Bool
  mapCount : Int
  brkStart : Nat
  brk : Nat
  pte : Nat → Option Bool

/-- What address spaces share: reference counts, the lengths of the shared memory
objects and which of them are destroyed, the answers of `kmalloc` to come, and
the shape of search trees. -/
structure World where
  refs : Ref → Int
  shmemLen : Nat → Nat
  destroyed : Nat → Bool
  room : List Bool
  arrangement : Arrangement

structure Space where
  mm : Mm
  world : World

inductive VmFault where
  | assertion
  | nullPointer
  | endless
  deriving DecidableEq, Repr

abbrev VmRoutine := Routine VmFault Space

namespace Space

def setRef (space : Space) (ref : Ref) (count : Int) : Space :=
  { space with world := { space.world with refs := Function.update space.world.refs ref count } }

end Space

def kmalloc : VmRoutine Bool := do
  let space ← get
  set { space with world := { space.world with room := space.world.room.tail } }
  pure (space.world.room.headD false)

def vmaCreate (vmStart vmEnd : Nat) (vmFlags : BitVec 32) : VmRoutine (Option Vma) := do
  if ← kmalloc then pure (some ⟨vmStart, vmEnd, vmFlags, none, 0, none, 0⟩) else pure none

def vmaDestroy (vma : Vma) : VmRoutine PUnit := do
  if vma.Shared then
    match vma.shmem with
    | none => throw .nullPointer
    | some shmem =>
      modify fun space => space.setRef (.shmem shmem) (space.world.refs (.shmem shmem) - 1)
      let space ← get
      if space.world.refs (.shmem shmem) = 0 then
        set { space with world :=
          { space.world with destroyed := Function.update space.world.destroyed shmem true } }

def findVmaRb (addr : Nat) : BinaryTree Vma → Option Vma
  | .nil => none
  | .node tmp left right =>
    if tmp.vmEnd > addr then
      if tmp.vmStart ≤ addr then some tmp else findVmaRb addr left
    else findVmaRb addr right

/-- The search of `find_vma`, in the tree or in the list. -/
def Space.search (space : Space) (addr : Nat) : Option Vma :=
  if space.mm.mmapTree then findVmaRb addr (space.world.arrangement.tree space.mm.mmapList)
  else space.mm.mmapList.find? fun vma => decide (vma.Contains addr)

/-- The area that `find_vma` returns: the cached one or the one of the search. -/
def Space.lookup (space : Space) (addr : Nat) : Option Vma :=
  match space.mm.mmapCache with
  | some vma => if vma.Contains addr then some vma else space.search addr
  | none => space.search addr

def findVma (addr : Nat) : VmRoutine (Option Vma) := do
  let space ← get
  match space.lookup addr with
  | some vma =>
    set { space with mm := { space.mm with mmapCache := some vma } }
    pure (some vma)
  | none => pure none

def filemapAcquire (file : Nat) : VmRoutine PUnit :=
  modify fun space => space.setRef (.file file) (space.world.refs (.file file) + 1)

def filemapRelease (file : Nat) : VmRoutine PUnit := do
  let space ← get
  check (space.world.refs (.file file) > 0) .assertion
  set (space.setRef (.file file) (space.world.refs (.file file) - 1))

def vmaUnmapfile (vma : Vma) : VmRoutine PUnit :=
  match vma.file with
  | some file => filemapRelease file
  | none => pure PUnit.unit

def vmaCopymapfile (dest source : Vma) : VmRoutine Vma :=
  match source.file with
  | some file => do
    filemapAcquire file
    pure { dest with
      file := some file, offset := source.offset + (dest.vmStart - source.vmStart) }
  | none => pure { dest with file := none, offset := source.offset }

def ApartBefore (prev next : Vma) : Prop :=
  prev.vmStart < prev.vmEnd ∧ prev.vmEnd ≤ next.vmStart ∧ next.vmStart < next.vmEnd

instance (prev next : Vma) : Decidable (ApartBefore prev next) :=
  inferInstanceAs (Decidable (_ ∧ _ ∧ _))

/-- The areas before the place of a new one, by the list or by the tree: those
with an equal start come first. -/
def vmasBefore (vma : Vma) (list : List Vma) : List Vma :=
  list.takeWhile fun other => decide (other.vmStart ≤ vma.vmStart)

def vmasBehind (vma : Vma) (list : List Vma) : List Vma :=
  list.dropWhile fun other => decide (other.vmStart ≤ vma.vmStart)

/-- The start of a tree for a list that has grown long, if there is memory for the
tree and its two extra nodes. -/
def buildTree : VmRoutine PUnit := do
  let space ← get
  if space.mm.mmapTree = false ∧ space.mm.mapCount ≥ RB_MIN_MAP_COUNT then
    if ← kmalloc then
      if ← kmalloc then
        if ← kmalloc then
          modify fun space => { space with mm := { space.mm with mmapTree := true } }

def insertVmaStruct (vma : Vma) : VmRoutine PUnit := do
  check (vma.vmStart < vma.vmEnd) .assertion
  let space ← get
  let before := vmasBefore vma space.mm.mmapList
  let behind := vmasBehind vma space.mm.mmapList
  check (∀ prev ∈ before.getLast?, ApartBefore prev vma) .assertion
  check (∀ next ∈ behind.head?, ApartBefore vma next) .assertion
  set { space with mm := { space.mm with
    mmapList := before ++ vma :: behind, mapCount := space.mm.mapCount + 1 } }
  buildTree

def removeVmaStruct (vma : Vma) : VmRoutine PUnit :=
  modify fun space => { space with mm := { space.mm with
    mmapList := space.mm.mmapList.erase vma
    mmapCache := if space.mm.mmapCache = some vma then none else space.mm.mmapCache
    mapCount := space.mm.mapCount - 1 } }

def writeVma (vma written : Vma) : VmRoutine PUnit :=
  modify fun space => { space with mm := { space.mm with
    mmapList := space.mm.mmapList.map fun other => if other = vma then written else other
    mmapCache := if space.mm.mmapCache = some vma then some written else space.mm.mmapCache } }

def checkResize (vma : Vma) (start stop : Nat) : VmRoutine PUnit := do
  check (start % PGSIZE = 0 ∧ stop % PGSIZE = 0) .assertion
  check (vma.vmStart ≤ start ∧ start < stop ∧ stop ≤ vma.vmEnd) .assertion

def unmapRange (start stop : Nat) : VmRoutine PUnit := do
  check (start % PGSIZE = 0 ∧ stop % PGSIZE = 0) .assertion
  check (UserAccess start stop) .assertion
  modify fun space => { space with mm := { space.mm with
    pte := fun page =>
      if start ≤ page * PGSIZE ∧ page * PGSIZE < stop then none else space.mm.pte page } }

/-- `mm_map`, with the new area. -/
def mmMap (addr len : Nat) (vmFlags : BitVec 32) : VmRoutine (Int × Option Vma) := do
  let start := roundDown addr
  let stop := roundUp (word (addr + len))
  if ¬ UserAccess start stop then pure (-E_INVAL, none)
  else
    match ← findVma start with
    | some vma => if stop > vma.vmStart then pure (-E_INVAL, none) else mapArea start stop
    | none => mapArea start stop
where
  /-- The new area, once its first address is known to be free. -/
  mapArea (start stop : Nat) : VmRoutine (Int × Option Vma) := do
    match ← vmaCreate start stop (vmFlags &&& ~~~VM_SHARE) with
    | none => pure (-E_NO_MEM, none)
    | some vma =>
      insertVmaStruct vma
      pure (0, some vma)

/-- Remove the areas from the head of a part of the list on that start before
`stop`. -/
def takeVictims (stop : Nat) : List Vma → VmRoutine (List Vma)
  | [] => pure []
  | vma :: rest =>
    if vma.vmStart < stop then do
      removeVmaStruct vma
      let others ← takeVictims stop rest
      pure (vma :: others)
    else pure []

/-- Put back what is left of a removed area, or destroy it; `clear` is what happens
to the pages. -/
def freeVictim (clear : Nat → Nat → VmRoutine PUnit) (start stop : Nat) (vma : Vma) :
    VmRoutine PUnit := do
  if vma.vmStart < start then
    checkResize vma vma.vmStart start
    insertVmaStruct (vma.resized vma.vmStart start)
    clear start vma.vmEnd
  else if stop < vma.vmEnd then
    checkResize vma stop vma.vmEnd
    insertVmaStruct (vma.resized stop vma.vmEnd)
    clear vma.vmStart stop
  else
    vmaUnmapfile vma
    vmaDestroy vma
    clear vma.vmStart vma.vmEnd

/-- The second loop over the removed areas, the last one first. -/
def freeVictims (clear : Nat → Nat → VmRoutine PUnit) (start stop : Nat) :
    List Vma → VmRoutine PUnit
  | [] => pure PUnit.unit
  | vma :: rest => do
    freeVictim clear start stop vma
    freeVictims clear start stop rest

/-- Unmapping from the area on that contains the first address. -/
def unmapFrom (clear : Nat → Nat → VmRoutine PUnit) (start stop : Nat) (vma : Vma) :
    VmRoutine Int := do
  if stop ≤ vma.vmStart then pure 0
  else if vma.vmStart < start ∧ stop < vma.vmEnd then
    match ← vmaCreate vma.vmStart start vma.vmFlags with
    | none => pure (-E_NO_MEM)
    | some nvma =>
      let nvma ← vmaCopymapfile nvma vma
      checkResize vma stop vma.vmEnd
      writeVma vma (vma.resized stop vma.vmEnd)
      insertVmaStruct nvma
      clear start stop
      pure 0
  else
    let space ← get
    let victims ← takeVictims stop (space.mm.mmapList.dropWhile fun other => decide (other ≠ vma))
    freeVictims clear start stop victims.reverse
    pure 0

/-- The common text of `mm_unmap` and `mm_unmap_keep_pages`. -/
def unmapAreas (clear : Nat → Nat → VmRoutine PUnit) (addr len : Nat) : VmRoutine Int := do
  let start := roundDown addr
  let stop := roundUp (word (addr + len))
  if ¬ UserAccess start stop then pure (-E_INVAL)
  else
    match ← findVma start with
    | none => pure 0
    | some vma => unmapFrom clear start stop vma

def mmUnmap (addr len : Nat) : VmRoutine Int := unmapAreas unmapRange addr len

def mmUnmapKeepPages (addr len : Nat) : VmRoutine Int :=
  unmapAreas (fun _ _ => pure PUnit.unit) addr len

end Plus

end UcoreSmp
