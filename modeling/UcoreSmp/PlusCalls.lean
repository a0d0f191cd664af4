import UcoreSmp.PlusAreas

/-!
# System calls on an address space

`do_mmap`, `do_munmap`, `do_brk`, `do_shmem` and `do_mprotect` of `process/proc.c`
with the routines of `mm/vmm.c` they call.  The word that a call reads from user
memory is an argument; reading and writing it leaves the areas alone.
-/

namespace UcoreSmp

namespace Plus

def MMAP_WRITE : BitVec 32 := 0x100
def MMAP_STACK : BitVec 32 := 0x200
def PROT_WRITE : BitVec 32 := 2

def wordSub (a b : Nat) : Nat := word (a + 2 ^ 64 - b)

/-- A pointer to a word of user memory: null, refused by `copy_from_user`, or to a
word that is read. -/
inductive Stored where
  | null
  | unreadable
  | value (value : Nat)

def findVmaIntersection (start stop : Nat) : VmRoutine (Option Vma) := do
  match ← findVma start with
  | some vma => if stop ≤ vma.vmStart then pure none else pure (some vma)
  | none => pure none

/-- The loop of `get_unmapped_area` over the areas, the last one first. -/
def unmappedBelow (len start : Nat) : List Vma → Nat
  | [] => if start ≥ USERBASE then start else 0
  | vma :: rest =>
    if start ≥ vma.vmEnd then start
    else if start + len > vma.vmStart then
      if len ≥ vma.vmStart then 0 else unmappedBelow len (vma.vmStart - len) rest
    else unmappedBelow len start rest

def getUnmappedArea (mm : Mm) (len : Nat) : Nat :=
  if len = 0 ∨ len > USERTOP then 0 else unmappedBelow len (USERTOP - len) mm.mmapList.reverse

def mmBrk (addr len : Nat) : VmRoutine Int := do
  let start := roundDown addr
  let stop := roundUp (word (addr + len))
  if ¬ UserAccess start stop then pure (-E_INVAL)
  else
    let ret ← mmUnmap start (wordSub stop start)
    if ret ≠ 0 then pure ret
    else
      match ← findVma (start - 1) with
      | some vma =>
        if vma.vmEnd = start ∧ vma.vmFlags = VM_READ ||| VM_WRITE then
          writeVma vma { vma with vmEnd := stop }
          pure 0
        else newArea start stop
      | none => newArea start stop
where
  /-- A new area for the heap. -/
  newArea (start stop : Nat) : VmRoutine Int := do
    match ← vmaCreate start stop (VM_READ ||| VM_WRITE) with
    | none => pure (-E_NO_MEM)
    | some vma =>
      insertVmaStruct vma
      pure 0

/-- `shmem_create`, where `fresh` is the object that `kmalloc` gives. -/
def shmemCreate (fresh len : Nat) : VmRoutine (Option Nat) := do
  if ← kmalloc then
    modify fun space => { space.setRef (.shmem fresh) 0 with world :=
      { (space.setRef (.shmem fresh) 0).world with
        shmemLen := Function.update space.world.shmemLen fresh len
        destroyed := Function.update space.world.destroyed fresh false } }
    pure (some fresh)
  else pure none

def shmemRefAdd (shmem : Nat) (amount : Int) : VmRoutine PUnit :=
  modify fun space => space.setRef (.shmem shmem) (space.world.refs (.shmem shmem) + amount)

def mmMapShmem (addr : Nat) (vmFlags : BitVec 32) (shmem : Nat) : VmRoutine Int := do
  if addr % PGSIZE ≠ 0 then pure (-E_INVAL)
  else
    shmemRefAdd shmem 1
    let space ← get
    match ← mmMap addr (space.world.shmemLen shmem) vmFlags with
    | (ret, none) =>
      shmemRefAdd shmem (-1)
      pure ret
    | (_, some vma) =>
      writeVma vma { vma with
        shmem := some shmem, shmemOff := 0, vmFlags := vma.vmFlags ||| VM_SHARE }
      pure 0

def mmapVmFlags (mmapFlags : BitVec 32) : BitVec 32 :=
  VM_READ ||| (if mmapFlags &&& MMAP_WRITE ≠ 0 then VM_WRITE else 0) |||
    if mmapFlags &&& MMAP_STACK ≠ 0 then VM_STACK else 0

/-- The address and length of a new area: the requested ones, rounded, or for
address 0 those of a gap that the kernel looks for. -/
def placeArea (mm : Mm) (addr len : Nat) : Nat × Nat :=
  let start := roundDown (word addr)
  let len := wordSub (roundUp (word (addr + len))) start
  (if start = 0 then getUnmappedArea mm len else start, len)

def doMmap (addrStore : Stored) (len : Nat) (mmapFlags : BitVec 32) : VmRoutine Int :=
  match addrStore with
  | .null | .unreadable => pure (-E_INVAL)
  | .value addr => do
    if len = 0 then pure (-E_INVAL)
    else
      let space ← get
      let (addr, len) := placeArea space.mm addr len
      if addr = 0 then pure (-E_NO_MEM)
      else
        let (ret, _) ← mmMap addr len (mmapVmFlags mmapFlags)
        pure ret

def doShmem (fresh : Nat) (addrStore : Stored) (len : Nat) (mmapFlags : BitVec 32) :
    VmRoutine Int :=
  match addrStore with
  | .null | .unreadable => pure (-E_INVAL)
  | .value addr => do
    if len = 0 then pure (-E_INVAL)
    else
      let space ← get
      let (addr, len) := placeArea space.mm addr len
      if addr = 0 then pure (-E_NO_MEM)
      else
        match ← shmemCreate fresh len with
        | none => pure (-E_NO_MEM)
        | some shmem =>
          let ret ← mmMapShmem addr (mmapVmFlags mmapFlags) shmem
          if ret ≠ 0 then
            let space ← get
            check (space.world.refs (.shmem shmem) = 0) .assertion
            set { space with world := { space.world with
              destroyed := Function.update space.world.destroyed shmem true } }
          pure ret

def doMunmap (addr len : Nat) : VmRoutine Int :=
  if len = 0 then pure (-E_INVAL) else mmUnmap (word addr) len

def doBrk (brkStore : Stored) : VmRoutine Int := do
  let space ← get
  match brkStore with
  | .null => pure (BitVec.ofNat 32 space.mm.brkStart).toInt
  | .unreadable => pure (-E_INVAL)
  | .value brk =>
    let newbrk := roundUp (word brk)
    let oldbrk := space.mm.brk
    if word brk < space.mm.brkStart then pure 0
    else
      check (oldbrk % PGSIZE = 0) .assertion
      if newbrk = oldbrk then pure 0
      else
        let moved ← if newbrk < oldbrk then mmUnmap newbrk (oldbrk - newbrk)
          else grow oldbrk newbrk
        if moved = 0 then
          modify fun space => { space with mm := { space.mm with brk := newbrk } }
        pure 0
where
  /-- A heap that becomes larger. -/
  grow (oldbrk newbrk : Nat) : VmRoutine Int := do
    match ← findVmaIntersection oldbrk (word (newbrk + PGSIZE)) with
    | some _ => pure (-1)
    | none => mmBrk oldbrk (newbrk - oldbrk)

def protFlags (prot vmFlags : BitVec 32) : BitVec 32 :=
  if prot &&& PROT_WRITE ≠ 0 then vmFlags ||| VM_WRITE else vmFlags &&& ~~~VM_WRITE

def acquireFile : Option Nat → VmRoutine PUnit
  | some file => filemapAcquire file
  | none => pure PUnit.unit

/-- The part of the loop of `do_mprotect` for one area. -/
def protectArea (prot : BitVec 32) (start stop : Nat) (vma : Vma) : VmRoutine Int := do
  if vma.vmStart = start ∧ vma.vmEnd = stop then
    writeVma vma { vma with vmFlags := protFlags prot vma.vmFlags }
    pure 0
  else
    let thisEnd := if stop ≤ vma.vmEnd then stop else vma.vmEnd
    let thisStart := if start ≥ vma.vmStart then start else vma.vmStart
    let ret ← mmUnmapKeepPages thisStart (wordSub thisEnd thisStart)
    if ret ≠ 0 then pure ret
    else
      match ← mmMap thisStart (wordSub thisEnd thisStart) (protFlags prot vma.vmFlags) with
      | (ret, none) => pure ret
      | (_, some nvma) =>
        writeVma nvma { nvma with
          file := vma.file, offset := vma.offset + (thisStart - vma.vmStart) }
        acquireFile vma.file
        pure 0

/-- The loop of `do_mprotect`; `ret` is the result if no area is found. -/
def protectFrom (prot : BitVec 32) (stop : Nat) : Nat → Nat → Int → VmRoutine Int
  | 0, _, _ => throw .endless
  | fuel + 1, start, ret => do
    match ← findVma start with
    | none => pure ret
    | some vma =>
      let ret ← protectArea prot start stop vma
      if ret ≠ 0 ∨ stop ≤ vma.vmEnd then pure ret
      else protectFrom prot stop fuel vma.vmEnd 0

def doMprotect (addr len : Nat) (prot : BitVec 32) : VmRoutine Int :=
  if len = 0 then pure (-E_INVAL)
  else
    let start := roundDown (word addr)
    let stop := roundUp (word (addr + len))
    protectFrom prot stop (stop - start + 1) start (-E_INVAL)

end Plus

end UcoreSmp
