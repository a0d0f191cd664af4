import UcoreSmp.PageTables
import UcoreSmp.Vmm
import UcoreSmp.SfsDisk

/-!
# Loading a program

`load_icode` and `copy_kargv` of `kern/process/proc.c`, with `copy_string` of
`kern/mm/vmm.c`.  The program file is an input: its bytes, and the reads that the
file system refuses.  Arithmetic on addresses and sizes is that of 32-bit words.
`load_icode` writes to the pages of a segment through their frames, and to the
stack through user addresses, where a missing page is provided by `do_pgfault`.
-/

namespace UcoreSmp

namespace Exec

def ELF_MAGIC : Nat := 0x464C457F
def ELF_PT_LOAD : Nat := 1
def ELF_PF_X : Nat := 1
def ELF_PF_W : Nat := 2
def ELF_PF_R : Nat := 4
def EXEC_MAX_ARG_NUM : Nat := 32
def EXEC_MAX_ARG_LEN : Nat := 4095
def USTACKTOP : Nat := USERTOP
def USTACKSIZE : Nat := 256 * PGSIZE

inductive ExecFault where
  | mm (fault : MmFault)
  | badArgc
  /-- a write outside of the page frame that it is meant for -/
  | outsidePage
  /-- a write through `page` before it is assigned -/
  | pageUnset
  | bssEnd
  | stackPage
  /-- a page fault of the kernel that `do_pgfault` cannot handle -/
  | kernelPgfault
  /-- a string without its end in the buffer -/
  | stringEnd
  | loopBudget
  deriving DecidableEq

/-- A write that leaves the page frame that was just allocated, or a loop without an end. -/
def ExecFault.Astray : ExecFault → Prop
  | .outsidePage | .pageUnset | .loopBudget => True
  | _ => False

abbrev ExecCall := Call ExecFault MmState

def onMm {α : Type} (call : MmCall α) : ExecCall α :=
  within id (fun state _ => state) .mm call

def wordSub (a b : Nat) : Nat := word (a + 2 ^ 32 - b)

/-! ## The program file -/

/-- An open program file; `refuses` are the errors of the device. -/
structure ExecFile where
  size : Nat
  bytes : Bytes
  refuses : Nat → Nat → Option Int

/-- `load_icode_read`; a negative offset, and one beyond any file, is refused by
the seek. -/
def loadIcodeRead (file : ExecFile) (len offset : Nat) : ExecCall PUnit :=
  if SFS_MAX_FILE_SIZE ≤ offset then throw (-E_INVAL)
  else
    match file.refuses offset len with
    | some code => throw code
    | none => if offset + len ≤ file.size then pure () else throw (-1)

structure Elfhdr where
  eMagic : Nat
  eEntry : Nat
  ePhoff : Nat
  ePhnum : Nat

def sizeofElfhdr : Nat := 52

def ExecFile.elfhdr (file : ExecFile) : Elfhdr where
  eMagic := leNat 4 file.bytes 0
  eEntry := leNat 4 file.bytes 24
  ePhoff := leNat 4 file.bytes 28
  ePhnum := leNat 2 file.bytes 44

structure Proghdr where
  pType : Nat
  pOffset : Nat
  pVa : Nat
  pFilesz : Nat
  pMemsz : Nat
  pFlags : Nat

def sizeofProghdr : Nat := 32

def ExecFile.proghdr (file : ExecFile) (offset : Nat) : Proghdr where
  pType := leNat 4 file.bytes offset
  pOffset := leNat 4 file.bytes (offset + 4)
  pVa := leNat 4 file.bytes (offset + 8)
  pFilesz := leNat 4 file.bytes (offset + 16)
  pMemsz := leNat 4 file.bytes (offset + 20)
  pFlags := leNat 4 file.bytes (offset + 24)

def Elfhdr.phoff (elf : Elfhdr) (phnum : Nat) : Nat :=
  word (elf.ePhoff + sizeofProghdr * phnum)

/-! ## The segments -/

def Proghdr.vmFlags (ph : Proghdr) : Nat :=
  (if ph.pFlags &&& ELF_PF_X ≠ 0 then VM_EXEC else 0) |||
    (if ph.pFlags &&& ELF_PF_W ≠ 0 then VM_WRITE else 0) |||
    (if ph.pFlags &&& ELF_PF_R ≠ 0 then VM_READ else 0)

def Proghdr.perm (ph : Proghdr) : Nat :=
  if ph.vmFlags &&& VM_WRITE ≠ 0 then PTE_U ||| PTE_W else PTE_U

def writeFrame (page off size : Nat) (source : Bytes) (start : Nat) : ExecCall PUnit := do
  if off + size ≤ PGSIZE then
    modify fun state =>
      state.setPhys (state.phys.setMem page ((state.phys.mem page).blit off source start size))
  else panicWith .outsidePage

def readFrame (file : ExecFile) (page off size offset : Nat) : ExecCall PUnit := do
  if off + size ≤ PGSIZE then do
    loadIcodeRead file size offset
    writeFrame page off size file.bytes offset
  else panicWith .outsidePage

/-- `pgdir_alloc_page`, or the error of the loops of `load_icode`. -/
def segmentPage (pgdir la perm : Nat) : ExecCall Nat := do
  match ← onMm (onPhys (pgdirAllocPage pgdir la perm)) with
  | some page => pure page
  | none => throw (-E_NO_MEM)

def partSize (off la last : Nat) : Nat :=
  if last < la then wordSub (wordSub PGSIZE off) (wordSub la last) else wordSub PGSIZE off

/-- The variables of the loops: the next address, the next page, and the page
frame of the last one. -/
structure Cursor where
  start : Nat
  la : Nat
  page : Option Nat

/-- The loop that reads the segment from the file. -/
def copyLoop (file : ExecFile) (pgdir perm last : Nat) : Nat → Nat → Cursor → ExecCall Cursor
  | 0, _, _ => panicWith .loopBudget
  | fuel + 1, offset, cursor =>
    if cursor.start < last then do
      let page ← segmentPage pgdir cursor.la perm
      let off := wordSub cursor.start cursor.la
      let la := word (cursor.la + PGSIZE)
      let size := partSize off la last
      readFrame file page off size offset
      copyLoop file pgdir perm last fuel (word (offset + size))
        ⟨word (cursor.start + size), la, some page⟩
    else pure cursor

/-- The part of the last page of the file that belongs to the BSS. -/
def clearTail (last : Nat) (cursor : Cursor) : ExecCall Cursor := do
  let off := wordSub (cursor.start + PGSIZE) cursor.la
  let size := partSize off cursor.la last
  match cursor.page with
  | none => panicWith .pageUnset
  | some page => do
    writeFrame page off size (fun _ => 0) 0
    let start := word (cursor.start + size)
    ensure ((last < cursor.la ∧ start = last) ∨ (cursor.la ≤ last ∧ start = cursor.la)) .bssEnd
    pure { cursor with start := start }

/-- The loop that clears the other pages of the BSS. -/
def clearLoop (pgdir perm last : Nat) : Nat → Cursor → ExecCall PUnit
  | 0, _ => panicWith .loopBudget
  | fuel + 1, cursor =>
    if cursor.start < last then do
      let page ← segmentPage pgdir cursor.la perm
      let off := wordSub cursor.start cursor.la
      let la := word (cursor.la + PGSIZE)
      let size := partSize off la last
      writeFrame page off size (fun _ => 0) 0
      clearLoop pgdir perm last fuel ⟨word (cursor.start + size), la, some page⟩
    else pure ()

/-- The pages of a 32-bit address space bound the loops. -/
def pageBudget : Nat := 2 ^ 20 + 1

/-- The BSS of a segment. -/
def clearBss (pgdir perm last : Nat) (cursor : Cursor) : ExecCall PUnit := do
  if cursor.start < cursor.la then
    -- `ph->p_memsz == ph->p_filesz`
    if cursor.start = last then pure ()
    else do
      let cursor ← clearTail last cursor
      clearLoop pgdir perm last pageBudget cursor
  else clearLoop pgdir perm last pageBudget cursor

/-- A segment that is loaded, after its checks. -/
def loadSegment (file : ExecFile) (mm pgdir : Nat) (ph : Proghdr) : ExecCall PUnit := do
  onMm (mmMap mm ph.pVa ph.pMemsz ph.vmFlags)
  let cursor ← copyLoop file pgdir ph.perm (word (ph.pVa + ph.pFilesz)) pageBudget ph.pOffset
    ⟨ph.pVa, rounddown ph.pVa PGSIZE, none⟩
  clearBss pgdir ph.perm (word (ph.pVa + ph.pMemsz)) cursor

/-- The body of the loop over the program headers. -/
def loadProghdr (file : ExecFile) (mm pgdir : Nat) (ph : Proghdr) : ExecCall PUnit :=
  if ph.pType ≠ ELF_PT_LOAD then pure ()
  else if ph.pMemsz < ph.pFilesz then throw (-E_INVAL_ELF)
  else if ph.pFilesz = 0 then pure ()
  else loadSegment file mm pgdir ph

/-- The loop over the program headers, from `phnum` on. -/
def loadProghdrs (file : ExecFile) (mm pgdir : Nat) : Nat → Nat → ExecCall PUnit
  | 0, _ => pure ()
  | left + 1, phnum => do
    let offset := file.elfhdr.phoff phnum
    loadIcodeRead file sizeofProghdr offset
    loadProghdr file mm pgdir (file.proghdr offset)
    loadProghdrs file mm pgdir left (phnum + 1)

/-! ## The stack -/

def writable (state : MmState) (pgdir addr : Nat) : Option Nat :=
  if state.phys.pte pgdir (pageNumber addr) &&& PTE_W = 0 then none
  else state.phys.mapped pgdir (pageNumber addr)

def writeError (state : MmState) (pgdir addr : Nat) : Nat :=
  if state.phys.mapped pgdir (pageNumber addr) = none then 2 else 3

def poke (state : MmState) (frame place : Nat) (byte : UInt8) : MmState :=
  state.setPhys (state.phys.setMem frame (Function.update (state.phys.mem frame) place byte))

/-- The kernel writes a byte to a user address of the current process.  A page
fault is handled by `do_pgfault`, and the write is tried again. -/
def storeByte (mm pgdir addr : Nat) (byte : UInt8) : ExecCall PUnit := do
  let state ← get
  match writable state pgdir addr with
  | some frame => set (poke state frame (addr % PGSIZE) byte)
  | none => do
    match ← attempt (onMm (doPgfault mm (writeError state pgdir addr) addr)) with
    | .error _ => panicWith .kernelPgfault
    | .ok _ => do
      let state ← get
      match writable state pgdir addr with
      | some frame => set (poke state frame (addr % PGSIZE) byte)
      | none => panicWith .kernelPgfault

def storeWord (mm pgdir addr value : Nat) : ExecCall PUnit := do
  storeByte mm pgdir addr (leBytes value 0)
  storeByte mm pgdir (addr + 1) (leBytes value 1)
  storeByte mm pgdir (addr + 2) (leBytes value 2)
  storeByte mm pgdir (addr + 3) (leBytes value 3)

/-- The loop of `strnlen`, with the number of bytes that are left. -/
def strnlenLoop (string : Bytes) : Nat → Nat → Nat
  | 0, cnt => cnt
  | left + 1, cnt => if string cnt ≠ 0 then strnlenLoop string left (cnt + 1) else cnt

def strnlen (string : Bytes) (len : Nat) : Nat := strnlenLoop string len 0

def argBudget : Nat := EXEC_MAX_ARG_LEN + 1

/-- `strcpy` from a buffer of the kernel to a user address. -/
def strcpy (mm pgdir dst : Nat) (src : Bytes) : Nat → Nat → ExecCall PUnit
  | 0, _ => panicWith .stringEnd
  | fuel + 1, i => do
    storeByte mm pgdir (word (dst + i)) (src i)
    if src i ≠ 0 then strcpy mm pgdir dst src fuel (i + 1) else pure ()

def argSize (arg : Bytes) : Nat := strnlen arg (EXEC_MAX_ARG_LEN + 1) + 1

def argvSize (kargv : List Bytes) : Nat :=
  kargv.foldl (fun size arg => word (size + argSize arg)) 0

/-- The second loop over the arguments, from the `i`-th on. -/
def pushArgs (mm pgdir stacktop uargv : Nat) : List Bytes → Nat → Nat → ExecCall PUnit
  | [], _, _ => pure ()
  | arg :: rest, i, argvSize => do
    let dst := word (stacktop + argvSize)
    strcpy mm pgdir dst arg argBudget 0
    storeWord mm pgdir (word (uargv + 4 * i)) dst
    pushArgs mm pgdir stacktop uargv rest (i + 1) (word (argvSize + argSize arg))

def stringsBase (kargv : List Bytes) : Nat :=
  wordSub USTACKTOP ((argvSize kargv / 4 + 1) * 4)

def uargvBase (kargv : List Bytes) : Nat := wordSub (stringsBase kargv) (kargv.length * 4)

def stackPointer (kargv : List Bytes) : Nat := wordSub (uargvBase kargv) 4

def pushArgv (mm pgdir : Nat) (kargv : List Bytes) : ExecCall PUnit := do
  pushArgs mm pgdir (stringsBase kargv) (uargvBase kargv) kargv 0 0
  storeWord mm pgdir (stackPointer kargv) kargv.length

/-- `assert(pgdir_alloc_page(..) != NULL)` for the pages at the top of the stack. -/
def stackPages (pgdir : Nat) : Nat → ExecCall PUnit
  | 0 => pure ()
  | pages + 1 => do
    stackPages pgdir pages
    match ← onMm (onPhys (pgdirAllocPage pgdir (USTACKTOP - (pages + 1) * PGSIZE) PTE_USER)) with
    | some _ => pure ()
    | none => panicWith .stackPage

/-- What a new program starts with: its address space, `tf_esp` and `tf_eip`. -/
structure Program where
  mm : Nat
  tfEsp : Nat
  tfEip : Nat

/-- The calls that end an address space, where `exit_mmap` is not needed yet. -/
def discardSpace (mm : Nat) : MmCall PUnit := do
  putPgdir mm
  mmDestroy mm

def mapStack (mm : Nat) : ExecCall PUnit :=
  onMm (mmMap mm (USTACKTOP - USTACKSIZE) USTACKSIZE (VM_READ ||| VM_WRITE ||| VM_STACK))

/-- The part of `load_icode` that makes the areas and fills the segments. -/
def loadImage (file : ExecFile) (mm pgdir : Nat) : ExecCall PUnit := do
  loadProghdrs file mm pgdir file.elfhdr.ePhnum 0
  mapStack mm

/-- The part of `load_icode` that fills the stack; the result is `stacktop`. -/
def buildStack (mm pgdir : Nat) (kargv : List Bytes) : ExecCall Nat := do
  stackPages pgdir 4
  modify fun state => state.addCount mm 1
  pushArgv mm pgdir kargv
  pure (stackPointer kargv)

def loadIcode (file : ExecFile) (kargv : List Bytes) : ExecCall Program := do
  if EXEC_MAX_ARG_NUM < kargv.length then panicWith .badArgc
  else do
    let mm ← onMm newSpace
    let pgdir ← onMm (pgdirOf mm)
    match ← attempt (loadIcodeRead file sizeofElfhdr 0) with
    | .error code => do
      onMm (discardSpace mm)
      throw code
    | .ok _ =>
      if file.elfhdr.eMagic ≠ ELF_MAGIC then do
        onMm (discardSpace mm)
        throw (-E_INVAL_ELF)
      else do
        match ← attempt (loadImage file mm pgdir) with
        | .error code => do
          onMm (destroySpace mm)
          throw code
        | .ok _ => do
          let stacktop ← buildStack mm pgdir kargv
          pure ⟨mm, stacktop, file.elfhdr.eEntry⟩

/-! ## The arguments -/

/-- What a process passes to `exec`: the bytes of its memory, and the ranges that
`user_mem_check` accepts for reading. -/
structure UserSource where
  bytes : Bytes
  readable : Nat → Nat → Bool

/-- The loop of `copy_string`: `part` bytes are looked at next. -/
def copyStringLoop (user : UserSource) : Nat → Bytes → Nat → Nat → Nat → Nat → Option Bytes
  | 0, _, _, _, _, _ => none
  | fuel + 1, buffer, dst, src, maxn, part =>
    let part := min part maxn
    if user.readable src part then
      let alen := strnlen (fun i => user.bytes (word (src + i))) part
      if alen < part then
        some (buffer.blit dst (fun i => user.bytes (word (src + i))) 0 (alen + 1))
      else if part = maxn then none
      else copyStringLoop user fuel
        (buffer.blit dst (fun i => user.bytes (word (src + i))) 0 part) (dst + part)
        (word (src + part)) (maxn - part) PGSIZE
    else none

/-- `copy_string` into a buffer; the result is `none` where it returns 0. -/
def copyString (user : UserSource) (buffer : Bytes) (src maxn : Nat) : Option Bytes :=
  copyStringLoop user (maxn + 1) buffer 0 src maxn
    (wordSub (rounddown (word (src + PGSIZE)) PGSIZE) src)

def UserSource.argv (user : UserSource) (argv i : Nat) : Nat :=
  leNat 4 (fun j => user.bytes (word (argv + 4 * i + j))) 0

/-- The loop of `copy_kargv` from the `i`-th argument on, with the answers of
`kmalloc`: a buffer with its former content, or none. -/
def copyArgs (user : UserSource) (argv : Nat) : List (Option Bytes) → Nat → Except Int (List Bytes)
  | [], _ => .ok []
  | none :: _, _ => .error (-E_NO_MEM)
  | some buffer :: rest, i =>
    match copyString user buffer (user.argv argv i) (EXEC_MAX_ARG_LEN + 1) with
    | none => .error (-E_INVAL)
    | some arg =>
      match copyArgs user argv rest (i + 1) with
      | .error code => .error code
      | .ok kargv => .ok (arg :: kargv)

/-- `copy_kargv`, of as many arguments as there are answers of `kmalloc`. -/
def copyKargv (user : UserSource) (argv : Nat) (buffers : List (Option Bytes)) :
    Except Int (List Bytes) :=
  if user.readable argv (4 * buffers.length) then copyArgs user argv buffers 0
  else .error (-E_INVAL)

end Exec

end UcoreSmp
