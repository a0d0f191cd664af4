import Mathlib.Logic.Function.Basic
import UcoreSmp.ErrorCodes
import UcoreSmp.KernelTriple

/-!
# Descriptor tables and inode counters

`kern/fs/file.c`, `kern/fs/fs.c`, and the counters of `kern/fs/vfs/inode.c`.  A
`struct files_struct` and a `struct inode` are named by numbers; the functions
that the source calls on `current->filesp` take the table as an argument.

Calls that sleep inside the file system are cut where they sleep: `file_open`
around `vfs_open`, and `file_read`, `file_write`, `file_seek` and `file_fstat`
around the operation on the inode.
-/

namespace UcoreSmp

open Function

/-- `FILES_STRUCT_NENTRY`: the `struct file`s of 28 bytes that fit behind a
`struct files_struct` of 24 bytes in one page. -/
def FILES_STRUCT_NENTRY : Nat := (4096 - 24) / 28

def NO_FD : Int := -0x9527

inductive FdStatus where
  | none
  | init
  | opened
  | closed
  deriving DecidableEq

structure File where
  status : FdStatus
  readable : Bool
  writable : Bool
  fd : Nat
  pos : Int
  node : Option Nat
  openCount : Int

/-- `struct files_struct`, without its unused semaphore. -/
structure FilesStruct where
  pwd : Option Nat
  fdArray : Nat → File
  filesCount : Int

structure InodeCounts where
  refCount : Int
  openCount : Int

/-- All descriptor tables and inode counters, and how often `vop_close` ran on
each inode. -/
structure FileState where
  files : Nat → FilesStruct
  inodes : Nat → InodeCounts
  vopCloses : Nat → Nat

/-- The assertions of the modelled functions.  `missingOp` is the assertion of
`__vop_op` on an operation that the inode does not have, `nullNode` a null
inode pointer. -/
inductive FileFault where
  | noFiles
  | allocCount
  | freeStatus
  | freeCount
  | acquireStatus
  | releaseStatus
  | releaseCount
  | openStatus
  | closeStatus
  | closeCount
  | dupStatus
  | inodeOpenCount
  | inodeRefCount
  | destroyFiles
  | destroyStatus
  | closeallFiles
  | dupFiles
  | nullNode
  | missingOp
  deriving DecidableEq

abbrev FileM := Routine FileFault FileState

namespace FileState

def file (state : FileState) (table fd : Nat) : File :=
  (state.files table).fdArray fd

def setFile (state : FileState) (table fd : Nat) (file : File) : FileState :=
  { state with
    files := update state.files table { state.files table with
        fdArray := update (state.files table).fdArray fd file } }

def setInode (state : FileState) (node : Nat) (counts : InodeCounts) : FileState :=
  { state with inodes := update state.inodes node counts }

def addVopClose (state : FileState) (node : Nat) : FileState :=
  { state with
    vopCloses := update state.vopCloses node (state.vopCloses node + 1) }

def setFilesCount (state : FileState) (table : Nat) (count : Int) : FileState :=
  { state with
    files := update state.files table { state.files table with filesCount := count } }

def setPwd (state : FileState) (table : Nat) (pwd : Option Nat) : FileState :=
  { state with
    files := update state.files table { state.files table with pwd := pwd } }

end FileState

def inodeRefInc (node : Nat) : FileM PUnit :=
  modify fun state => state.setInode node
    { state.inodes node with refCount := (state.inodes node).refCount + 1 }

/-- `inode_ref_dec`; `vop_reclaim` does not touch the counters modelled here. -/
def inodeRefDec (node : Nat) : FileM PUnit := do
  let state ← get
  check (0 < (state.inodes node).refCount) .inodeRefCount
  set (state.setInode node { state.inodes node with refCount := (state.inodes node).refCount - 1 })

def inodeRefIncOpt : Option Nat → FileM PUnit
  | none => pure PUnit.unit
  | some node => inodeRefInc node

def inodeRefDecOpt : Option Nat → FileM PUnit
  | none => pure PUnit.unit
  | some node => inodeRefDec node

def inodeOpenInc (node : Nat) : FileM PUnit :=
  modify fun state => state.setInode node
    { state.inodes node with openCount := (state.inodes node).openCount + 1 }

def inodeOpenDec (node : Nat) : FileM PUnit := do
  let state ← get
  check (0 < (state.inodes node).openCount) .inodeOpenCount
  set (state.setInode node
    { state.inodes node with openCount := (state.inodes node).openCount - 1 })
  if (state.inodes node).openCount - 1 = 0 then
    modify fun state => state.addVopClose node
  else pure PUnit.unit

def vfsClose (node : Nat) : FileM PUnit := do
  inodeOpenDec node
  inodeRefDec node

def getFdArray (table : Nat) : FileM PUnit := do
  let state ← get
  check (0 < (state.files table).filesCount) .noFiles

def testfd (fd : Int) : Bool := 0 ≤ fd ∧ fd < FILES_STRUCT_NENTRY

/-- The loop of `fd_array_alloc` from slot `fd` on. -/
def findFdNone (fdArray : Nat → File) (fd : Nat) : Nat → Option Nat
  | 0 => none
  | count + 1 =>
    if (fdArray fd).status = .none then some fd
    else findFdNone fdArray (fd + 1) count

/-- The `found` label of `fd_array_alloc`. -/
def fdArrayFound (table fd : Nat) : FileM PUnit := do
  let state ← get
  check ((state.file table fd).openCount = 0) .allocCount
  set (state.setFile table fd { state.file table fd with status := .init, node := none })

def fdArrayAlloc (table : Nat) (fd : Int) : FileM (Except Int Nat) := do
  getFdArray table
  let state ← get
  if fd = NO_FD then
    match findFdNone (state.files table).fdArray 0 FILES_STRUCT_NENTRY with
    | none => pure (.error (-E_MAX_OPEN))
    | some fd => do
      fdArrayFound table fd
      pure (.ok fd)
  else if testfd fd then
    if (state.file table fd.toNat).status = .none then do
      fdArrayFound table fd.toNat
      pure (.ok fd.toNat)
    else pure (.error (-E_BUSY))
  else pure (.error (-E_INVAL))

def fdArrayFree (table fd : Nat) : FileM PUnit := do
  let state ← get
  let file := state.file table fd
  check (file.status = .init ∨ file.status = .closed) .freeStatus
  check (file.openCount = 0) .freeCount
  if file.status = .closed then
    match file.node with
    | none => throw .nullNode
    | some node => vfsClose node
  else pure PUnit.unit
  modify fun state => state.setFile table fd { state.file table fd with status := .none }

def fdArrayAcquire (table fd : Nat) : FileM PUnit := do
  let state ← get
  let file := state.file table fd
  check (file.status = .opened) .acquireStatus
  set (state.setFile table fd { file with openCount := file.openCount + 1 })

def fdArrayRelease (table fd : Nat) : FileM PUnit := do
  let state ← get
  let file := state.file table fd
  check (file.status = .opened ∨ file.status = .closed) .releaseStatus
  check (0 < file.openCount) .releaseCount
  set (state.setFile table fd { file with openCount := file.openCount - 1 })
  if file.openCount - 1 = 0 then fdArrayFree table fd
  else pure PUnit.unit

def fdArrayOpen (table fd : Nat) : FileM PUnit := do
  let state ← get
  let file := state.file table fd
  check (file.status = .init ∧ file.node ≠ none) .openStatus
  set (state.setFile table fd { file with status := .opened, openCount := file.openCount + 1 })

def fdArrayClose (table fd : Nat) : FileM PUnit := do
  let state ← get
  let file := state.file table fd
  check (file.status = .opened) .closeStatus
  check (0 < file.openCount) .closeCount
  set (state.setFile table fd { file with status := .closed, openCount := file.openCount - 1 })
  if file.openCount - 1 = 0 then fdArrayFree table fd
  else pure PUnit.unit

/-- `fd_array_dup` into slot `fd` of a table, from a slot of the same or another
table. -/
def fdArrayDup (table fd fromTable fromFd : Nat) : FileM PUnit := do
  let state ← get
  let target := state.file table fd
  let source := state.file fromTable fromFd
  check (target.status = .init ∧ source.status = .opened) .dupStatus
  match source.node with
  | none => throw .nullNode
  | some node => do
    inodeRefInc node
    inodeOpenInc node
    modify fun state => state.setFile table fd { target with
        pos := source.pos, readable := source.readable,
        writable := source.writable, node := some node }
    fdArrayOpen table fd

def fd2file (table : Nat) (fd : Int) : FileM (Option Nat) := do
  if testfd fd then do
    getFdArray table
    let state ← get
    let file := state.file table fd.toNat
    if file.status = .opened ∧ (file.fd : Int) = fd then pure (some fd.toNat)
    else pure none
  else pure none

def O_ACCMODE : BitVec 32 := 3
def O_RDONLY : BitVec 32 := 0
def O_WRONLY : BitVec 32 := 1
def O_RDWR : BitVec 32 := 2
def O_CREAT : BitVec 32 := 4
def O_EXCL : BitVec 32 := 8
def O_TRUNC : BitVec 32 := 16
def O_APPEND : BitVec 32 := 32

def hasFlag (openFlags flag : BitVec 32) : Bool := openFlags &&& flag ≠ 0

/-- What the file system below answers to one `file_open`: the result of
`vfs_lookup` and of `vfs_lookup_parent`, of `vop_open`, of `vop_truncate` if the
inode has that operation, and of `vop_fstat`. -/
structure OpenAnswers where
  lookup : Except Int Nat
  lookupParent : Int
  vopOpen : Int
  vopTruncate : Option Int
  vopFstat : Except Int Int

/-- The tail of `vfs_open`, from `vop_open` on. -/
def vfsOpenNode (openFlags : BitVec 32) (answers : OpenAnswers) (node : Nat) :
    FileM (Except Int Nat) := do
  if answers.vopOpen ≠ 0 then do
    inodeRefDec node
    pure (.error answers.vopOpen)
  else do
    inodeOpenInc node
    if hasFlag openFlags O_TRUNC ∨ hasFlag openFlags O_CREAT then
      match answers.vopTruncate with
      | none => throw .missingOp
      | some ret =>
        if ret ≠ 0 then do
          inodeOpenDec node
          inodeRefDec node
          pure (.error ret)
        else pure (.ok node)
    else pure (.ok node)

/-- `vfs_open`.  `vfs_lookup` returns its inode with a reference.  No inode has
a `vop_create`. -/
def vfsOpen (openFlags : BitVec 32) (answers : OpenAnswers) : FileM (Except Int Nat) := do
  let accMode := openFlags &&& O_ACCMODE
  if accMode ≠ O_RDONLY ∧ accMode ≠ O_WRONLY ∧ accMode ≠ O_RDWR then
    pure (.error (-E_INVAL))
  else if hasFlag openFlags O_TRUNC ∧ accMode = O_RDONLY then
    pure (.error (-E_INVAL))
  else
    match answers.lookup with
    | .error ret =>
      if ret = -E_NOENT ∧ hasFlag openFlags O_CREAT then
        if answers.lookupParent ≠ 0 then pure (.error answers.lookupParent)
        else throw .missingOp
      else pure (.error ret)
    | .ok node => do
      inodeRefInc node
      if hasFlag openFlags O_EXCL ∧ hasFlag openFlags O_CREAT then
        pure (.error (-E_EXISTS))
      else vfsOpenNode openFlags answers node

/-- `file_open` up to its call of `vfs_open`: the slot it allocated. -/
def fileOpenBegin (table : Nat) (openFlags : BitVec 32) : FileM (Except Int Nat) := do
  let accMode := openFlags &&& O_ACCMODE
  if accMode ≠ O_RDONLY ∧ accMode ≠ O_WRONLY ∧ accMode ≠ O_RDWR then
    pure (.error (-E_INVAL))
  else fdArrayAlloc table NO_FD

/-- The end of `file_open`: the slot gets its inode. -/
def fileOpenSlot (table fd : Nat) (openFlags : BitVec 32) (pos : Int) (node : Nat) :
    FileM (Except Int Nat) := do
  let accMode := openFlags &&& O_ACCMODE
  modify fun state => state.setFile table fd { state.file table fd with
      pos := pos, node := some node,
      readable := accMode = O_RDONLY ∨ accMode = O_RDWR,
      writable := accMode = O_WRONLY ∨ accMode = O_RDWR }
  fdArrayOpen table fd
  let state ← get
  pure (.ok (state.file table fd).fd)

/-- `file_open` from its call of `vfs_open` on. -/
def fileOpenEnd (table fd : Nat) (openFlags : BitVec 32) (answers : OpenAnswers) :
    FileM (Except Int Nat) := do
  let opened ← vfsOpen openFlags answers
  match opened with
  | .error ret => do
    fdArrayFree table fd
    pure (.error ret)
  | .ok node =>
    if hasFlag openFlags O_APPEND then
      match answers.vopFstat with
      | .error ret => do
        vfsClose node
        fdArrayFree table fd
        pure (.error ret)
      | .ok size => fileOpenSlot table fd openFlags size node
    else fileOpenSlot table fd openFlags 0 node

def fileClose (table : Nat) (fd : Int) : FileM Int := do
  match ← fd2file table fd with
  | none => pure (-E_INVAL)
  | some slot => do
    fdArrayClose table slot
    pure 0

inductive SlotOp where
  | read
  | write
  | seek
  | fstat
  deriving DecidableEq

/-- `file_read`, `file_write`, `file_seek` and `file_fstat` up to the call of
the inode's operation: the slot they hold. -/
def fileHold (op : SlotOp) (table : Nat) (fd : Int) : FileM (Except Int Nat) := do
  match ← fd2file table fd with
  | none => pure (.error (-E_INVAL))
  | some slot => do
    let state ← get
    let file := state.file table slot
    if (op = .read ∧ ¬ file.readable) ∨ (op = .write ∧ ¬ file.writable) then
      pure (.error (-E_INVAL))
    else do
      fdArrayAcquire table slot
      pure (.ok slot)

/-- The same functions from the return of the inode's operation on.  `amount`
is what was copied, or the position a successful seek asked for. -/
def fileUnhold (op : SlotOp) (table slot : Nat) (ret amount : Int) : FileM Int := do
  let state ← get
  let file := state.file table slot
  match op with
  | .read | .write =>
    if file.status = .opened then
      set (state.setFile table slot { file with pos := file.pos + amount })
    else pure PUnit.unit
  | .seek =>
    if ret = 0 then set (state.setFile table slot { file with pos := amount })
    else pure PUnit.unit
  | .fstat => pure PUnit.unit
  fdArrayRelease table slot
  pure ret

def fileDup (table : Nat) (fd1 fd2 : Int) : FileM (Except Int Nat) := do
  match ← fd2file table fd1 with
  | none => pure (.error (-E_INVAL))
  | some slot1 =>
    match ← fdArrayAlloc table fd2 with
    | .error ret => pure (.error ret)
    | .ok slot2 => do
      fdArrayDup table slot2 table slot1
      let state ← get
      pure (.ok (state.file table slot2).fd)

def filesCreate (table : Nat) : FileM PUnit :=
  modify fun state =>
    { state with
      files := update state.files table
        { pwd := none
          fdArray := fun fd =>
            { (state.files table).fdArray fd with
              openCount := 0, status := .none, fd := fd }
          filesCount := 0 } }

/-- Close a slot that is open, as the loops of `files_destroy` and
`files_closeall` do. -/
def closeIfOpened (table fd : Nat) : FileM PUnit := do
  let state ← get
  if (state.file table fd).status = .opened then fdArrayClose table fd
  else pure PUnit.unit

/-- The loop of `files_destroy` over the slots from `fd` on. -/
def destroyFds (table fd : Nat) : Nat → FileM PUnit
  | 0 => pure PUnit.unit
  | count + 1 => do
    closeIfOpened table fd
    let state ← get
    check ((state.file table fd).status = .none) .destroyStatus
    destroyFds table (fd + 1) count

def filesDestroy (table : Nat) : FileM PUnit := do
  let state ← get
  check ((state.files table).filesCount = 0) .destroyFiles
  inodeRefDecOpt (state.files table).pwd
  destroyFds table 0 FILES_STRUCT_NENTRY

/-- The loop of `files_closeall` over the slots from `fd` on. -/
def closeFds (table fd : Nat) : Nat → FileM PUnit
  | 0 => pure PUnit.unit
  | count + 1 => do
    closeIfOpened table fd
    closeFds table (fd + 1) count

/-- `files_closeall`, which spares standard input and output. -/
def filesCloseall (table : Nat) : FileM PUnit := do
  let state ← get
  check (0 < (state.files table).filesCount) .closeallFiles
  closeFds table 2 (FILES_STRUCT_NENTRY - 2)

/-- Copy a slot that is open, as the loop of `dup_fs` does. -/
def dupIfOpened (target source fd : Nat) : FileM PUnit := do
  let state ← get
  if (state.file source fd).status = .opened then do
    modify fun state => state.setFile target fd { state.file target fd with status := .init }
    fdArrayDup target fd source fd
  else pure PUnit.unit

/-- The loop of `dup_fs` over the slots from `fd` on. -/
def dupFds (target source fd : Nat) : Nat → FileM PUnit
  | 0 => pure PUnit.unit
  | count + 1 => do
    dupIfOpened target source fd
    dupFds target source (fd + 1) count

def dupFs (target source : Nat) : FileM PUnit := do
  let state ← get
  check ((state.files target).filesCount = 0 ∧ 0 < (state.files source).filesCount)
    FileFault.dupFiles
  set (state.setPwd target (state.files source).pwd)
  inodeRefIncOpt (state.files source).pwd
  dupFds target source 0 FILES_STRUCT_NENTRY

/-- `copy_fs` of `do_fork`: `shares` is `CLONE_FS`, `fresh` what `kmalloc`
returned.  The result is the child's table. -/
def copyFs (parent : Nat) (shares : Bool) (fresh : Option Nat) : FileM (Option Nat) := do
  if shares then do
    modify fun state => state.setFilesCount parent ((state.files parent).filesCount + 1)
    pure (some parent)
  else
    match fresh with
    | none => pure none
    | some table => do
      filesCreate table
      dupFs table parent
      modify fun state => state.setFilesCount table ((state.files table).filesCount + 1)
      pure (some table)

/-- `put_fs` of an exiting process; the result says whether the table is gone. -/
def putFs (table : Nat) : FileM Bool := do
  let state ← get
  let count := (state.files table).filesCount - 1
  set (state.setFilesCount table count)
  if count = 0 then do
    filesDestroy table
    pure true
  else pure false

/-- `vfs_set_curdir` on a directory that is not the current one. -/
def vfsSetCurdir (table : Nat) (dir : Nat) : FileM PUnit := do
  let state ← get
  if (state.files table).pwd = some dir then pure PUnit.unit
  else do
    inodeRefInc dir
    modify fun state => state.setPwd table (some dir)
    inodeRefDecOpt (state.files table).pwd

end UcoreSmp
