import UcoreSmp.Bitmap
import UcoreSmp.ByteCodec

/-!
# The SFS disk format and block I/O

The structures of `kern/fs/sfs/sfs.h` and the routines of
`kern/fs/sfs/sfs_io.c`.  The buffer `sfs_buffer` is filled before each use, so it
is a local value here, and the semaphores are left out: the routines of this
model run one after another.
-/

namespace UcoreSmp

def SFS_MAGIC : Nat := 0x2f8dbe2a
def SFS_BLKSIZE : Nat := 4096
def SFS_NDIRECT : Nat := 12
def SFS_MAX_FILE_SIZE : Nat := 1024 * 1024 * 128
def SFS_BLKN_SUPER : Nat := 0
def SFS_BLKN_FREEMAP : Nat := 2
def SFS_BLKBITS : Nat := SFS_BLKSIZE * 8
def SFS_BLK_NENTRY : Nat := SFS_BLKSIZE / 4

def SFS_TYPE_FILE : Nat := 1
def SFS_TYPE_DIR : Nat := 2

structure SfsSuper where
  magic : Nat
  blocks : Nat
  unusedBlocks : Nat
  info : Bytes

structure SfsDiskInode where
  size : Nat
  type : Nat
  nlinks : Nat
  blocks : Nat
  direct : Fin SFS_NDIRECT → Nat
  indirect : Nat

def SFS_DISK_INODE_SIZE : Nat := 64

def sfsFreemapBlocks (super : SfsSuper) : Nat :=
  (super.blocks + SFS_BLKBITS - 1) % 2 ^ 32 / SFS_BLKBITS

def SfsSuper.image (super : SfsSuper) : Bytes := fun j =>
  if j < 4 then leBytes super.magic j
  else if j < 8 then leBytes super.blocks (j - 4)
  else if j < 12 then leBytes super.unusedBlocks (j - 8)
  else super.info (j - 12)

def SfsDiskInode.image (din : SfsDiskInode) : Bytes := fun j =>
  if j < 4 then leBytes din.size j
  else if j < 6 then leBytes din.type (j - 4)
  else if j < 8 then leBytes din.nlinks (j - 6)
  else if j < 12 then leBytes din.blocks (j - 8)
  else if inside : j < 60 then
    leBytes (din.direct ⟨(j - 12) / 4, by unfold SFS_NDIRECT; omega⟩) ((j - 12) % 4)
  else leBytes din.indirect (j - 60)

def SfsDiskInode.ofBytes (bytes : Bytes) : SfsDiskInode where
  size := leNat 4 bytes 0
  type := leNat 2 bytes 4
  nlinks := leNat 2 bytes 6
  blocks := leNat 4 bytes 8
  direct := fun k => leNat 4 bytes (12 + 4 * k)
  indirect := leNat 4 bytes 60

def Bitmap.image (bitmap : Bitmap) : Bytes := fun j =>
  leBytes (bitmap.map (j / 4)).toNat (j % 4)

/-- `struct sfs_inode` with the reference count of its `struct inode`. -/
structure SfsInode where
  din : SfsDiskInode
  dirty : Bool
  refCount : Int
  reclaimCount : Int

/-- A block device.  The results of the coming requests are given as far as they
matter; zero is success, and so is every later result. -/
structure BlockDevice where
  data : Nat → Bytes
  dBlocks : Nat
  dBlocksize : Nat
  results : List Int

/-- `struct sfs_fs` with its device.  The inodes in memory are named by their
inode numbers; `inodeList` is the order of `inode_list`. -/
structure SfsFs where
  dev : BlockDevice
  super : SfsSuper
  freemap : Bitmap
  superDirty : Bool
  sins : Nat → Option SfsInode
  inodeList : List Nat

inductive SfsFault where
  | diskSector
  | blockRange
  | bufRange
  | bitmap (fault : BitmapFault)
  | inuseRange
  | unusedBlocks
  | allocInuse
  | freeInuse
  | subIndex
  | indirectSet
  | getInuse
  | indexOutOfRange
  | freeSub
  | loadIndex
  | loadInuse
  | truncBlocks
  | ioType
  | truncSize
  | truncEnd
  | inodeInuse
  | nlinks
  | fileType
  | noTruncate
  | refCount
  | reclaimCount
  | killedInUse
  | noInode
  deriving DecidableEq

abbrev DeviceM := Call SfsFault BlockDevice

abbrev SfsM := Call SfsFault SfsFs

namespace BlockDevice

def setBlock (dev : BlockDevice) (blkno : Nat) (bytes : Bytes) : BlockDevice :=
  { dev with data := Function.update dev.data blkno bytes }

def popResult (dev : BlockDevice) : BlockDevice :=
  { dev with results := dev.results.tail }

end BlockDevice

namespace SfsFs

def setDev (sfs : SfsFs) (dev : BlockDevice) : SfsFs :=
  { sfs with dev := dev }

def setBlock (sfs : SfsFs) (blkno : Nat) (bytes : Bytes) : SfsFs :=
  sfs.setDev (sfs.dev.setBlock blkno bytes)

def setSin (sfs : SfsFs) (ino : Nat) (sin : SfsInode) : SfsFs :=
  { sfs with sins := Function.update sfs.sins ino (some sin) }

def setFreemap (sfs : SfsFs) (freemap : Bitmap) : SfsFs :=
  { sfs with freemap := freemap }

def setUnused (sfs : SfsFs) (unusedBlocks : Nat) : SfsFs :=
  { sfs with super := { sfs.super with unusedBlocks := unusedBlocks }, superDirty := true }

def unlist (sfs : SfsFs) (ino : Nat) : SfsFs :=
  { sfs with inodeList := sfs.inodeList.erase ino }

def clearSin (sfs : SfsFs) (ino : Nat) : SfsFs :=
  { sfs with sins := Function.update sfs.sins ino none }

end SfsFs

/-- `dop_io` of one block, as `disk0_io` does it; the result is the buffer
afterwards.  The byte offset of the block is an `off_t`: from block `2 ^ 19` on
it is negative, and for `-SFS_BLKSIZE` the range check wraps around and the disk
driver asserts. -/
def dopIo (buf : Bytes) (blkno : Nat) (write : Bool) : DeviceM Bytes := do
  let block := blkno % 2 ^ 20
  let dev ← get
  if block = 2 ^ 20 - 1 then panicWith SfsFault.diskSector
  else if 2 ^ 19 ≤ block ∨ dev.dBlocks < block + 1 then throw (-E_INVAL)
  else do
    set dev.popResult
    if dev.results.headD 0 ≠ 0 then throw (dev.results.headD 0)
    else if write then do
      modify fun dev => dev.setBlock block buf
      pure buf
    else pure (dev.data block)

def onDevice {α : Type} (call : DeviceM α) : SfsM α :=
  within SfsFs.dev (fun dev sfs => sfs.setDev dev) id call

/-- `sfs_rwblock_nolock`; the result is the buffer afterwards. -/
def sfsRwblockNolock (buf : Bytes) (blkno : Nat) (write checked : Bool) : SfsM Bytes := do
  let sfs ← get
  ensure ((blkno ≠ 0 ∨ checked = false) ∧ blkno < sfs.super.blocks) .blockRange
  onDevice (dopIo buf blkno write)

def sfsRwblock (write : Bool) : Bytes → Nat → Nat → Nat → SfsM Bytes
  | buf, _, _, 0 => pure buf
  | buf, start, blkno, nblks + 1 => do
    let block ← sfsRwblockNolock (fun j => buf (start + j)) blkno write true
    sfsRwblock write (if write then buf else buf.blit start block 0 SFS_BLKSIZE)
      (start + SFS_BLKSIZE) (blkno + 1) nblks

def sfsRblock (buf : Bytes) (start blkno nblks : Nat) : SfsM Bytes :=
  sfsRwblock false buf start blkno nblks

def sfsWblock (buf : Bytes) (start blkno nblks : Nat) : SfsM Bytes :=
  sfsRwblock true buf start blkno nblks

def sfsRbuf (buf : Bytes) (start len blkno offset : Nat) : SfsM Bytes := do
  ensure (offset < SFS_BLKSIZE ∧ offset + len ≤ SFS_BLKSIZE) .bufRange
  let block ← sfsRwblockNolock (fun _ => 0) blkno false true
  pure (buf.blit start block offset len)

def sfsWbuf (buf : Bytes) (start len blkno offset : Nat) : SfsM Bytes := do
  ensure (offset < SFS_BLKSIZE ∧ offset + len ≤ SFS_BLKSIZE) .bufRange
  let block ← sfsRwblockNolock (fun _ => 0) blkno false true
  let _ ← sfsRwblockNolock (block.blit offset buf start len) blkno true true
  pure buf

def sfsClearBlock (blkno : Nat) : Nat → SfsM PUnit
  | 0 => pure PUnit.unit
  | nblks + 1 => do
    let _ ← sfsRwblockNolock (fun _ => 0) blkno true true
    sfsClearBlock (blkno + 1) nblks

end UcoreSmp
