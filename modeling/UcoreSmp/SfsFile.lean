import UcoreSmp.SfsBlockMap

/-!
# Files of SFS

Reading, writing and resizing a file, loading and reclaiming an inode
(`kern/fs/sfs/sfs_inode.c`).
-/

namespace UcoreSmp

open SfsFault

/-- What `sfs_io_nolock` leaves in its return value, in `*alenp` and in the
buffer. -/
structure IoResult where
  ret : Int
  alen : Nat
  buf : Bytes

/-- One part of a block: `sfs_bmap_load_nolock` and `sfs_buf_op`.  The bytes are at
`alen` in the buffer. -/
def ioChunk (node : Nat) (write : Bool) (buf : Bytes) (alen size blkno blkoff : Nat) :
    SfsM Bytes := do
  let ino ← sfsBmapLoadNolock node blkno
  if write then sfsWbuf buf alen size ino blkoff else sfsRbuf buf alen size ino blkoff

/-- One whole block: `sfs_bmap_load_nolock` and `sfs_block_op`. -/
def ioBlock (node : Nat) (write : Bool) (buf : Bytes) (alen blkno : Nat) : SfsM Bytes := do
  let ino ← sfsBmapLoadNolock node blkno
  if write then sfsWblock buf alen ino 1 else sfsRblock buf alen ino 1

/-- The loop of `sfs_io_nolock` over whole blocks. -/
def ioBlocks (node : Nat) (write : Bool) : Bytes → Nat → Nat → Nat → SfsM IoResult
  | buf, alen, _, 0 => pure ⟨0, alen, buf⟩
  | buf, alen, blkno, nblks + 1 => do
    let moved ← attempt (ioBlock node write buf alen blkno)
    match moved with
    | .error ret => pure ⟨ret, alen, buf⟩
    | .ok buf => ioBlocks node write buf (alen + SFS_BLKSIZE) (blkno + 1) nblks

/-- The last, partial block of `sfs_io_nolock`. -/
def ioTail (node : Nat) (write : Bool) (done : IoResult) (blkno size : Nat) : SfsM IoResult :=
  if done.ret ≠ 0 ∨ size = 0 then pure done
  else do
    let moved ← attempt (ioChunk node write done.buf done.alen size blkno 0)
    match moved with
    | .error ret => pure ⟨ret, done.alen, done.buf⟩
    | .ok buf => pure ⟨0, done.alen + size, buf⟩

/-- Whole blocks and the last partial block. -/
def ioRest (node : Nat) (write : Bool) (buf : Bytes) (alen blkno nblks endpos : Nat) :
    SfsM IoResult := do
  let done ← ioBlocks node write buf alen blkno nblks
  ioTail node write done (blkno + nblks) (endpos % SFS_BLKSIZE)

/-- The transfer of `sfs_io_nolock`, up to `out`. -/
def ioTransfer (node : Nat) (write : Bool) (buf : Bytes) (offset endpos : Nat) : SfsM IoResult := do
  let blkno := offset / SFS_BLKSIZE
  let nblks := endpos / SFS_BLKSIZE - blkno
  let blkoff := offset % SFS_BLKSIZE
  if blkoff ≠ 0 then do
    let size := if nblks ≠ 0 then SFS_BLKSIZE - blkoff else endpos - offset
    let moved ← attempt (ioChunk node write buf 0 size blkno blkoff)
    match moved with
    | .error ret => pure ⟨ret, 0, buf⟩
    | .ok buf =>
      if nblks = 0 then pure ⟨0, size, buf⟩
      else ioRest node write buf size (blkno + 1) (nblks - 1) endpos
  else ioRest node write buf 0 blkno nblks endpos

/-- `out` of `sfs_io_nolock`: the file grows to the end of what was moved. -/
def ioOut (node offset : Nat) (done : IoResult) : SfsM IoResult := do
  let sin ← getSin node
  if sin.din.size < offset + done.alen then do
    putSin node (sin.setSize (offset + done.alen))
    pure done
  else pure done

/-- The end of a transfer, cut at the maximal size and for a read at the size of
the file. -/
def ioEnd (write : Bool) (size endpos : Nat) : Nat :=
  let endpos := if SFS_MAX_FILE_SIZE < endpos then SFS_MAX_FILE_SIZE else endpos
  if write = false ∧ size < endpos then size else endpos

/-- `sfs_io_nolock`; `offset` is an `off_t` and `len` a `size_t`. -/
def sfsIoNolock (node : Nat) (buf : Bytes) (offset : Int) (len : Nat) (write : Bool) :
    SfsM IoResult := do
  let sin ← getSin node
  ensure (sin.din.type ≠ SFS_TYPE_DIR) ioType
  let endpos := Int.bmod (offset + len) (2 ^ 32)
  if offset < 0 ∨ SFS_MAX_FILE_SIZE ≤ offset ∨ endpos < offset then
    pure ⟨-E_INVAL, 0, buf⟩
  else if offset = endpos then pure ⟨0, 0, buf⟩
  else if write = false ∧ sin.din.size ≤ offset.toNat then pure ⟨0, 0, buf⟩
  else do
    let done ← ioTransfer node write buf offset.toNat (ioEnd write sin.din.size endpos.toNat)
    ioOut node offset.toNat done

def sfsFsync (node : Nat) : SfsM PUnit := do
  let sin ← getSin node
  if sin.dirty = true then do
    putSin node (sin.setDirty false)
    let written ← attempt (sfsWbuf sin.din.image 0 SFS_DISK_INODE_SIZE node 0)
    match written with
    | .error ret => do
      putSin node sin
      throw ret
    | .ok _ => pure PUnit.unit
  else pure PUnit.unit

/-- The enlarging loop of `sfs_truncfile` from `nblks` on. -/
def growBlocks (node nblks : Nat) : Nat → SfsM PUnit
  | 0 => pure PUnit.unit
  | left + 1 => do
    let _ ← sfsBmapLoadNolock node nblks
    growBlocks node (nblks + 1) left

/-- The reducing loop of `sfs_truncfile`. -/
def shrinkBlocks (node : Nat) : Nat → SfsM PUnit
  | 0 => pure PUnit.unit
  | left + 1 => do
    sfsBmapTruncateNolock node
    shrinkBlocks node left

def resizeBlocks (node nblks tblks : Nat) : SfsM PUnit :=
  if nblks < tblks then growBlocks node nblks (tblks - nblks)
  else shrinkBlocks node (nblks - tblks)

def roundupDiv (a n : Nat) : Nat := (a + n - 1) / n

def sfsTruncfile (node : Nat) (len : Int) : SfsM PUnit := do
  if len < 0 ∨ SFS_MAX_FILE_SIZE < len then throw (-E_INVAL)
  else do
    let tblks := roundupDiv len.toNat SFS_BLKSIZE
    let sin ← getSin node
    if sin.din.size = len.toNat then ensure (tblks = sin.din.blocks) truncSize
    else do
      resizeBlocks node sin.din.blocks tblks
      let sin ← getSin node
      ensure (sin.din.blocks = tblks) truncEnd
      putSin node (sin.setSize len.toNat)

def sfsTryseek (node : Nat) (pos : Int) : SfsM PUnit := do
  if pos < 0 ∨ SFS_MAX_FILE_SIZE ≤ pos then throw (-E_INVAL)
  else do
    let sin ← getSin node
    if sin.din.size < pos.toNat then sfsTruncfile node pos else pure PUnit.unit

/-- `lookup_sfs_nolock` of an inode in memory: one more reference, and with the
first one a reclaim count. -/
def lookupSfs (node : Nat) (sin : SfsInode) : SfsM PUnit :=
  putSin node ((sin.setRefCount (sin.refCount + 1)).setReclaimCount
    (if sin.refCount + 1 = 1 then sin.reclaimCount + 1 else sin.reclaimCount))

/-- `sfs_load_inode` of an inode that is not in memory; the flags say whether the
two calls of `kmalloc` succeed. -/
def loadFromDisk (ino : Nat) (gotDin gotNode : Bool) : SfsM PUnit := do
  if gotDin = false then throw (-E_NO_MEM)
  else do
    let inUse ← sfsBlockInuse ino
    ensure (inUse = true) inodeInuse
    let block ← sfsRbuf (fun _ => 0) 0 SFS_DISK_INODE_SIZE ino 0
    let din := SfsDiskInode.ofBytes block
    ensure (din.nlinks ≠ 0) nlinks
    if gotNode = false then throw (-E_NO_MEM)
    else do
      ensure (din.type = SFS_TYPE_DIR ∨ din.type = SFS_TYPE_FILE) fileType
      modify fun sfs =>
        { sfs with
          sins := Function.update sfs.sins ino (some ⟨din, false, 1, 1⟩)
          inodeList := ino :: sfs.inodeList }

def sfsLoadInode (ino : Nat) (gotDin gotNode : Bool) : SfsM PUnit := do
  let sfs ← get
  match sfs.sins ino with
  | some sin => lookupSfs ino sin
  | none => loadFromDisk ino gotDin gotNode

def vopTruncate (node : Nat) (len : Int) : SfsM PUnit := do
  let sin ← getSin node
  if sin.din.type = SFS_TYPE_FILE then sfsTruncfile node len
  else panicWith noTruncate

/-- `sfs_reclaim`: an inode without links loses its blocks. -/
def reclaimTruncate (node : Nat) : SfsM PUnit := do
  let sin ← getSin node
  if sin.din.nlinks = 0 then vopTruncate node 0 else pure PUnit.unit

/-- `sfs_reclaim`: the inode block and the indirect block of an inode without
links. -/
def reclaimFree (node : Nat) : SfsM PUnit := do
  let sin ← getSin node
  if sin.din.nlinks = 0 then do
    sfsBlockFree node
    if sin.din.indirect ≠ 0 then sfsBlockFree sin.din.indirect else pure PUnit.unit
  else pure PUnit.unit

def killSin (node : Nat) : SfsM PUnit := do
  let sin ← getSin node
  ensure (sin.refCount = 0) killedInUse
  modify fun sfs => sfs.clearSin node

/-- `sfs_reclaim` once the data blocks are gone. -/
def reclaimDrop (node : Nat) : SfsM PUnit := do
  sfsFsync node
  modify fun sfs => sfs.unlist node
  reclaimFree node
  killSin node

def sfsReclaim (node : Nat) : SfsM PUnit := do
  let sin ← getSin node
  ensure (0 < sin.reclaimCount) reclaimCount
  putSin node (sin.setReclaimCount (sin.reclaimCount - 1))
  if sin.reclaimCount - 1 ≠ 0 ∨ sin.refCount ≠ 0 then throw (-E_BUSY)
  else do
    reclaimTruncate node
    reclaimDrop node

/-- `inode_ref_dec`; an error of `sfs_reclaim` is only printed. -/
def sfsRefDec (node : Nat) : SfsM PUnit := do
  let sin ← getSin node
  ensure (0 < sin.refCount) refCount
  putSin node (sin.setRefCount (sin.refCount - 1))
  if sin.refCount - 1 = 0 then do
    let _ ← attempt (sfsReclaim node)
    pure PUnit.unit
  else pure PUnit.unit

end UcoreSmp
