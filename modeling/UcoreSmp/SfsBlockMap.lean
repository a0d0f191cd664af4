import UcoreSmp.SfsDisk

/-!
# The block map of a file

Block allocation and the `sfs_bmap` routines of `kern/fs/sfs/sfs_inode.c`.  The
argument `node` is the number of an inode in memory.
-/

namespace UcoreSmp

open SfsFault

def getSin (node : Nat) : SfsM SfsInode := do
  let sfs ← get
  match sfs.sins node with
  | none => panicWith noInode
  | some sin => pure sin

def putSin (node : Nat) (sin : SfsInode) : SfsM PUnit :=
  modify fun sfs => sfs.setSin node sin

namespace SfsInode

@[simps]
def setDirect (sin : SfsInode) (k : Fin SFS_NDIRECT) (block : Nat) : SfsInode :=
  { sin with
    din := { sin.din with direct := Function.update sin.din.direct k block }
    dirty := true }

@[simps]
def setIndirect (sin : SfsInode) (ent : Nat) : SfsInode :=
  { sin with din := { sin.din with indirect := ent }, dirty := true }

@[simps]
def setBlocks (sin : SfsInode) (blocks : Nat) : SfsInode :=
  { sin with din := { sin.din with blocks := blocks } }

@[simps]
def setSize (sin : SfsInode) (size : Nat) : SfsInode :=
  { sin with din := { sin.din with size := size }, dirty := true }

@[simps]
def setDirty (sin : SfsInode) (dirty : Bool) : SfsInode :=
  { sin with dirty := dirty }

@[simps]
def setRefCount (sin : SfsInode) (refCount : Int) : SfsInode :=
  { sin with refCount := refCount }

@[simps]
def setReclaimCount (sin : SfsInode) (reclaimCount : Int) : SfsInode :=
  { sin with reclaimCount := reclaimCount }

end SfsInode

def onFreemap {α : Type} (call : BitmapM α) : SfsM α :=
  within SfsFs.freemap (fun freemap sfs => sfs.setFreemap freemap) bitmap call

def sfsBlockInuse (ino : Nat) : SfsM Bool := do
  let sfs ← get
  if ino ≠ 0 ∧ ino < sfs.super.blocks then do
    let free ← onFreemap (bitmapTest ino)
    pure (!free)
  else panicWith inuseRange

def sfsBlockAlloc : SfsM Nat := do
  let ino ← onFreemap bitmapAlloc
  let sfs ← get
  ensure (0 < sfs.super.unusedBlocks) unusedBlocks
  set (sfs.setUnused (sfs.super.unusedBlocks - 1))
  let inUse ← sfsBlockInuse ino
  ensure (inUse = true) allocInuse
  sfsClearBlock ino 1
  pure ino

def sfsBlockFree (ino : Nat) : SfsM PUnit := do
  let inUse ← sfsBlockInuse ino
  ensure (inUse = true) freeInuse
  onFreemap (bitmapFree ino)
  modify fun sfs => sfs.setUnused ((sfs.super.unusedBlocks + 1) % 2 ^ 32)

/-- `failed_cleanup` of `sfs_bmap_get_sub_nolock`. -/
def bmapSubCleanup (entp ent : Nat) : SfsM PUnit :=
  if ent ≠ entp then sfsBlockFree ent else pure PUnit.unit

/-- The part of `sfs_bmap_get_sub_nolock` that allocates the block of an entry,
for the indirect block `ent` and the old value of `*entp`. -/
def bmapSubCreate (entp ent offset : Nat) : SfsM (Nat × Nat) := do
  let allocated ← attempt sfsBlockAlloc
  match allocated with
  | .error ret => do
    bmapSubCleanup entp ent
    throw ret
  | .ok ino => do
    let written ← attempt (sfsWbuf (leBytes ino) 0 4 ent offset)
    match written with
    | .error ret => do
      sfsBlockFree ino
      bmapSubCleanup entp ent
      throw ret
    | .ok _ => pure (ent, ino)

/-- `sfs_bmap_get_sub_nolock`; the results are `*entp` and `*ino_store`. -/
def sfsBmapGetSubNolock (entp index : Nat) (create : Bool) : SfsM (Nat × Nat) := do
  ensure (index < SFS_BLK_NENTRY) subIndex
  let offset := index * 4
  if entp ≠ 0 then do
    let word ← sfsRbuf (fun _ => 0) 0 4 entp offset
    if leNat 4 word 0 ≠ 0 ∨ create = false then pure (entp, leNat 4 word 0)
    else bmapSubCreate entp entp offset
  else if create = false then pure (entp, 0)
  else do
    let ent ← sfsBlockAlloc
    bmapSubCreate entp ent offset

/-- `sfs_bmap_get_nolock` for a direct block. -/
def bmapGetDirect (node : Nat) (k : Fin SFS_NDIRECT) (create : Bool) : SfsM Nat := do
  let sin ← getSin node
  if sin.din.direct k = 0 ∧ create = true then do
    let ino ← sfsBlockAlloc
    putSin node (sin.setDirect k ino)
    pure ino
  else pure (sin.din.direct k)

/-- `sfs_bmap_get_nolock` for an entry of the indirect block. -/
def bmapGetIndirect (node index : Nat) (create : Bool) : SfsM Nat := do
  let sin ← getSin node
  let (ent, ino) ← sfsBmapGetSubNolock sin.din.indirect index create
  if ent ≠ sin.din.indirect then do
    ensure (sin.din.indirect = 0) indirectSet
    putSin node (sin.setIndirect ent)
    pure ino
  else pure ino

/-- The three ranges of `sfs_bmap_get_nolock`. -/
def bmapGetRange (node index : Nat) (create : Bool) : SfsM Nat :=
  if direct : index < SFS_NDIRECT then bmapGetDirect node ⟨index, direct⟩ create
  else if index - SFS_NDIRECT < SFS_BLK_NENTRY then
    bmapGetIndirect node (index - SFS_NDIRECT) create
  else panicWith indexOutOfRange

def sfsBmapGetNolock (node index : Nat) (create : Bool) : SfsM Nat := do
  let ino ← bmapGetRange node index create
  if ino = 0 then pure 0
  else do
    let inUse ← sfsBlockInuse ino
    ensure (inUse = true) getInuse
    pure ino

def sfsBmapFreeSubNolock (ent index : Nat) : SfsM PUnit := do
  let inUse ← sfsBlockInuse ent
  ensure (inUse = true ∧ index < SFS_BLK_NENTRY) freeSub
  let offset := index * 4
  let word ← sfsRbuf (fun _ => 0) 0 4 ent offset
  if leNat 4 word 0 ≠ 0 then do
    let _ ← sfsWbuf (leBytes 0) 0 4 ent offset
    sfsBlockFree (leNat 4 word 0)
  else pure PUnit.unit

def sfsBmapFreeNolock (node index : Nat) : SfsM PUnit := do
  let sin ← getSin node
  if direct : index < SFS_NDIRECT then
    if sin.din.direct ⟨index, direct⟩ ≠ 0 then do
      sfsBlockFree (sin.din.direct ⟨index, direct⟩)
      putSin node (sin.setDirect ⟨index, direct⟩ 0)
    else pure PUnit.unit
  else if index - SFS_NDIRECT < SFS_BLK_NENTRY then
    if sin.din.indirect ≠ 0 then
      sfsBmapFreeSubNolock sin.din.indirect (index - SFS_NDIRECT)
    else pure PUnit.unit
  else pure PUnit.unit

def incBlocks (node : Nat) : SfsM PUnit := do
  let sin ← getSin node
  putSin node (sin.setBlocks ((sin.din.blocks + 1) % 2 ^ 32))

def sfsBmapLoadNolock (node index : Nat) : SfsM Nat := do
  let sin ← getSin node
  ensure (index ≤ sin.din.blocks) loadIndex
  let ino ← sfsBmapGetNolock node index (index = sin.din.blocks)
  let inUse ← sfsBlockInuse ino
  ensure (inUse = true) loadInuse
  if index = sin.din.blocks then do
    incBlocks node
    pure ino
  else pure ino

def sfsBmapTruncateNolock (node : Nat) : SfsM PUnit := do
  let sin ← getSin node
  ensure (sin.din.blocks ≠ 0) truncBlocks
  sfsBmapFreeNolock node (sin.din.blocks - 1)
  let sin ← getSin node
  putSin node ((sin.setBlocks (sin.din.blocks - 1)).setDirty true)

end UcoreSmp
