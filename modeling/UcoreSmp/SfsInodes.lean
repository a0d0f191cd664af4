import UcoreSmp.SfsResize

/-!
# Inodes between memory and disk

`sfs_fsync` writes an inode back, `sfs_load_inode` reads one, and `sfs_reclaim`
drops one from memory and gives its blocks back when nothing links to it.
-/

namespace UcoreSmp

open Function SfsFs SfsDiskInode

/-- The fields of a disk inode fit into their widths. -/
structure SfsDiskInode.Fits (din : SfsDiskInode) : Prop where
  size : din.size < 2 ^ 32
  type : din.type < 2 ^ 16
  nlinks : din.nlinks < 2 ^ 16
  blocks : din.blocks < 2 ^ 32
  direct : ∀ k, din.direct k < 2 ^ 32
  indirect : din.indirect < 2 ^ 32

section Codec

variable {bytes bytes' : Bytes} {din : SfsDiskInode}

theorem SfsDiskInode.ofBytes_congr (same : ∀ i, i < SFS_DISK_INODE_SIZE → bytes i = bytes' i) :
    ofBytes bytes = ofBytes bytes' := by
  have field : ∀ width offset, offset + width ≤ SFS_DISK_INODE_SIZE →
      leNat width bytes offset = leNat width bytes' offset := by
    intro width offset inside
    apply leNat_congr
    intro j below
    exact same _ (by omega)
  unfold ofBytes
  rw [field 4 0 (by decide), field 2 4 (by decide), field 2 6 (by decide),
    field 4 8 (by decide), field 4 60 (by decide)]
  congr 1
  funext k
  apply field
  have := k.isLt
  unfold SFS_NDIRECT at this
  unfold SFS_DISK_INODE_SIZE
  omega

theorem SfsDiskInode.ofBytes_image (fits : din.Fits) : ofBytes din.image = din := by
  have size : leNat 4 din.image 0 = din.size := by
    apply leNat_eq_of_lt fits.size
    intro j below
    simp [image, below]
  have type : leNat 2 din.image 4 = din.type := by
    apply leNat_eq_of_lt fits.type
    intro j below
    rw [image, if_neg (by omega), if_pos (by omega), Nat.add_sub_cancel_left]
  have nlinks : leNat 2 din.image 6 = din.nlinks := by
    apply leNat_eq_of_lt fits.nlinks
    intro j below
    rw [image, if_neg (by omega), if_neg (by omega), if_pos (by omega), Nat.add_sub_cancel_left]
  have blocks : leNat 4 din.image 8 = din.blocks := by
    apply leNat_eq_of_lt fits.blocks
    intro j below
    rw [image, if_neg (by omega), if_neg (by omega), if_neg (by omega),
      if_pos (by omega), Nat.add_sub_cancel_left]
  have direct : (fun k : Fin SFS_NDIRECT => leNat 4 din.image (12 + 4 * k)) = din.direct := by
    funext k
    apply leNat_eq_of_lt (fits.direct k)
    intro j below
    have inside : 12 + 4 * (k : Nat) + j < 60 := by
      have := k.isLt
      unfold SFS_NDIRECT at this
      omega
    have slot : (12 + 4 * (k : Nat) + j - 12) / 4 = k := by omega
    have byte : (12 + 4 * (k : Nat) + j - 12) % 4 = j := by omega
    rw [image, if_neg (by omega), if_neg (by omega), if_neg (by omega),
      if_neg (by omega), dif_pos inside]
    simp only [slot, byte]
  have indirect : leNat 4 din.image 60 = din.indirect := by
    apply leNat_eq_of_lt fits.indirect
    intro j below
    rw [image, if_neg (by omega), if_neg (by omega), if_neg (by omega),
      if_neg (by omega), dif_neg (by omega), Nat.add_sub_cancel_left]
  unfold ofBytes
  rw [size, type, nlinks, blocks, direct, indirect]

end Codec

namespace SfsFs

def flush (sfs : SfsFs) (node : Nat) (sin : SfsInode) : SfsFs :=
  (sfs.setSin node (sin.setDirty false)).setBlock node
    ((sfs.dev.data node).blit 0 sin.din.image 0 SFS_DISK_INODE_SIZE)

def load (sfs : SfsFs) (ino : Nat) : SfsFs :=
  { sfs with
    sins := update sfs.sins ino (some ⟨ofBytes (sfs.dev.data ino), false, 1, 1⟩)
    inodeList := ino :: sfs.inodeList }

def drop (sfs : SfsFs) (node : Nat) : SfsFs :=
  (sfs.unlist node).clearSin node

end SfsFs

variable {sfs : SfsFs} {inodes : Finset Nat} {sin : SfsInode} {post : PUnit → SfsFs → Prop}
  {failed : Int → SfsFs → Prop} {faulty : SfsFault → Prop} {node ino : Nat}

theorem SfsFs.Consistent.fits (ok : sfs.Consistent inodes) (member : ino ∈ inodes) :
    (sfs.dinOf ino).Fits := by
  have file := ok.files ino member
  have range := ok.device.range
  constructor
  · exact file.size
  · rcases file.type with isFile | isDir
    · rw [isFile]
      decide
    · rw [isDir]
      decide
  · exact file.nlinks
  · exact file.blocks.trans_lt (by decide)
  · intro k
    have isSlot : sfs.slot ino k = (sfs.dinOf ino).direct k := blockOf_direct _ _ k
    by_cases present : sfs.slot ino k = 0
    · rw [← isSlot, present]
      decide
    · have := (ok.slot_inUse member present).1
      omega
  by_cases present : (sfs.dinOf ino).indirect = 0
  · rw [present]
    decide
  · have := (ok.inUse (place_indirect member present)).1
    omega

theorem flush_found : (sfs.flush node sin).sins node = some (sin.setDirty false) :=
  setSin_self

theorem flush_other (other : ino ≠ node) : (sfs.flush node sin).sins ino = sfs.sins ino :=
  setSin_other other

theorem flush_data (other : ino ≠ node) : (sfs.flush node sin).dev.data ino = sfs.dev.data ino :=
  update_of_ne other _ _

theorem flush_bytes {i : Nat} (inside : i < SFS_DISK_INODE_SIZE) :
    (sfs.flush node sin).dev.data node i = sin.din.image i := by
  change update sfs.dev.data node _ node i = _
  rw [update_self, Bytes.blit_inside _ (by omega), Nat.zero_add, Nat.sub_zero]

theorem SfsFs.Consistent.flush (ok : sfs.Consistent inodes) (found : sfs.sins node = some sin) :
    (sfs.flush node sin).Consistent inodes := by
  have member := (ok.loaded node sin found).1
  have onDisk : ofBytes ((sfs.flush node sin).dev.data node) = sin.din := by
    have fits := ok.fits member
    rw [dinOf_some found] at fits
    refine Eq.trans ?_ (ofBytes_image fits)
    apply ofBytes_congr
    intro i inside
    exact flush_bytes inside
  refine ok.recast member rfl rfl rfl rfl ?_ ?_ ?_ ?_ ?_ ?_ ?_ ?_
  · exact fun ino => flush_other
  · exact fun blkno => flush_data
  · rw [dinOf_some flush_found, dinOf_some found]
    exact SfsDiskInode.Lags.refl _
  · rw [flush_found]
    intro none
    cases none
  · intro sin' found'
    rw [flush_found] at found'
    cases found'
    refine ⟨fun _ => ⟨by simp [found], by rw [dinOf_some found]; rfl⟩, fun _ => ?_⟩
    rw [onDisk]
    exact SfsDiskInode.Lags.refl _
  · apply (ok.listed node).trans
    simp [flush_found, found]
  · exact fun _ _ => Iff.rfl
  · exact ok.nodup

theorem callEnds_sfsFsync (ok : sfs.Consistent inodes) (found : sfs.sins node = some sin) :
    CallEnds (sfsFsync node) post failed faulty sfs ↔
      post () (if sin.dirty = true then sfs.flush node sin else sfs) := by
  have member := (ok.loaded node sin found).1
  have inside := (ok.inUse (place_inode member)).1
  have deviceOk : (sfs.setSin node (sin.setDirty false)).DeviceOk :=
    ⟨ok.device.results, ok.device.onDisk, ok.device.range⟩
  have wbuf : ∀ {post' : Bytes → SfsFs → Prop} {failed' : Int → SfsFs → Prop},
      CallEnds (sfsWbuf sin.din.image 0 SFS_DISK_INODE_SIZE node 0) post' failed' faulty
        (sfs.setSin node (sin.setDirty false)) ↔ post' sin.din.image (sfs.flush node sin) :=
    callEnds_sfsWbuf deviceOk inside (ok.inode_ne_zero member) (by decide) (by decide)
  simp only [sfsFsync, callEnds_bind, callEnds_getSin found, callEnds_ite, putSin,
    callEnds_modify, callEnds_attempt, wbuf, callEnds_pure]
  by_cases dirty : sin.dirty = true
  · simp [dirty]
  · simp [dirty]

section LoadDrop

theorem load_found : (sfs.load ino).sins ino = some ⟨ofBytes (sfs.dev.data ino), false, 1, 1⟩ := by
  simp [load]

variable {other : Nat}

theorem load_other (different : other ≠ ino) : (sfs.load ino).sins other = sfs.sins other := by
  simp [load, different]

theorem SfsFs.Consistent.load (ok : sfs.Consistent inodes) (member : ino ∈ inodes)
    (notLoaded : sfs.sins ino = none) : (sfs.load ino).Consistent inodes := by
  have isDisk : sfs.dinOf ino = ofBytes (sfs.dev.data ino) := by
    rw [dinOf, notLoaded]
  have unlisted : ino ∉ sfs.inodeList := by
    rw [ok.listed, notLoaded]
    simp
  refine ok.recast member rfl rfl rfl rfl ?_ ?_ ?_ ?_ ?_ ?_ ?_ ?_
  · exact fun other => load_other
  · exact fun _ _ => rfl
  · rw [dinOf_some load_found, isDisk]
    exact SfsDiskInode.Lags.refl _
  · rw [load_found]
    intro none
    cases none
  · intro sin found
    rw [load_found] at found
    cases found
    refine ⟨fun zero => absurd zero ?_, fun _ => SfsDiskInode.Lags.refl _⟩
    rw [← isDisk]
    exact (ok.files ino member).onDisk notLoaded
  · simp [SfsFs.load]
  · intro other different
    simp [SfsFs.load, different]
  · exact List.nodup_cons.mpr ⟨unlisted, ok.nodup⟩

theorem drop_found : (sfs.drop node).sins node = none := by
  simp [drop, clearSin]

theorem drop_other (different : other ≠ node) : (sfs.drop node).sins other = sfs.sins other := by
  simp [drop, clearSin, unlist, different]

theorem SfsFs.Consistent.drop (ok : sfs.Consistent inodes) (found : sfs.sins node = some sin)
    (clean : sin.dirty = false) (linked : sin.din.nlinks ≠ 0) :
    (sfs.drop node).Consistent inodes := by
  obtain ⟨member, sinOk⟩ := ok.loaded node sin found
  have lags := sinOk.synced clean
  have nodeDin : (sfs.drop node).dinOf node = ofBytes (sfs.dev.data node) := by
    rw [dinOf, drop_found]
    rfl
  refine ok.recast member rfl rfl rfl rfl ?_ ?_ ?_ ?_ ?_ ?_ ?_ ?_
  · exact fun other => drop_other
  · exact fun _ _ => rfl
  · rw [nodeDin, dinOf_some found]
    exact lags
  · intro _
    rw [nodeDin, lags.nlinks]
    exact linked
  · intro sin' found'
    rw [drop_found] at found'
    cases found'
  · exact iff_of_false ok.nodup.not_mem_erase (fun loaded => loaded drop_found)
  · exact fun other different => List.mem_erase_of_ne different
  · exact ok.nodup.erase node

theorem loadFromDisk_ends (ok : sfs.Consistent inodes) (member : ino ∈ inodes)
    (notLoaded : sfs.sins ino = none) (gotDin gotNode : Bool) :
    CallEnds (loadFromDisk ino gotDin gotNode) (fun _ next => next = sfs.load ino)
      (fun code next => code = -E_NO_MEM ∧ next = sfs) (fun _ => False) sfs := by
  have notSuper := ok.inode_ne_zero member
  obtain ⟨inside, inUse⟩ := ok.inUse (place_inode member)
  have file := ok.files ino member
  have isDisk : sfs.dinOf ino = ofBytes (sfs.dev.data ino) := by
    rw [dinOf, notLoaded]
  have read : ofBytes (Bytes.blit (fun _ => 0) 0 (sfs.dev.data ino) 0 SFS_DISK_INODE_SIZE) =
        ofBytes (sfs.dev.data ino) := by
    apply ofBytes_congr
    intro i below
    rw [Bytes.blit_inside _ (by omega), Nat.zero_add, Nat.sub_zero]
  have linked : (ofBytes (sfs.dev.data ino)).nlinks ≠ 0 := by
    rw [← isDisk]
    exact file.onDisk notLoaded
  have type : (ofBytes (sfs.dev.data ino)).type = SFS_TYPE_DIR ∨
      (ofBytes (sfs.dev.data ino)).type = SFS_TYPE_FILE := by
    rw [← isDisk]
    exact file.type.symm
  simp only [loadFromDisk, callEnds_ite, callEnds_throw, callEnds_bind,
    callEnds_sfsBlockInuse ok.alloc notSuper inside, inUse, callEnds_ensure,
    callEnds_sfsRbuf ok.device inside notSuper (show 0 < SFS_BLKSIZE by decide)
      (show 0 + SFS_DISK_INODE_SIZE ≤ SFS_BLKSIZE by decide), read, callEnds_modify]
  simp [linked, type, load]

end LoadDrop

def SfsFs.releaseInode (sfs : SfsFs) (node indirect : Nat) : SfsFs :=
  if indirect ≠ 0 then (sfs.release node).release indirect else sfs.release node

theorem releaseInode_frame (sfs : SfsFs) (node indirect : Nat) :
    (sfs.releaseInode node indirect).dev = sfs.dev ∧ (sfs.releaseInode node indirect).super.blocks =
      sfs.super.blocks ∧ (sfs.releaseInode node indirect).sins =
      sfs.sins ∧ (sfs.releaseInode node indirect).inodeList = sfs.inodeList := by
  unfold releaseInode
  split_ifs
  · exact ⟨rfl, rfl, rfl, rfl⟩
  · exact ⟨rfl, rfl, rfl, rfl⟩

section

variable (ok : sfs.Consistent inodes) (found : sfs.sins node = some sin)

include ok found

/-- The inode block stays in use when the indirect block is given back, and the other
way round. -/
theorem SfsFs.Consistent.release_inUse (present : sin.din.indirect ≠ 0) :
    (sfs.release node).freemap.isFree sin.din.indirect = false := by
  have member := (ok.loaded node sin found).1
  have other : sin.din.indirect ≠ node :=
    ok.owners.ne (ok.owns_indirect found present) (place_inode member) (by simp)
  change (sfs.freemap.give node).isFree sin.din.indirect = false
  rw [Bitmap.isFree_give, (ok.indirect_valid found present).2]
  simp [other]

theorem SfsFs.Consistent.releaseInode_alloc : (sfs.releaseInode node sin.din.indirect).AllocOk := by
  have member := (ok.loaded node sin found).1
  obtain ⟨inside, inUse⟩ := ok.inUse (place_inode member)
  have first := ok.alloc.release (ok.inode_ne_zero member) inside inUse
  unfold releaseInode
  by_cases present : sin.din.indirect ≠ 0
  · rw [if_pos present]
    exact first.release present (ok.indirect_valid found present).1 (ok.release_inUse found present)
  · rw [if_neg present]
    exact first

theorem SfsFs.Consistent.releaseInode_owners :
    Claims (update (update (sfs.place inodes) (.inode node) none)
      (.indirect node) none) (sfs.releaseInode node sin.din.indirect).InUse := by
  have member := (ok.loaded node sin found).1
  have first := ok.owners.revoke (place_inode member)
  unfold releaseInode
  by_cases present : sin.din.indirect ≠ 0
  · rw [if_pos present]
    have owned : update (sfs.place inodes) (.inode node) none (.indirect node) =
        some sin.din.indirect := by
      exact ok.owns_indirect found present
    apply (first.revoke owned).congr
    intro blkno
    rw [inUse_release, inUse_release]
  rw [if_neg present]
  have noIndirect : update (sfs.place inodes) (.inode node) none (.indirect node) = none := by
    rw [update_of_ne (by simp), place, if_pos member, dinOf_some found, not_not.mp present]
    rfl
  have same := update_eq_self (BlockOwner.indirect node)
    (update (sfs.place inodes) (.inode node) none)
  rw [noIndirect] at same
  rw [same]
  apply first.congr
  intro blkno
  rw [inUse_release]

theorem SfsFs.Consistent.discard (empty : ∀ k, sfs.slot node k = 0) :
    ((sfs.releaseInode node sin.din.indirect).drop node).Consistent (inodes.erase node) := by
  obtain ⟨dev, blocks, sins, inodeList⟩ := releaseInode_frame sfs node sin.din.indirect
  have alloc := ok.releaseInode_alloc found
  have owners := ok.releaseInode_owners found
  generalize sfs.releaseInode node sin.din.indirect = freed at *
  have sameDin : ∀ other, other ≠ node → (freed.drop node).dinOf other = sfs.dinOf other := by
    intro other different
    apply dinOf_congr
    · rw [drop_other different, sins]
    · change freed.dev.data other = _
      rw [dev]
  have sameSlot : ∀ other, other ≠ node → ∀ k,
      (freed.drop node).slot other k = sfs.slot other k := by
    intro other different k
    unfold slot
    rw [sameDin other different]
    change blockOf freed.dev.data _ _ = _
    rw [dev]
  have place : (freed.drop node).place (inodes.erase node) =
      update (update (sfs.place inodes) (.inode node) none) (.indirect node) none := by
    funext owner
    cases owner with
    | super => rfl
    | freemap j =>
      have same : sfsFreemapBlocks (freed.drop node).super = sfsFreemapBlocks sfs.super := by
        change (freed.super.blocks + _ - 1) % _ / _ = _
        rw [blocks]
        rfl
      rw [update_of_ne (by simp), update_of_ne (by simp), place, place, same]
    | inode ino =>
      rw [update_of_ne (by simp)]
      by_cases isNode : ino = node
      · subst isNode
        rw [update_self, place, if_neg (by simp)]
      · simp [place, isNode]
    | indirect ino =>
      by_cases isNode : ino = node
      · subst isNode
        rw [update_self, place, if_neg (by simp)]
      rw [update_of_ne (by simpa using isNode), update_of_ne (by simp),
        place, place, sameDin ino isNode]
      simp [isNode]
    | slot ino k =>
      rw [update_of_ne (by simp), update_of_ne (by simp), place, place]
      by_cases isNode : ino = node
      · subst isNode
        rw [empty]
        simp [nonzero]
      · rw [sameSlot ino isNode]
        simp [isNode]
  constructor
  · refine ⟨?_, ?_, ?_⟩
    · change freed.dev.results = []
      rw [dev]
      exact ok.device.results
    · change freed.super.blocks ≤ freed.dev.dBlocks
      rw [dev, blocks]
      exact ok.device.onDisk
    · change freed.super.blocks ≤ 2 ^ 19
      rw [blocks]
      exact ok.device.range
  · exact alloc.congr rfl rfl
  · rw [place]
    exact owners
  · intro other isMember
    obtain ⟨different, isMember⟩ := Finset.mem_erase.mp isMember
    exact (ok.files other isMember).congr (sameDin other different) (sameSlot other different)
      ((drop_other different).trans (congrFun sins other))
  · intro other sin' found'
    by_cases isNode : other = node
    · rw [isNode, drop_found] at found'
      cases found'
    rw [drop_other isNode, sins] at found'
    obtain ⟨isMember, sinOk⟩ := ok.loaded other sin' found'
    exact ⟨Finset.mem_erase.mpr ⟨isNode, isMember⟩,
      sinOk.congr (sameSlot other isNode) (congrFun (congrArg BlockDevice.data dev) other)⟩
  · intro other
    change other ∈ freed.inodeList.erase node ↔ _
    rw [inodeList, ok.nodup.mem_erase_iff, ok.listed]
    by_cases isNode : other = node
    · rw [isNode, drop_found]
      simp
    · rw [drop_other isNode, sins]
      simp [isNode]
  · change (freed.inodeList.erase node).Nodup
    rw [inodeList]
    exact ok.nodup.erase node

/-- The part of `sfs_reclaim` that frees blocks, in a consistent file system that no
longer lists the inode. -/
theorem callEnds_reclaimFree : CallEnds (reclaimFree node) post failed faulty (sfs.unlist node) ↔
      post () (if sin.din.nlinks = 0 then
        (sfs.unlist node).releaseInode node sin.din.indirect else sfs.unlist node) := by
  have found' : (sfs.unlist node).sins node = some sin := found
  have member := (ok.loaded node sin found).1
  have notSuper := ok.inode_ne_zero member
  obtain ⟨inside, inUse⟩ := ok.inUse (place_inode member)
  have device : (sfs.unlist node).DeviceOk :=
    ⟨ok.device.results, ok.device.onDisk, ok.device.range⟩
  have alloc : (sfs.unlist node).AllocOk := ok.alloc.congr rfl rfl
  have released := alloc.release notSuper inside inUse
  simp only [reclaimFree, callEnds_bind, callEnds_getSin found', callEnds_ite, callEnds_pure,
    callEnds_sfsBlockFree device alloc notSuper inside inUse]
  by_cases zero : sin.din.nlinks = 0
  · by_cases present : sin.din.indirect ≠ 0
    · have second : ∀ {post' : PUnit → SfsFs → Prop},
          CallEnds (sfsBlockFree sin.din.indirect) post' failed faulty
            ((sfs.unlist node).release node) ↔
          post' () (((sfs.unlist node).release node).release sin.din.indirect) :=
        callEnds_sfsBlockFree (device.release node) released present
          (ok.indirect_valid found present).1 (ok.release_inUse found present)
      simp [zero, present, second, releaseInode]
    · simp [zero, present, releaseInode]
  · simp [zero]

end

theorem unlist_releaseInode_clearSin (indirect : Nat) :
    ((sfs.unlist node).releaseInode node indirect).clearSin node =
      (sfs.releaseInode node indirect).drop node := by
  unfold releaseInode
  split_ifs
  · rfl
  · rfl

section

variable (ok : sfs.Consistent inodes) (found : sfs.sins node = some sin)

include ok found

/-- The part of `sfs_reclaim` that frees the data blocks of a file without links. -/
theorem reclaimTruncate_ends : CallEnds (reclaimTruncate node)
      (fun _ next => next.Consistent inodes ∧ (∀ ino, ino ≠ node → next.sins ino = sfs.sins ino) ∧
        ∃ sin', next.sins node = some sin' ∧ sin'.din.nlinks = sin.din.nlinks ∧
          sin'.refCount = sin.refCount ∧ (sin.din.nlinks = 0 → ∀ k, next.slot node k = 0))
      (fun _ _ => False)
      (fun fault => fault = .truncSize ∧ sin.din.nlinks = 0 ∧ sin.din.size = 0 ∧
        sin.din.blocks ≠ 0) sfs := by
  have sinOk := (ok.loaded node sin found).2
  simp only [reclaimTruncate, vopTruncate, callEnds_bind, callEnds_getSin found, callEnds_ite,
    callEnds_pure, callEnds_panicWith]
  refine ⟨fun zero => ?_, fun linked => ⟨ok, fun _ _ => trivial, sin, found, rfl, rfl, fun zero =>
    absurd zero linked⟩⟩
  obtain ⟨isFile, unmapped⟩ := sinOk.unlinked zero
  refine ⟨fun _ => ?_, fun notFile => absurd isFile notFile⟩
  apply (sfsTruncfile_ends ok found 0).mono
  · intro _ next outcome
    rcases outcome with ⟨rfl, -, blocks⟩ | ⟨sin', resized⟩
    · have noBlocks : sin.din.blocks = 0 := blocks.symm
      refine ⟨ok, fun _ _ => rfl, sin, found, rfl, rfl, fun _ k => unmapped k ?_⟩
      omega
    have noBlocks : sin'.din.blocks = 0 := resized.blocks
    refine ⟨resized.consistent, resized.keeps.sins, sin', resized.found, resized.nlinks,
      resized.refCount, fun _ k => ?_⟩
    rw [resized.beyond k (by omega)]
    split_ifs with freed
    · rfl
    · exact unmapped k (by omega)
  · intro code next outcome
    rcases outcome with ⟨-, -, negative | large⟩ | ⟨-, -, sin', exhausted⟩
    · exact absurd negative (by decide)
    · exact absurd large (by decide)
    · exact absurd exhausted.short (Nat.not_lt_zero _)
  intro fault outcome
  rcases outcome with ⟨isFault, size, blocks⟩ | ⟨-, -, -, large, -⟩
  · exact ⟨isFault, zero, size, fun none => blocks (none ▸ rfl)⟩
  · exact absurd large (by decide)

theorem reclaimDrop_ends (unused : sin.refCount = 0)
    (empty : sin.din.nlinks = 0 → ∀ k, sfs.slot node k = 0) :
    CallEnds (reclaimDrop node)
      (fun _ next => next.Consistent (if sin.din.nlinks = 0 then inodes.erase node else inodes) ∧
        next.sins = update sfs.sins node none)
      (fun _ _ => False) (fun _ => False) sfs := by
  set synced := if sin.dirty = true then sfs.flush node sin else sfs with isSynced
  -- after the inode is written back it is clean, and nothing else about it changed
  have clean : synced.Consistent inodes ∧ synced.sins node = some (sin.setDirty false) ∧
      (∀ k, synced.slot node k = sfs.slot node k) ∧
      update synced.sins node none = update sfs.sins node none := by
    rw [isSynced]
    by_cases dirty : sin.dirty = true
    · rw [if_pos dirty]
      refine ⟨ok.flush found, flush_found, fun k => ?_, ?_⟩
      · rw [slot_some flush_found, slot_some found]
        apply blockOf_congr
        intro present
        have apart : sin.din.indirect ≠ node :=
          ok.owners.ne (ok.owns_indirect found present)
            (place_inode (ok.loaded node sin found).1) (by simp)
        exact flush_data apart
      · exact update_idem _ _ _
    rw [if_neg dirty]
    have same : sin = sin.setDirty false := by
      rw [Bool.not_eq_true] at dirty
      rw [SfsInode.setDirty, ← dirty]
    rw [← same]
    exact ⟨ok, found, fun _ => rfl, rfl⟩
  obtain ⟨syncedOk, syncedFound, slots, cleared⟩ := clean
  have kept : (sin.setDirty false).din = sin.din := rfl
  simp only [reclaimDrop, callEnds_bind, callEnds_sfsFsync ok found, ← isSynced, callEnds_modify,
    callEnds_reclaimFree syncedOk syncedFound, kept]
  by_cases zero : sin.din.nlinks = 0
  · have found' : ((synced.unlist node).releaseInode node sin.din.indirect).sins node =
        some (sin.setDirty false) := by
      rw [(releaseInode_frame _ _ _).2.2.1]
      exact syncedFound
    have discarded := syncedOk.discard syncedFound fun k => (slots k).trans (empty zero k)
    rw [if_pos zero, if_pos zero]
    simp only [killSin, callEnds_bind, callEnds_getSin found', callEnds_ensure, callEnds_modify,
      unlist_releaseInode_clearSin]
    refine ⟨fun _ => ⟨discarded, ?_⟩, fun used => absurd unused used⟩
    change update (synced.releaseInode node sin.din.indirect).sins node none = _
    rw [(releaseInode_frame _ _ _).2.2.1, cleared]
  have found' : (synced.unlist node).sins node = some (sin.setDirty false) := syncedFound
  rw [if_neg zero, if_neg zero]
  simp only [killSin, callEnds_bind, callEnds_getSin found', callEnds_ensure, callEnds_modify]
  exact ⟨fun _ => ⟨syncedOk.drop syncedFound rfl zero, cleared⟩, fun used => absurd unused used⟩

/-- `sfs_reclaim` of an inode that is not used any more.  Its only assertion that can
fail is the one of `sfs_truncfile`. -/
theorem sfsReclaim_ends (unused : sin.refCount = 0) (pending : sin.reclaimCount = 1) :
    CallEnds (sfsReclaim node)
      (fun _ next => next.Consistent (if sin.din.nlinks = 0 then inodes.erase node else inodes) ∧
        next.sins = update sfs.sins node none)
      (fun _ _ => False)
      (fun fault => fault = .truncSize ∧ sin.din.nlinks = 0 ∧ sin.din.size = 0 ∧
        sin.din.blocks ≠ 0) sfs := by
  have size := (ok.files node (ok.loaded node sin found).1).size
  rw [dinOf_some found] at size
  have counted : (sfs.setSin node (sin.setReclaimCount (sin.reclaimCount - 1))).Consistent
      inodes := by
    exact ok.setSin found rfl rfl rfl rfl rfl size (ok.loaded node sin found).2.synced
  have goesOn : ¬ (sin.reclaimCount - 1 ≠ 0 ∨ sin.refCount ≠ 0) := by omega
  simp only [sfsReclaim, callEnds_bind, callEnds_getSin found, callEnds_ensure, putSin,
    callEnds_modify, callEnds_ite, callEnds_throw]
  refine ⟨fun _ => ⟨fun busy => goesOn busy, fun _ => ?_⟩, fun none => absurd none (by omega)⟩
  apply (reclaimTruncate_ends counted setSin_self).mono
  · rintro _ next ⟨nextOk, others, sin', found', nlinks, refCount, empty⟩
    have sameLinks : sin'.din.nlinks = sin.din.nlinks := nlinks
    have cleared : update next.sins node none = update sfs.sins node none := by
      funext ino
      by_cases isNode : ino = node
      · rw [isNode, update_self, update_self]
      · rw [update_of_ne isNode, update_of_ne isNode, others ino isNode, setSin_other isNode]
    apply (reclaimDrop_ends nextOk found' (refCount.trans unused) (by
      rw [sameLinks]
      exact empty)).mono
    · intro _ last outcome
      rw [sameLinks, cleared] at outcome
      exact outcome
    · intro _ _ impossible
      exact impossible
    · intro _ impossible
      exact impossible.elim
  · intro _ _ impossible
    exact impossible
  · intro fault outcome
    exact outcome

end

end UcoreSmp
