import UcoreSmp.SfsGrowth

/-!
# Shrinking a file by one block

`sfs_bmap_truncate_nolock` frees the last block of a file, which is in a direct
slot or in an entry of the indirect block.  The indirect block itself stays.
-/

namespace UcoreSmp

structure Shrunk (sfs next : SfsFs) (inodes : Finset Nat) (node : Nat)
    (sin sin' : SfsInode) : Prop extends sin.Same sin' where
  keeps : KeepsOthers sfs next inodes node
  alloc : next.AllocOk
  owners : Claims (next.place inodes) next.InUse
  found : next.sins node = some sin'
  size : sin'.din.size = sin.din.size
  blocks : sin'.din.blocks = sin.din.blocks - 1
  dirty : sin'.dirty = true
  indirect : sin'.din.indirect = sin.din.indirect
  slots : ∀ j, next.slot node j = if j = sin.din.blocks - 1 then 0 else sfs.slot node j
  data : ∀ j, j ≠ sin.din.blocks - 1 → sfs.slot node j ≠ 0 →
    next.dev.data (sfs.slot node j) = sfs.dev.data (sfs.slot node j)
  freeBlocks : next.freeBlocks = insert (sfs.slot node (sin.din.blocks - 1)) sfs.freeBlocks

section Shrink

variable {sfs next : SfsFs} {inodes : Finset Nat} {node : Nat} {sin sin' : SfsInode}

/-- What is left to check when the block of the last slot was freed, and only the
indirect block was written. -/
theorem Shrunk.build {base : SfsFs} (ok : sfs.Consistent inodes)
    (found : sfs.sins node = some sin) (present : sfs.slot node (sin.din.blocks - 1) ≠ 0)
    (header : base.sins = sfs.sins ∧ base.inodeList = sfs.inodeList ∧
      base.dev.dBlocks = sfs.dev.dBlocks ∧ base.dev.results = sfs.dev.results)
    (super : base.super = (sfs.release (sfs.slot node (sin.din.blocks - 1))).super)
    (freemap : base.freemap = (sfs.release (sfs.slot node (sin.din.blocks - 1))).freemap)
    (superDirty : base.superDirty = true)
    (same : sin.Same sin') (size : sin'.din.size = sin.din.size)
    (blocks : sin'.din.blocks = sin.din.blocks - 1) (dirty : sin'.dirty = true)
    (indirect : sin'.din.indirect = sin.din.indirect)
    (data : ∀ other, (sin.din.indirect ≠ 0 → other ≠ sin.din.indirect) →
      base.dev.data other = sfs.dev.data other)
    (blockOf' : ∀ j, blockOf base.dev.data sin'.din j =
      if j = sin.din.blocks - 1 then 0 else blockOf sfs.dev.data sin.din j) :
    Shrunk sfs (base.setSin node sin') inodes node sin sin' := by
  obtain ⟨sins, inodeList, dBlocks, results⟩ := header
  have member := (ok.loaded node sin found).1
  obtain ⟨inside, inUse⟩ := ok.slot_inUse member present
  have keeps : KeepsOthers sfs (base.setSin node sin') inodes node := by
    have blocks := congrArg SfsSuper.blocks super
    apply ok.keepsOthers found setSin_self _ _ inodeList dBlocks results blocks (.inl superDirty)
    · intro ino other
      rw [setSin_other other, sins]
    intro other _ unowned
    apply data other
    intro some isIndirect
    apply unowned (.indirect node) rfl
    rw [ok.owns_indirect found some, isIndirect]
  have slots : ∀ j, (base.setSin node sin').slot node j =
      if j = sin.din.blocks - 1 then 0 else sfs.slot node j := by
    intro j
    rw [slot_some setSin_self, slot_some found]
    exact blockOf' j
  constructor
  · exact same
  · exact keeps
  · exact (ok.alloc.release present inside inUse).congr freemap super
  · apply ok.claims_revoke keeps member _ slots present
    · intro other
      rw [← SfsFs.inUse_release, SfsFs.InUse, SfsFs.InUse, ← super, ← freemap]
      rfl
    · rw [dinOf_some setSin_self, dinOf_some found, indirect]
  · exact setSin_self
  · exact size
  · exact blocks
  · exact dirty
  · exact indirect
  · exact slots
  · intro j _ some
    apply data
    intro someIndirect
    exact ok.owners.ne (place_slot member some) (ok.owns_indirect found someIndirect) (by simp)
  · rw [← SfsFs.freeBlocks_release inside, SfsFs.freeBlocks, SfsFs.freeBlocks, ← super, ← freemap]
    rfl

section

variable (ok : sfs.Consistent inodes) (found : sfs.sins node = some sin)

include ok found

theorem Shrunk.consistent (shrunk : Shrunk sfs next inodes node sin sin') :
    next.Consistent inodes := by
  obtain ⟨size, limit, mapped⟩ := ok.loaded_file found
  apply ok.rebuild shrunk.keeps found shrunk.found shrunk.alloc shrunk.owners shrunk.type
    shrunk.nlinks
  · rwa [shrunk.size]
  · rw [shrunk.blocks]
    omega
  · intro k below
    rw [shrunk.blocks] at below
    rw [shrunk.slots k, if_neg (by omega)]
    exact mapped k (by omega)
  · rw [shrunk.blocks]
    intro empty k beyond
    rw [shrunk.slots k]
    by_cases last : k = sin.din.blocks - 1
    · rw [if_pos last]
    · rw [if_neg last]
      exact empty k (by omega)
  · rw [shrunk.dirty]
    intro clean
    cases clean

theorem Shrunk.direct (k : Fin SFS_NDIRECT) (last : sin.din.blocks - 1 = k)
    (present : sfs.slot node (sin.din.blocks - 1) ≠ 0) :
    Shrunk sfs ((sfs.release (sfs.slot node (sin.din.blocks - 1))).setSin node
      (((sin.setDirect k 0).setBlocks (sin.din.blocks - 1)).setDirty true)) inodes node sin
      (((sin.setDirect k 0).setBlocks (sin.din.blocks - 1)).setDirty true) := by
  refine Shrunk.build ok found present ⟨rfl, rfl, rfl, rfl⟩ rfl rfl rfl
    ⟨rfl, rfl, rfl, rfl⟩ rfl rfl rfl rfl (fun _ _ => rfl) ?_
  intro j
  rw [last, ← blockOf_setDirect]
  rfl

theorem Shrunk.entry (large : SFS_NDIRECT ≤ sin.din.blocks - 1)
    (small : sin.din.blocks - 1 < SFS_MAX_BLOCKS) (someIndirect : sin.din.indirect ≠ 0)
    (present : sfs.slot node (sin.din.blocks - 1) ≠ 0) :
    Shrunk sfs (((sfs.setBlock sin.din.indirect ((sfs.dev.data sin.din.indirect).blit
      ((sin.din.blocks - 1 - SFS_NDIRECT) * 4) (leBytes 0) 0 4)).release
        (sfs.slot node (sin.din.blocks - 1))).setSin node
        ((sin.setBlocks (sin.din.blocks - 1)).setDirty true)) inodes node sin
      ((sin.setBlocks (sin.din.blocks - 1)).setDirty true) := by
  refine Shrunk.build ok found present ⟨rfl, rfl, rfl, rfl⟩ rfl rfl rfl
    ⟨rfl, rfl, rfl, rfl⟩ rfl rfl rfl rfl ?_ ?_
  · intro other notIndirect
    exact Function.update_of_ne (notIndirect someIndirect) _ _
  apply blockOf_writeEntry large small
  · omega
  · exact someIndirect
  · rfl
  · exact Function.update_self _ _ _
  · intro j isLarge isSmall
    rw [blockOf_entry isLarge isSmall someIndirect]

/-- `sfs_bmap_free_nolock` of the last block, up to the new block count. -/
theorem sfsBmapFree_ends (notEmpty : sin.din.blocks ≠ 0) :
    CallEnds (sfsBmapFreeNolock node (sin.din.blocks - 1))
      (fun _ next => ∃ sin1, next.sins node = some sin1 ∧ sin1.din.blocks = sin.din.blocks ∧
        Shrunk sfs (next.setSin node ((sin1.setBlocks (sin.din.blocks - 1)).setDirty true))
          inodes node sin ((sin1.setBlocks (sin.din.blocks - 1)).setDirty true))
      (fun _ _ => False) (fun _ => False) sfs := by
  have member := (ok.loaded node sin found).1
  obtain ⟨-, limit, mapped⟩ := ok.loaded_file found
  have present := mapped (sin.din.blocks - 1) (by omega)
  obtain ⟨inside, inUse⟩ := ok.slot_inUse member present
  simp only [sfsBmapFreeNolock, callEnds_bind, callEnds_getSin found]
  rcases index_cases (show sin.din.blocks - 1 < SFS_MAX_BLOCKS by omega) with direct | indirect
  · obtain ⟨k, isK⟩ := direct
    have isSlot : sfs.slot node (sin.din.blocks - 1) = sin.din.direct k := by
      rw [slot_some found, isK, blockOf_direct]
    have bound : sin.din.blocks - 1 < SFS_NDIRECT := isK ▸ k.isLt
    have isFin : (⟨sin.din.blocks - 1, bound⟩ : Fin SFS_NDIRECT) = k := Fin.ext isK
    rw [isSlot] at present inside inUse
    rw [dif_pos bound, isFin, if_pos present, callEnds_bind,
      callEnds_sfsBlockFree ok.device ok.alloc present inside inUse]
    refine ⟨sin.setDirect k 0, setSin_self, rfl, ?_⟩
    rw [← isSlot] at present ⊢
    rw [setSin_setSin]
    exact Shrunk.direct ok found k isK present
  obtain ⟨large, inEntry⟩ := indirect
  have someIndirect : sin.din.indirect ≠ 0 := by
    intro none
    rw [slot_some found] at present
    exact present (blockOf_noIndirect large none)
  obtain ⟨entInside, entInUse⟩ := ok.indirect_valid found someIndirect
  have isSlot : sfs.slot node (sin.din.blocks - 1) =
      leNat 4 (sfs.dev.data sin.din.indirect) ((sin.din.blocks - 1 - SFS_NDIRECT) * 4) := by
    rw [slot_some found, blockOf_entry large (by omega) someIndirect]
  obtain ⟨starts, fits⟩ := entry_fits inEntry
  rw [dif_neg (by omega), if_pos inEntry, if_pos someIndirect]
  simp only [sfsBmapFreeSubNolock, callEnds_bind, callEnds_ensure, callEnds_ite,
    callEnds_sfsBlockInuse ok.alloc someIndirect entInside, entInUse,
    callEnds_sfsRbuf ok.device entInside someIndirect starts fits, leNat_blit_copy,
    callEnds_sfsWbuf ok.device entInside someIndirect starts fits, ← isSlot]
  refine ⟨fun _ => ⟨fun _ => ?_, fun zero => absurd present zero⟩, fun wrong => wrong
    ⟨rfl, inEntry⟩⟩
  have allocOk : (sfs.setBlock sin.din.indirect ((sfs.dev.data sin.din.indirect).blit
      ((sin.din.blocks - 1 - SFS_NDIRECT) * 4) (leBytes 0) 0 4)).AllocOk := ok.alloc.congr rfl rfl
  apply (callEnds_sfsBlockFree (ok.device.setBlock _ _) allocOk present inside inUse).mpr
  refine ⟨sin, found, rfl, ?_⟩
  exact Shrunk.entry ok found large (by omega) someIndirect present

theorem sfsBmapTruncateNolock_ends (notEmpty : sin.din.blocks ≠ 0) :
    CallEnds (sfsBmapTruncateNolock node)
      (fun _ next => ∃ sin', Shrunk sfs next inodes node sin sin')
      (fun _ _ => False) (fun _ => False) sfs := by
  simp only [sfsBmapTruncateNolock, callEnds_bind, callEnds_getSin found, callEnds_ensure]
  refine ⟨fun _ => ?_, fun none => none notEmpty⟩
  apply (sfsBmapFree_ends ok found notEmpty).weaken
  · rintro _ next ⟨sin1, found1, blocks, shrunk⟩
    simp only [callEnds_getSin found1, putSin, callEnds_modify, blocks]
    exact ⟨_, shrunk⟩
  · intro _ _ failed
    exact failed

end

end Shrink

end UcoreSmp
