import UcoreSmp.SfsBlockMap

/-!
# Block I/O and block allocation without device errors

What the routines of `sfs_io.c` and the block allocator do on a device that
accepts every request: reads and writes of single blocks, and the set of free
blocks with its counter `unused_blocks`.
-/

namespace UcoreSmp

open Finset

namespace SfsFs

/-- The device accepts every request for a block of the file system.  Beyond
`2 ^ 19` blocks the byte offset of a request is negative. -/
structure DeviceOk (sfs : SfsFs) : Prop where
  results : sfs.dev.results = []
  onDisk : sfs.super.blocks ≤ sfs.dev.dBlocks
  range : sfs.super.blocks ≤ 2 ^ 19

def freeBlocks (sfs : SfsFs) : Finset Nat :=
  (range sfs.super.blocks).filter fun blkno => sfs.freemap.isFree blkno = true

/-- The bitmap covers the blocks, only blocks of the file system other than the
superblock are free, and `unused_blocks` counts them. -/
structure AllocOk (sfs : SfsFs) : Prop where
  bitmap : sfs.freemap.Ok
  covered : sfs.super.blocks ≤ sfs.freemap.nbits
  inside : ∀ blkno, sfs.freemap.isFree blkno = true → blkno ≠ 0 ∧ blkno < sfs.super.blocks
  counted : sfs.super.unusedBlocks = sfs.freeBlocks.card

def claim (sfs : SfsFs) (blkno : Nat) : SfsFs :=
  ((sfs.setFreemap (sfs.freemap.take blkno)).setUnused (sfs.super.unusedBlocks - 1)).setBlock
    blkno fun _ => 0

def release (sfs : SfsFs) (blkno : Nat) : SfsFs :=
  (sfs.setFreemap (sfs.freemap.give blkno)).setUnused (sfs.super.unusedBlocks + 1)

end SfsFs

variable {faulty : SfsFault → Prop} {failed : Int → SfsFs → Prop} {sfs : SfsFs} {blkno : Nat}

section Device

variable {buf : Bytes} {dev : BlockDevice} {post : Bytes → SfsFs → Prop}

theorem BlockDevice.popResult_nil (none : dev.results = []) : dev.popResult = dev := by
  cases dev
  cases none
  rfl

variable {write : Bool}

theorem callEnds_dopIo (results : dev.results = [])
    (range : blkno < 2 ^ 19) (onDisk : blkno < dev.dBlocks) {post : Bytes → BlockDevice → Prop}
    {failed : Int → BlockDevice → Prop} : CallEnds (dopIo buf blkno write) post failed faulty dev ↔
      if write = true then post buf (dev.setBlock blkno buf) else post (dev.data blkno) dev := by
  have block : blkno % 2 ^ 20 = blkno := Nat.mod_eq_of_lt (by omega)
  have notLast : ¬ blkno = 2 ^ 20 - 1 := by omega
  have accepted : ¬ (2 ^ 19 ≤ blkno ∨ dev.dBlocks < blkno + 1) := by omega
  have popped := BlockDevice.popResult_nil results
  cases write with
  | true =>
    simp only [dopIo, callEnds_bind, callEnds_get, callEnds_ite, block, notLast, accepted,
      callEnds_set, callEnds_modify, callEnds_pure, popped, results, List.headD_nil]
    simp
  | false =>
    simp only [dopIo, callEnds_bind, callEnds_get, callEnds_ite, block, notLast, accepted,
      callEnds_set, callEnds_pure, popped, results, List.headD_nil]
    simp

theorem callEnds_sfsRwblockNolock (ok : sfs.DeviceOk)
    {checked : Bool} (inside : blkno < sfs.super.blocks) (notSuper : blkno ≠ 0 ∨ checked = false) :
    CallEnds (sfsRwblockNolock buf blkno write checked) post failed faulty sfs ↔ if write =
      true then post buf (sfs.setBlock blkno buf) else post (sfs.dev.data blkno) sfs := by
  have range : blkno < 2 ^ 19 := inside.trans_le ok.range
  have onDisk : blkno < sfs.dev.dBlocks := inside.trans_le ok.onDisk
  simp only [sfsRwblockNolock, callEnds_bind, callEnds_get, callEnds_ensure, onDevice,
    callEnds_within, callEnds_dopIo ok.results range onDisk]
  constructor
  · intro ends
    exact ends.1 ⟨notSuper, inside⟩
  · intro ends
    exact ⟨fun _ => ends, fun outside => absurd ⟨notSuper, inside⟩ outside⟩

theorem SfsFs.DeviceOk.setBlock (ok : sfs.DeviceOk) (blkno : Nat) (bytes : Bytes) :
    (sfs.setBlock blkno bytes).DeviceOk :=
  ⟨ok.results, ok.onDisk, ok.range⟩

variable {start len offset : Nat}

section

variable (ok : sfs.DeviceOk) (inside : blkno < sfs.super.blocks) (notSuper : blkno ≠ 0)

include ok inside notSuper

theorem callEnds_sfsRbuf (starts : offset < SFS_BLKSIZE) (fits : offset + len ≤ SFS_BLKSIZE) :
    CallEnds (sfsRbuf buf start len blkno offset) post failed faulty sfs ↔
      post (buf.blit start (sfs.dev.data blkno) offset len) sfs := by
  simp only [sfsRbuf, callEnds_bind, callEnds_ensure, callEnds_pure,
    callEnds_sfsRwblockNolock ok inside (.inl notSuper)]
  simp [starts, fits]

theorem callEnds_sfsWbuf (starts : offset < SFS_BLKSIZE) (fits : offset + len ≤ SFS_BLKSIZE) :
    CallEnds (sfsWbuf buf start len blkno offset) post failed faulty sfs ↔
      post buf (sfs.setBlock blkno ((sfs.dev.data blkno).blit offset buf start len)) := by
  simp only [sfsWbuf, callEnds_bind, callEnds_ensure, callEnds_pure,
    callEnds_sfsRwblockNolock ok inside (.inl notSuper)]
  simp [starts, fits]

theorem callEnds_sfsRblock : CallEnds (sfsRblock buf start blkno 1) post failed faulty sfs ↔
      post (buf.blit start (sfs.dev.data blkno) 0 SFS_BLKSIZE) sfs := by
  simp only [sfsRblock, sfsRwblock, callEnds_bind, callEnds_pure,
    callEnds_sfsRwblockNolock ok inside (.inl notSuper)]
  simp

theorem callEnds_sfsWblock : CallEnds (sfsWblock buf start blkno 1) post failed faulty sfs ↔
      post buf (sfs.setBlock blkno fun j => buf (start + j)) := by
  simp only [sfsWblock, sfsRwblock, callEnds_bind, callEnds_pure,
    callEnds_sfsRwblockNolock ok inside (.inl notSuper)]
  simp

theorem callEnds_sfsClearBlock {post : PUnit → SfsFs → Prop} :
    CallEnds (sfsClearBlock blkno 1) post failed faulty sfs ↔
      post () (sfs.setBlock blkno fun _ => 0) := by
  simp only [sfsClearBlock, callEnds_bind, callEnds_pure,
    callEnds_sfsRwblockNolock ok inside (.inl notSuper)]
  simp

end

end Device

@[simp]
theorem SfsFs.mem_freeBlocks {other : Nat} :
    other ∈ sfs.freeBlocks ↔ other < sfs.super.blocks ∧ sfs.freemap.isFree other = true := by
  simp [SfsFs.freeBlocks]

theorem SfsFs.AllocOk.mem_freeBlocks (ok : sfs.AllocOk) :
    blkno ∈ sfs.freeBlocks ↔ sfs.freemap.isFree blkno = true := by
  rw [SfsFs.mem_freeBlocks]
  exact ⟨And.right, fun free => ⟨(ok.inside blkno free).2, free⟩⟩

theorem SfsFs.freeBlocks_claim (free : sfs.freemap.isFree blkno = true) :
    (sfs.claim blkno).freeBlocks = sfs.freeBlocks.erase blkno := by
  ext other
  rw [SfsFs.mem_freeBlocks, mem_erase, SfsFs.mem_freeBlocks]
  change other < sfs.super.blocks ∧ (sfs.freemap.take blkno).isFree other = true ↔ _
  rw [Bitmap.isFree_take free]
  simp only [ne_eq, decide_not, Bool.and_eq_true, Bool.not_eq_eq_eq_not, Bool.not_true,
    decide_eq_false_iff_not]
  tauto

theorem SfsFs.freeBlocks_release (inside : blkno < sfs.super.blocks) :
    (sfs.release blkno).freeBlocks = insert blkno sfs.freeBlocks := by
  ext other
  rw [SfsFs.mem_freeBlocks, mem_insert, SfsFs.mem_freeBlocks]
  change other < sfs.super.blocks ∧ (sfs.freemap.give blkno).isFree other = true ↔ _
  rw [Bitmap.isFree_give]
  simp only [Bool.or_eq_true, decide_eq_true_eq]
  constructor
  · tauto
  intro either
  cases either with
  | inl same =>
    subst same
    exact ⟨inside, .inr rfl⟩
  | inr old => exact ⟨old.1, .inl old.2⟩

theorem SfsFs.DeviceOk.claim (ok : sfs.DeviceOk) (blkno : Nat) : (sfs.claim blkno).DeviceOk :=
  ⟨ok.results, ok.onDisk, ok.range⟩

theorem SfsFs.DeviceOk.release (ok : sfs.DeviceOk) (blkno : Nat) : (sfs.release blkno).DeviceOk :=
  ⟨ok.results, ok.onDisk, ok.range⟩

theorem SfsFs.AllocOk.congr {next : SfsFs} (ok : sfs.AllocOk)
    (freemap : next.freemap = sfs.freemap) (super : next.super = sfs.super) : next.AllocOk := by
  obtain ⟨bitmap, covered, inside, counted⟩ := ok
  simp only [SfsFs.freeBlocks, ← freemap, ← super] at bitmap covered inside counted
  exact ⟨bitmap, covered, inside, counted⟩

theorem SfsFs.claim_inUse (free : sfs.freemap.isFree blkno = true) :
    (sfs.claim blkno).freemap.isFree blkno = false := by
  change (sfs.freemap.take blkno).isFree blkno = false
  rw [Bitmap.isFree_take free]
  simp

theorem SfsFs.AllocOk.claim (ok : sfs.AllocOk) (free : sfs.freemap.isFree blkno = true) :
    (sfs.claim blkno).AllocOk where
  bitmap := ok.bitmap.take free
  covered := ok.covered
  inside other isFree := by
    change (sfs.freemap.take blkno).isFree other = true at isFree
    exact ok.inside other (by simp_all)
  counted := by
    change sfs.super.unusedBlocks - 1 = _
    rw [SfsFs.freeBlocks_claim free, card_erase_of_mem (ok.mem_freeBlocks.mpr free), ok.counted]

section

variable (ok : sfs.AllocOk) (notSuper : blkno ≠ 0) (inside : blkno < sfs.super.blocks)
  (inUse : sfs.freemap.isFree blkno = false)

include ok notSuper inside inUse

theorem SfsFs.AllocOk.release : (sfs.release blkno).AllocOk where
  bitmap := ok.bitmap.give (inside.trans_le ok.covered)
  covered := ok.covered
  inside other isFree := by
    change (sfs.freemap.give blkno).isFree other = true at isFree
    rw [Bitmap.isFree_give] at isFree
    rcases Bool.or_eq_true_iff.mp isFree with old | new
    · exact ok.inside other old
    · rw [of_decide_eq_true new]
      exact ⟨notSuper, inside⟩
  counted := by
    change sfs.super.unusedBlocks + 1 = _
    rw [SfsFs.freeBlocks_release inside, card_insert_of_notMem, ok.counted]
    rw [ok.mem_freeBlocks, inUse]
    simp

theorem SfsFs.AllocOk.unused_lt : sfs.super.unusedBlocks < sfs.super.blocks := by
  have released := (ok.release notSuper inside inUse).counted
  have bound : (sfs.release blkno).freeBlocks.card ≤ sfs.super.blocks := by
    have filtered := card_filter_le (range sfs.super.blocks)
      fun other => (sfs.release blkno).freemap.isFree other = true
    rw [card_range] at filtered
    exact filtered
  rw [← released] at bound
  exact bound

end

theorem callEnds_sfsBlockInuse (ok : sfs.AllocOk) (notSuper : blkno ≠ 0)
    (inside : blkno < sfs.super.blocks) {post : Bool → SfsFs → Prop} :
    CallEnds (sfsBlockInuse blkno) post failed faulty sfs ↔
      post (!sfs.freemap.isFree blkno) sfs := by
  simp only [sfsBlockInuse, callEnds_bind, callEnds_get, callEnds_ite, onFreemap,
    callEnds_within, callEnds_pure, bitmapTest_ends (inside.trans_le ok.covered)]
  constructor
  · intro ends
    exact ends.1 ⟨notSuper, inside⟩
  · intro ends
    exact ⟨fun _ => ends, fun outside => absurd ⟨notSuper, inside⟩ outside⟩

/-- `sfs_block_alloc` takes a free block, or fails when there is none. -/
theorem sfsBlockAlloc_ends (device : sfs.DeviceOk) (ok : sfs.AllocOk) : CallEnds sfsBlockAlloc
      (fun taken next => sfs.freemap.isFree taken = true ∧ next = sfs.claim taken)
      (fun code next => code = -E_NO_MEM ∧ next = sfs ∧ sfs.freeBlocks = ∅)
      (fun _ => False) sfs := by
  rw [sfsBlockAlloc, callEnds_bind, onFreemap, callEnds_within]
  apply (bitmapAlloc_ends ok.bitmap).mono
  · rintro taken freemap ⟨free, -, isNext⟩
    obtain ⟨notSuper, inside⟩ := ok.inside taken free
    have some : 0 < sfs.super.unusedBlocks := by
      rw [ok.counted]
      exact card_pos.mpr ⟨taken, ok.mem_freeBlocks.mpr free⟩
    -- the bitmap and the counter are already those of the final state
    have allocOk : ((sfs.setFreemap (sfs.freemap.take taken)).setUnused
        (sfs.super.unusedBlocks - 1)).AllocOk :=
      (ok.claim free).congr rfl rfl
    have deviceOk : ((sfs.setFreemap (sfs.freemap.take taken)).setUnused
        (sfs.super.unusedBlocks - 1)).DeviceOk :=
      ⟨device.results, device.onDisk, device.range⟩
    have inUse : (sfs.freemap.take taken).isFree taken = false := SfsFs.claim_inUse free
    subst isNext
    simp only [callEnds_bind, callEnds_get, callEnds_ensure, callEnds_set]
    refine ⟨fun _ => ?_, fun none => absurd some none⟩
    apply (callEnds_sfsBlockInuse allocOk notSuper inside).mpr
    constructor
    · intro _
      exact (callEnds_sfsClearBlock deviceOk inside notSuper).mpr ⟨free, rfl⟩
    intro notInUse
    apply notInUse
    change (!(sfs.freemap.take taken).isFree taken) = true
    rw [inUse]
    rfl
  · rintro code freemap ⟨isCode, rfl, none⟩
    refine ⟨isCode, rfl, ?_⟩
    apply eq_empty_of_forall_notMem
    intro other member
    rw [ok.mem_freeBlocks, none other] at member
    cases member
  · exact fun _ stops => stops

theorem callEnds_sfsBlockFree (device : sfs.DeviceOk) (ok : sfs.AllocOk) (notSuper : blkno ≠ 0)
    (inside : blkno < sfs.super.blocks) (inUse : sfs.freemap.isFree blkno = false)
    {post : PUnit → SfsFs → Prop} :
    CallEnds (sfsBlockFree blkno) post failed faulty sfs ↔ post () (sfs.release blkno) := by
  have noWrap : (sfs.super.unusedBlocks + 1) % 2 ^ 32 = sfs.super.unusedBlocks + 1 := by
    have := ok.unused_lt notSuper inside inUse
    have := device.range
    exact Nat.mod_eq_of_lt (by omega)
  simp only [sfsBlockFree, callEnds_bind, callEnds_sfsBlockInuse ok notSuper inside,
    callEnds_ensure, onFreemap, callEnds_within,
    bitmapFree_ends (inside.trans_le ok.covered) inUse, callEnds_modify, inUse]
  change (_ → post () ((sfs.setFreemap (sfs.freemap.give blkno)).setUnused
    ((sfs.super.unusedBlocks + 1) % 2 ^ 32))) ∧ _ ↔ _
  rw [noWrap]
  simp [SfsFs.release]

end UcoreSmp
