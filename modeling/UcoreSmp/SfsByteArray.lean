import UcoreSmp.ByteSplice
import UcoreSmp.SfsOwnershipRun

/-!
# Files as arrays of bytes

To its users a file is a list of bytes.  A write that starts inside the file splices the
buffer into the list, a read returns a part of it, and no other file changes.
-/

namespace UcoreSmp

/-- The bytes of a file or directory up to its size. -/
def SfsFs.contents (sfs : SfsFs) (ino : Nat) : List UInt8 :=
  (sfs.fileBytes ino).slice 0 (sfs.dinOf ino).size

section Arrays

variable {sfs next : SfsFs} {inodes : Finset Nat} {node ino offset len : Nat} {sin sin' : SfsInode}

theorem contents_some (found : sfs.sins node = some sin) :
    sfs.contents node = (sfs.fileBytes node).slice 0 sin.din.size := by
  rw [SfsFs.contents, dinOf_some found]

theorem KeepsOthers.contents (keeps : KeepsOthers sfs next inodes node) (other : ino ≠ node)
    (member : ino ∈ inodes) : next.contents ino = sfs.contents ino := by
  have bytes : next.fileBytes ino = sfs.fileBytes ino := by
    funext position
    unfold SfsFs.fileBytes
    rw [keeps.slot other member]
    by_cases empty : sfs.slot ino (position / SFS_BLKSIZE) = 0
    · rw [if_pos empty, if_pos empty]
    · rw [if_neg empty, if_neg empty, keeps.data (.slot ino _) _ (place_slot member empty)]
      simpa [BlockOwner.file] using other
  rw [SfsFs.contents, SfsFs.contents, bytes, keeps.dinOf other member]

/-- A file whose blocks cover its size. -/
structure FileAt (sfs : SfsFs) (inodes : Finset Nat) (node : Nat) (sin : SfsInode) : Prop where
  consistent : sfs.Consistent inodes
  found : sfs.sins node = some sin
  isFile : sin.din.type = SFS_TYPE_FILE
  covered : sin.din.size ≤ sin.din.blocks * SFS_BLKSIZE

theorem FileAt.size_le (file : FileAt sfs inodes node sin) :
    sin.din.size ≤ SFS_MAX_BLOCKS * SFS_BLKSIZE := by
  have blocks := (file.consistent.files node (file.consistent.loaded node sin file.found).1).blocks
  rw [dinOf_some file.found] at blocks
  exact file.covered.trans (Nat.mul_le_mul_right _ blocks)

/-- The end of a request that fits into an `off_t`. -/
theorem bmod_eq (fits : offset + len < 2 ^ 31) :
    Int.bmod ((offset : Int) + len) (2 ^ 32) = (offset + len : Nat) := by
  rw [← Int.natCast_add, Int.bmod_eq_of_le (by omega) (by push_cast; omega)]

theorem ioInvalid_iff (fits : offset + len < 2 ^ 31) :
    IoInvalid offset len ↔ SFS_MAX_FILE_SIZE ≤ offset := by
  unfold IoInvalid
  rw [bmod_eq fits]
  omega

/-- `sfs_io_nolock` reads a part of the array. -/
theorem FileAt.read_ends (file : FileAt sfs inodes node sin) (buf : Bytes)
    (fits : offset + len < 2 ^ 31) :
    CallEnds (sfsIoNolock node buf offset len false)
      (fun done next => done.buf.slice 0 done.alen = ((sfs.contents node).drop offset).take len ∧
        (offset < SFS_MAX_FILE_SIZE → done.ret = 0) ∧
        ∀ ino ∈ inodes, next.contents ino = sfs.contents ino)
      (fun _ _ => False) (fun _ => False) sfs := by
  have sizeBound := file.size_le
  have maxBound : SFS_MAX_BLOCKS * SFS_BLKSIZE < SFS_MAX_FILE_SIZE := by decide
  have isBmod := bmod_eq fits
  have bytes : ((sfs.contents node).drop offset).take len =
      (sfs.fileBytes node).slice offset (min (offset + len) sin.din.size - offset) := by
    rw [contents_some file.found, Bytes.take_drop_slice]
  apply (sfsIoNolock_ends file.consistent file.found file.isFile buf offset len false).mono
  · intro done next outcome
    rcases outcome with ⟨same, notRuns, isDone⟩ | ⟨runs, -, sin', served⟩
    · subst same isDone
      refine ⟨?_, ?_, fun _ _ => rfl⟩
      · -- the part is empty
        have empty : min (offset + len) sin.din.size - offset = 0 := by
          by_contra nonempty
          apply notRuns
          refine ⟨?_, ?_, .inr ?_⟩
          · rw [ioInvalid_iff fits]
            omega
          · omega
          · omega
        rw [bytes, empty]
        rfl
      intro inRange
      rw [if_neg]
      rw [ioInvalid_iff fits]
      omega
    have stop : ioStop sin false offset len = min (offset + len) sin.din.size := by
      simp only [ioStop, ioEnd, isBmod, Int.toNat_natCast, true_and]
      split_ifs <;> omega
    have total : ioStop sin false offset len - (offset : Int).toNat =
        min (offset + len) sin.din.size - offset := by
      rw [stop, Int.toNat_natCast]
    rw [total, Int.toNat_natCast] at served
    have all : done.ret = 0 ∧ done.alen = min (offset + len) sin.din.size - offset := by
      rcases served.ret with all | ⟨-, short, outOfBlocks⟩
      · exact all
      -- a read does not reach the end of the blocks
      have atEnd := outOfBlocks.atEnd
      have covered := file.covered
      have blocks := served.blocks
      exfalso
      have more : sin.din.blocks ≤ sin'.din.blocks := by
        rw [blocks]
        split_ifs
        · exact le_rfl
        · exact le_max_left _ _
      unfold SFS_BLKSIZE at *
      omega
    have buffer := served.buffer
    rw [bufAfter, if_neg (by decide)] at buffer
    refine ⟨?_, fun _ => all.1, ?_⟩
    · rw [buffer, Bytes.slice_blit_copy, bytes, all.2]
    intro ino member
    by_cases isNode : ino = node
    · subst isNode
      have size : sin'.din.size = sin.din.size := by
        have inside : offset < sin.din.size := by simpa using runs.2.2
        rw [served.size, all.2]
        omega
      rw [contents_some served.found, contents_some file.found, served.contents, size,
        fileAfter, if_neg (by decide)]
    · exact served.keeps.contents isNode member
  · exact fun _ _ impossible => impossible
  rintro fault ⟨runs, ⟨-, outside⟩ | ⟨-, -, overflow, -⟩⟩
  · have inside : offset < sin.din.size := by simpa using runs.2.2
    have covered := file.covered
    unfold SFS_BLKSIZE at *
    omega
  have stop : ioStop sin false offset len ≤ sin.din.size := by
    simp only [ioStop, ioEnd, true_and]
    split_ifs <;> omega
  unfold roundupDiv SFS_BLKSIZE at *
  omega

/-- A range that ends beyond an `off_t` is refused. -/
theorem FileAt.read_refused (file : FileAt sfs inodes node sin) (buf : Bytes)
    (isOffset : offset < 2 ^ 31) (isLen : len < 2 ^ 32) (beyond : 2 ^ 31 ≤ offset + len) :
    sfsIoNolock node buf offset len false sfs = .ok (.ok ⟨-E_INVAL, 0, buf⟩, sfs) := by
  have invalid : IoInvalid offset len := by
    right; right
    rw [Int.bmod_def]
    split_ifs <;> omega
  have ends := sfsIoNolock_ends file.consistent file.found file.isFile buf offset len false
  obtain ⟨done, next, returns, ⟨rfl, -, rfl⟩ | ⟨runs, -⟩⟩ :=
    (ends.mono (fun _ _ => id) (fun _ _ => id) fun _ stops => stops.1.1 invalid).exists_result
  · rw [returns, if_pos invalid]
  · exact absurd invalid runs.1

structure Spliced (sfs next : SfsFs) (inodes : Finset Nat) (node offset len : Nat)
    (buf : Bytes) (sin sin' : SfsInode) : Prop where
  file : FileAt next inodes node sin'
  contents : next.contents node = splice (sfs.contents node) offset (buf.slice 0 len)
  size : sin'.din.size = max sin.din.size (offset + len)
  others : ∀ ino ∈ inodes, ino ≠ node →
    next.contents ino = sfs.contents ino ∧ (next.dinOf ino).size = (sfs.dinOf ino).size

/-- `sfs_io_nolock` writes over a part of the array, unless the disk is full. -/
theorem FileAt.write_ends (file : FileAt sfs inodes node sin) (buf : Bytes)
    (start : offset ≤ sin.din.size) (fits : offset + len ≤ SFS_MAX_BLOCKS * SFS_BLKSIZE) :
    CallEnds (sfsIoNolock node buf offset len true) (fun done next =>
        (done.ret = -E_NO_MEM ∧ sfs.freeBlocks.card <
          sfs.blocksNeeded node sin (roundupDiv (offset + len) SFS_BLKSIZE)) ∨
        (done.ret = 0 ∧ done.alen = len ∧ ∃ sin', Spliced sfs next inodes node offset len buf
          sin sin'))
      (fun _ _ => False) (fun _ => False) sfs := by
  have maxBound : SFS_MAX_BLOCKS * SFS_BLKSIZE < SFS_MAX_FILE_SIZE := by decide
  have small : offset + len < 2 ^ 31 :=
    fits.trans_lt (by decide)
  have isBmod := bmod_eq small
  have startBlock : offset / SFS_BLKSIZE ≤ sin.din.blocks := by
    have covered := file.covered
    unfold SFS_BLKSIZE at *
    omega
  have stop : ioStop sin true offset len = offset + len := by
    simp only [ioStop, ioEnd, isBmod, Int.toNat_natCast]
    simp only [Bool.true_eq_false, false_and, if_false]
    split_ifs <;> omega
  apply (sfsIoNolock_ends file.consistent file.found file.isFile buf offset len true).mono
  · intro done next outcome
    rcases outcome with ⟨same, notRuns, isDone⟩ | ⟨-, -, sin', served⟩
    · -- nothing to write
      have valid : ¬ IoInvalid offset len := by
        rw [ioInvalid_iff small]
        omega
      have empty : len = 0 := by
        by_contra nonempty
        apply notRuns
        refine ⟨valid, ?_, .inl rfl⟩
        omega
      subst same isDone empty
      rw [if_neg valid]
      refine .inr ⟨rfl, rfl, sin, file, ?_, ?_, fun _ _ _ => ⟨rfl, rfl⟩⟩
      · exact (splice_nil _ _).symm
      · omega
    rw [stop, Int.toNat_natCast, Nat.add_sub_cancel_left] at served
    rcases served.ret with ⟨isZero, all⟩ | ⟨isCode, short, outOfBlocks⟩
    · have size : sin'.din.size = max sin.din.size (offset + len) := by
        rw [served.size, all]
      refine .inr ⟨isZero, all, sin', ?_, ?_, size, ?_⟩
      · refine ⟨served.consistent, served.found, served.type.trans file.isFile, ?_⟩
        have blocks := served.blocks
        have covered := file.covered
        rw [all] at blocks
        by_cases empty : len = 0
        · rw [if_pos empty] at blocks
          rw [blocks]
          omega
        rw [if_neg empty] at blocks
        unfold roundupDiv SFS_BLKSIZE at *
        omega
      · rw [contents_some served.found, contents_some file.found, size, served.contents, all,
          fileAfter, if_pos rfl]
        exact Bytes.slice_blit _ _ start len
      · intro ino member other
        exact ⟨served.keeps.contents other member, by rw [served.keeps.dinOf other member]⟩
    refine .inl ⟨isCode, outOfBlocks.full.trans_le ?_⟩
    apply SfsFs.blocksNeeded_mono
    have atEnd := outOfBlocks.atEnd
    unfold roundupDiv SFS_BLKSIZE at *
    omega
  · exact fun _ _ impossible => impossible
  intro fault outcome
  rw [stop, Int.toNat_natCast] at outcome
  obtain ⟨-, ⟨-, outside⟩ | ⟨-, -, overflow, -⟩⟩ := outcome
  · omega
  · unfold roundupDiv SFS_BLKSIZE at *
    omega

end Arrays

/-- Without a disk-full error, writing inside a file splices the buffer into the array of its
bytes, reading afterwards returns the bytes of that array up to its size, for every range that
ends within an `off_t`, and refuses every other range, and the other files and directories
stay as they are. -/
theorem sfs_io_refines_array {sfs : SfsFs} {inodes : Finset Nat} {node : Nat} {sin : SfsInode}
    (consistent : sfs.Consistent inodes) (found : sfs.sins node = some sin)
    (isFile : sin.din.type = SFS_TYPE_FILE) (covered : sin.din.size ≤ sin.din.blocks * SFS_BLKSIZE)
    (buf : Bytes) (offset len : Nat) (start : offset ≤ sin.din.size)
    (fits : offset + len ≤ (SFS_NDIRECT + SFS_BLK_NENTRY) * SFS_BLKSIZE) :
    ∃ done next, sfsIoNolock node buf offset len true sfs = .ok (.ok done, next) ∧
      (sfs.blocksNeeded node sin (roundupDiv (offset + len) SFS_BLKSIZE) ≤ sfs.freeBlocks.card →
        done.ret = 0) ∧
      (done.ret ≠ -E_NO_MEM → done.ret = 0 ∧ done.alen = len ∧
        next.contents node = splice (sfs.contents node) offset (buf.slice 0 len) ∧
        (next.dinOf node).size = max sin.din.size (offset + len) ∧
        (∀ ino ∈ inodes, ino ≠ node → next.contents ino = sfs.contents ino ∧
          (next.dinOf ino).size = (sfs.dinOf ino).size) ∧
        ∀ (readBuf : Bytes) (readOffset readLen : Nat),
          (readOffset + readLen < 2 ^ 31 → ∃ read last,
            sfsIoNolock node readBuf readOffset readLen false next = .ok (.ok read, last) ∧
            read.buf.slice 0 read.alen = ((next.contents node).drop readOffset).take readLen ∧
            (readOffset < SFS_MAX_FILE_SIZE → read.ret = 0) ∧
            ∀ ino ∈ inodes, last.contents ino = next.contents ino) ∧
          (readOffset < 2 ^ 31 → readLen < 2 ^ 32 → 2 ^ 31 ≤ readOffset + readLen →
            sfsIoNolock node readBuf readOffset readLen false next =
              .ok (.ok ⟨-E_INVAL, 0, readBuf⟩, next))) := by
  have file : FileAt sfs inodes node sin := ⟨consistent, found, isFile, covered⟩
  obtain ⟨done, next, returns, outcome⟩ := (file.write_ends buf start fits).exists_result
  refine ⟨done, next, returns, ?_, ?_⟩
  · intro enough
    rcases outcome with ⟨-, full⟩ | ⟨isZero, -⟩
    · omega
    · exact isZero
  intro notFull
  rcases outcome with ⟨isCode, -⟩ | ⟨isZero, all, sin', spliced⟩
  · exact absurd isCode notFull
  refine ⟨isZero, all, spliced.contents, ?_, spliced.others, ?_⟩
  · rw [dinOf_some spliced.file.found, spliced.size]
  intro readBuf readOffset readLen
  refine ⟨fun readFits => ?_, spliced.file.read_refused readBuf⟩
  obtain ⟨read, last, readReturns, bytes, isRet, others⟩ :=
    (spliced.file.read_ends readBuf readFits).exists_result
  exact ⟨read, last, readReturns, bytes, isRet, others⟩

theorem sampleImage_fileAt :
    FileAt ((sampleImage 4).load 3) {1, 3} 3 ⟨emptyDin SFS_TYPE_FILE, false, 1, 1⟩ := by
  have kept : SfsKept (sampleImage 4) {1, 3} := sampleImage_kept (by decide)
  refine ⟨kept.consistent.load (by simp) rfl, ?_, rfl, Nat.zero_le _⟩
  rw [load_found]
  have isDin : SfsDiskInode.ofBytes ((sampleImage 4).dev.data 3) = emptyDin SFS_TYPE_FILE :=
    emptyDin_ofBytes (by decide)
  rw [isDin]

/-- Three bytes written to the empty file. -/
theorem sfs_io_refines_array_three_bytes :
    ∃ done next, sfsIoNolock 3 (fun j => UInt8.ofNat (65 + j)) (0 : Nat) 3 true
        ((sampleImage 4).load 3) = .ok (.ok done, next) ∧
      done.alen = 3 ∧ next.contents 3 = [65, 66, 67] := by
  have file := sampleImage_fileAt
  obtain ⟨done, next, returns, enough, refines⟩ := sfs_io_refines_array file.consistent
    file.found file.isFile file.covered (fun j => UInt8.ofNat (65 + j)) 0 3 (by decide) (by decide)
  have isZero : done.ret = 0 := enough (by decide)
  obtain ⟨-, all, contents, -⟩ := refines (by rw [isZero]; decide)
  exact ⟨done, next, returns, all, contents.trans (by decide)⟩

/-- A read of `2 ^ 31` bytes ends beyond an `off_t` and returns none of them. -/
theorem sfs_io_read_too_long_refused :
    FileAt ((sampleImage 4).load 3) {1, 3} 3 ⟨emptyDin SFS_TYPE_FILE, false, 1, 1⟩ ∧
      ∃ done next read last, sfsIoNolock 3 (fun j => UInt8.ofNat (65 + j)) (0 : Nat) 3 true
          ((sampleImage 4).load 3) = .ok (.ok done, next) ∧ done.ret = 0 ∧
        sfsIoNolock 3 (fun _ => 0) (0 : Nat) (2 ^ 31) false next = .ok (.ok read, last) ∧
        read.ret = -E_INVAL ∧ read.buf.slice 0 read.alen = [] ∧
        ((next.contents 3).drop 0).take (2 ^ 31) = [65, 66, 67] := by
  exact ⟨sampleImage_fileAt, _, _, _, _, rfl, rfl, rfl, rfl, rfl, rfl⟩

end UcoreSmp
