import UcoreSmp.SfsResize

/-!
# Reading and writing a file

`sfs_io_nolock` cuts a request into a part of a first block, whole blocks and a
part of a last block.  `Copied` says how far it has come: the bytes of the file or
of the buffer that are copied, and the blocks that the file has by then.
-/

namespace UcoreSmp

open Function Bytes

variable {inodes : Finset Nat} {buf bytes : Bytes} {sfs next : SfsFs}
  {node k blkoff size offset : Nat} {sin sin' : SfsInode}

section Write

variable {content : Bytes}

section

variable (ok : sfs.Consistent inodes) (found : sfs.sins node = some sin)
  (present : sfs.slot node k ≠ 0)

include ok found present

theorem SfsFs.Consistent.slot_setBlock (j : Nat) :
    (sfs.setBlock (sfs.slot node k) content).slot node j = sfs.slot node j := by
  have member := (ok.loaded node sin found).1
  have found' : (sfs.setBlock (sfs.slot node k) content).sins node = some sin := found
  calc
    (sfs.setBlock (sfs.slot node k) content).slot node j =
        blockOf (sfs.setBlock (sfs.slot node k) content).dev.data sin.din j :=
      slot_some found'
    _ = blockOf sfs.dev.data sin.din j := by
      apply blockOf_congr
      intro someIndirect
      apply update_of_ne
      exact ok.owners.ne (ok.owns_indirect found someIndirect) (place_slot member present) (by simp)
    _ = sfs.slot node j := (slot_some found).symm

theorem SfsFs.Consistent.keepsOthers_setBlock :
    KeepsOthers sfs (sfs.setBlock (sfs.slot node k) content) inodes node := by
  have member := (ok.loaded node sin found).1
  have found' : (sfs.setBlock (sfs.slot node k) content).sins node = some sin := found
  refine ok.keepsOthers found found' (fun _ _ => rfl) ?_ rfl rfl rfl rfl (.inr ⟨rfl, rfl, rfl⟩)
  intro blkno _ unowned
  apply update_of_ne
  intro same
  apply unowned (.slot node k) rfl
  rw [place_slot member present, same]

theorem SfsFs.Consistent.setBlock : (sfs.setBlock (sfs.slot node k) content).Consistent inodes := by
  apply ok.touched (ok.keepsOthers_setBlock found present)
  · rfl
  · exact ok.slot_setBlock found present
  · exact ok.alloc.congr rfl rfl
  · intro _
    exact Iff.rfl

theorem SfsFs.Consistent.fileBytes_setBlock (position : Nat) :
    (sfs.setBlock (sfs.slot node k) content).fileBytes node position = if position / SFS_BLKSIZE =
      k then content (position % SFS_BLKSIZE) else sfs.fileBytes node position := by
  have member := (ok.loaded node sin found).1
  by_cases written : position / SFS_BLKSIZE = k
  · rw [SfsFs.fileBytes, ok.slot_setBlock found present, written, if_neg present, if_pos rfl]
    exact congrFun (update_self _ _ _) _
  rw [if_neg written]
  apply SfsFs.fileBytes_congr rfl (ok.slot_setBlock found present _)
  intro taken
  apply update_of_ne
  apply ok.owners.ne (place_slot member taken) (place_slot member present)
  intro same
  cases same
  exact written rfl

end

theorem Extended.write (extended : Extended sfs next inodes node sin sin' bytes)
    (inside : k < sin'.din.blocks) {start : Nat}
    (fits : blkoff + size ≤ SFS_BLKSIZE) (isContent : ∀ i, i < SFS_BLKSIZE →
      content i = (next.dev.data (next.slot node k)).blit blkoff buf start size i) :
    Extended sfs (next.setBlock (next.slot node k) content) inodes node sin sin'
      (bytes.blit (k * SFS_BLKSIZE + blkoff) buf start size) := by
  have ok := extended.consistent
  have found := extended.found
  have present := (ok.loaded_file found).2.2 k inside
  have slots : ∀ j, (next.setBlock (next.slot node k) content).slot node j = next.slot node j :=
    ok.slot_setBlock found present
  refine { extended with
    keeps := extended.keeps.trans (ok.keepsOthers_setBlock found present)
    consistent := ok.setBlock found present
    found := found
    beyond := fun j beyond => (slots j).trans (extended.beyond j beyond)
    slots := fun j taken => (slots j).trans (extended.slots j taken)
    contents := ?_ }
  funext position
  rw [ok.fileBytes_setBlock found present, ← extended.contents]
  unfold SFS_BLKSIZE at *
  by_cases written : position / 4096 = k
  · rw [if_pos written, isContent _ (Nat.mod_lt _ (by decide))]
    by_cases covered : blkoff ≤ position % 4096 ∧ position % 4096 < blkoff + size
    · rw [blit_inside buf covered, blit_inside buf (by omega)]
      exact congrArg buf (by omega)
    rw [blit_outside buf (by omega), blit_outside buf (by omega)]
    unfold SfsFs.fileBytes SFS_BLKSIZE
    rw [written, if_neg present]
  · rw [if_neg written, blit_outside buf (by omega)]

end Write

def fileAfter (write : Bool) (file buf : Bytes) (offset alen : Nat) : Bytes :=
  if write then file.blit offset buf 0 alen else file

def bufAfter (write : Bool) (file buf : Bytes) (offset alen : Nat) : Bytes :=
  if write then buf else buf.blit 0 file offset alen

/-- A transfer between `buf` and the file from `offset` on has moved `alen` bytes. -/
structure Copied (sfs next : SfsFs) (inodes : Finset Nat) (node : Nat) (sin sin' : SfsInode)
    (write : Bool) (buf : Bytes) (offset alen : Nat) (buf' : Bytes) : Prop where
  extended : Extended sfs next inodes node sin sin'
    (fileAfter write (sfs.fileBytes node) buf offset alen)
  buffer : buf' = bufAfter write (sfs.fileBytes node) buf offset alen
  blocks : sin'.din.blocks =
    if alen = 0 then sin.din.blocks
    else max sin.din.blocks (roundupDiv (offset + alen) SFS_BLKSIZE)

/-- Why a transfer ended early: the file ends where the next byte would go, and there
is no free block. -/
structure OutOfBlocks (sfs : SfsFs) (node : Nat) (sin sin' : SfsInode) (position : Nat) : Prop where
  atEnd : position / SFS_BLKSIZE = sin'.din.blocks
  full : sfs.freeBlocks.card < sfs.blocksNeeded node sin (sin'.din.blocks + 1)

/-- The block map overflows, although there are enough free blocks. -/
def Overflows (sfs : SfsFs) (node : Nat) (sin : SfsInode) (target : Nat) (fault : SfsFault) :
    Prop :=
  fault = .indexOutOfRange ∧ SFS_MAX_BLOCKS < target ∧
    sfs.blocksNeeded node sin SFS_MAX_BLOCKS ≤ sfs.freeBlocks.card

/-- What `sfs_buf_op` and `sfs_block_op` do with a part of the block `blkno`. -/
def MovesPart (op : Nat → SfsM Bytes) (write : Bool) (buf : Bytes) (alen size blkoff : Nat) :
    Prop :=
  ∀ (sfs : SfsFs) (blkno : Nat), sfs.DeviceOk → blkno < sfs.super.blocks → blkno ≠ 0 →
    CallEnds (op blkno) (fun buf' next =>
        if write then buf' = buf ∧ ∃ content, next = sfs.setBlock blkno content ∧
          ∀ i, i < SFS_BLKSIZE → content i = (sfs.dev.data blkno).blit blkoff buf alen size i
        else buf' = buf.blit alen (sfs.dev.data blkno) blkoff size ∧ next = sfs)
      (fun _ _ => False) (fun _ => False) sfs

section Parts

variable {alen : Nat} {write : Bool}

theorem movesPart_buf (starts : blkoff < SFS_BLKSIZE) (fits : blkoff + size ≤ SFS_BLKSIZE) :
    MovesPart (fun ino => if write then sfsWbuf buf alen size ino blkoff
      else sfsRbuf buf alen size ino blkoff) write buf alen size blkoff := by
  intro sfs blkno device inside notSuper
  cases write with
  | true =>
    apply (callEnds_sfsWbuf device inside notSuper starts fits).mpr
    exact ⟨rfl, _, rfl, fun _ _ => rfl⟩
  | false =>
    apply (callEnds_sfsRbuf device inside notSuper starts fits).mpr
    exact ⟨rfl, rfl⟩

theorem movesPart_block :
    MovesPart (fun ino => if write then sfsWblock buf alen ino 1 else sfsRblock buf alen ino 1)
      write buf alen SFS_BLKSIZE 0 := by
  intro sfs blkno device inside notSuper
  cases write with
  | true =>
    apply (callEnds_sfsWblock device inside notSuper).mpr
    refine ⟨rfl, _, rfl, ?_⟩
    intro i below
    rw [blit_inside buf (by omega), Nat.sub_zero]
  | false =>
    apply (callEnds_sfsRblock device inside notSuper).mpr
    exact ⟨rfl, rfl⟩

end Parts

section Transfer

variable {last : SfsFs} {alen : Nat} {sin'' : SfsInode} {write : Bool} {buf' : Bytes}

theorem Copied.refl (ok : sfs.Consistent inodes) (found : sfs.sins node = some sin) :
    Copied sfs sfs inodes node sin sin write buf offset 0 buf where
  extended := by
    have same : fileAfter write (sfs.fileBytes node) buf offset 0 = sfs.fileBytes node := by
      cases write <;> simp [fileAfter]
    rw [same]
    exact Extended.refl ok found
  buffer := by
    cases write <;> simp [bufAfter]
  blocks := rfl

theorem Copied.reached (copied : Copied sfs next inodes node sin sin' write buf offset alen buf')
    (start : offset / SFS_BLKSIZE ≤ sin.din.blocks) :
    (offset + alen) / SFS_BLKSIZE ≤ sin'.din.blocks := by
  rw [copied.blocks]
  by_cases first : alen = 0
  · rw [if_pos first, first]
    exact start
  rw [if_neg first]
  apply le_max_of_le_right
  unfold roundupDiv SFS_BLKSIZE
  omega

theorem roundupDiv_eq (nonempty : 0 < size) (fits : blkoff + size ≤ SFS_BLKSIZE) :
    roundupDiv (k * SFS_BLKSIZE + blkoff + size) SFS_BLKSIZE = k + 1 := by
  unfold roundupDiv SFS_BLKSIZE at *
  omega

theorem Extended.data_eq (extended : Extended sfs next inodes node sin sin' bytes)
    {i : Nat} (inside : k < sin'.din.blocks) (below : i < SFS_BLKSIZE) :
    next.dev.data (next.slot node k) i = bytes (k * SFS_BLKSIZE + i) := by
  have present := (extended.consistent.loaded_file extended.found).2.2 k inside
  have index : (k * SFS_BLKSIZE + i) / SFS_BLKSIZE = k := by
    unfold SFS_BLKSIZE at *
    omega
  have inBlock : (k * SFS_BLKSIZE + i) % SFS_BLKSIZE = i := by
    unfold SFS_BLKSIZE at *
    omega
  rw [← extended.contents, SfsFs.fileBytes, index, inBlock, if_neg present]

variable {index endpos : Nat}

section

variable (ok : sfs.Consistent inodes) (found : sfs.sins node = some sin)
  (start : offset / SFS_BLKSIZE ≤ sin.din.blocks)

include ok found start

theorem Copied.part_ends (copied : Copied sfs next inodes node sin sin' write buf offset alen buf')
    {op : Nat → SfsM Bytes} (moves : MovesPart op write buf' alen size blkoff)
    (position : offset + alen = index * SFS_BLKSIZE + blkoff) (nonempty : 0 < size)
    (fits : blkoff + size ≤ SFS_BLKSIZE) :
    CallEnds (sfsBmapLoadNolock node index >>= op) (fun buf'' last => ∃ sin'',
        Copied sfs last inodes node sin sin'' write buf offset (alen + size) buf'')
      (fun code last => code = -E_NO_MEM ∧
        Copied sfs last inodes node sin sin' write buf offset alen buf' ∧
        OutOfBlocks sfs node sin sin' (offset + alen))
      (Overflows sfs node sin (index + 1)) next := by
  have isIndex : (offset + alen) / SFS_BLKSIZE = index := by
    unfold SFS_BLKSIZE at *
    omega
  have reached := copied.reached start
  rw [isIndex] at reached
  rw [callEnds_bind]
  apply (copied.extended.load_ends ok found reached).mono
  · rintro blkno last ⟨sin'', extended, blocks, isBlock⟩
    have inside : index < sin''.din.blocks := by omega
    have consistent := extended.consistent
    have member := (consistent.loaded node sin'' extended.found).1
    have present := (consistent.loaded_file extended.found).2.2 index inside
    -- the blocks of the file reach to the end of the part
    have blocks' : sin''.din.blocks =
        max sin.din.blocks (roundupDiv (offset + (alen + size)) SFS_BLKSIZE) := by
      rw [blocks, copied.blocks, ← Nat.add_assoc, position, roundupDiv_eq nonempty fits]
      by_cases first : alen = 0
      · rw [if_pos first]
      rw [if_neg first]
      unfold roundupDiv SFS_BLKSIZE at *
      omega
    rw [← isBlock] at present
    apply (moves last blkno consistent.device (by
      rw [isBlock]
      exact (consistent.slot_inUse member (isBlock ▸ present)).1) present).mono
    · intro buf'' final outcome
      cases write with
      | true =>
        obtain ⟨sameBuf, content, isFinal, isContent⟩ := outcome
        subst isBlock isFinal
        refine ⟨sin'', ?_, ?_, ?_⟩
        · have joined := blit_append (sfs.fileBytes node) buf offset 0 alen size
          rw [Nat.zero_add] at joined
          have written := extended.write inside fits isContent
          rw [← position, copied.buffer] at written
          rw [fileAfter, if_pos rfl, ← joined]
          exact written
        · rw [sameBuf, copied.buffer]
          rfl
        · rw [if_neg (by omega)]
          exact blocks'
      | false =>
        obtain ⟨isBuf, isFinal⟩ := outcome
        subst isBlock isFinal
        refine ⟨sin'', extended, ?_, ?_⟩
        · have same : buf'.blit alen (final.dev.data (final.slot node index)) blkoff size =
              buf'.blit (0 + alen) (sfs.fileBytes node) (offset + alen) size := by
            rw [Nat.zero_add]
            apply blit_congr
            intro j below
            rw [extended.data_eq inside (by omega), position, Nat.add_assoc]
            rfl
          rw [isBuf, same, copied.buffer]
          exact blit_append buf (sfs.fileBytes node) 0 offset alen size
        · rw [if_neg (by omega)]
          exact blocks'
    · intro _ _ impossible
      exact impossible.elim
    · intro _ impossible
      exact impossible.elim
  · rintro code last ⟨isCode, atEnd, stuck, full⟩
    exact ⟨isCode, ⟨stuck, copied.buffer, copied.blocks⟩, isIndex.trans atEnd, full⟩
  · rintro fault ⟨isFault, isMax, enough⟩
    exact ⟨isFault, by omega, enough⟩

/-- The end of a transfer up to `total` bytes. -/
structure Stopped (sfs next : SfsFs) (inodes : Finset Nat) (node : Nat) (sin sin' : SfsInode)
    (write : Bool) (buf : Bytes) (offset total : Nat) (done : IoResult) : Prop where
  copied : Copied sfs next inodes node sin sin' write buf offset done.alen done.buf
  ret : (done.ret = 0 ∧ done.alen = total) ∨
    (done.ret = -E_NO_MEM ∧ done.alen < total ∧ OutOfBlocks sfs node sin sin' (offset + done.alen))

theorem ioBlocks_ends (nblks : Nat)
    (copied : Copied sfs next inodes node sin sin' write buf offset alen buf')
    (position : offset + alen = index * SFS_BLKSIZE) :
    CallEnds (ioBlocks node write buf' alen index nblks)
      (fun done last => ∃ sin'', Stopped sfs last inodes node sin sin'' write buf offset
        (alen + nblks * SFS_BLKSIZE) done)
      (fun _ _ => False) (Overflows sfs node sin (index + nblks)) next := by
  induction nblks generalizing next sin' alen buf' index with
  | zero => exact ⟨sin', copied, .inl ⟨rfl, by simp⟩⟩
  | succ nblks ih =>
    have aligned : offset + alen = index * SFS_BLKSIZE + 0 := by
      rw [position, Nat.add_zero]
    rw [ioBlocks, callEnds_bind, callEnds_attempt]
    apply (copied.part_ends ok found start movesPart_block aligned (by decide) (by simp)).mono
    · rintro buf'' last ⟨sin'', further⟩
      have nextBlock : offset + (alen + SFS_BLKSIZE) = (index + 1) * SFS_BLKSIZE := by
        rw [← Nat.add_assoc, position]
        ring
      have rest := ih further nextBlock
      rw [show alen + SFS_BLKSIZE + nblks * SFS_BLKSIZE = alen + (nblks + 1) * SFS_BLKSIZE by ring,
        show index + 1 + nblks = index + (nblks + 1) by omega] at rest
      exact rest
    · rintro code last ⟨isCode, stuck, outOfBlocks⟩
      refine ⟨sin', stuck, .inr ⟨isCode, ?_, outOfBlocks⟩⟩
      change alen < _
      unfold SFS_BLKSIZE
      omega
    · rintro fault ⟨isFault, overflow, enough⟩
      exact ⟨isFault, by omega, enough⟩

theorem ioRest_ends {nblks : Nat}
    (copied : Copied sfs next inodes node sin sin' write buf offset alen buf')
    (position : offset + alen = index * SFS_BLKSIZE)
    (isEnd : endpos / SFS_BLKSIZE = index + nblks) :
    CallEnds (ioRest node write buf' alen index nblks endpos)
      (fun done last => ∃ sin'', Stopped sfs last inodes node sin sin'' write buf offset
        (endpos - offset) done)
      (fun _ _ => False) (Overflows sfs node sin (roundupDiv endpos SFS_BLKSIZE)) next := by
  have blocksEnd : index + nblks ≤ roundupDiv endpos SFS_BLKSIZE := by
    unfold roundupDiv SFS_BLKSIZE at *
    omega
  have total : alen + nblks * SFS_BLKSIZE + endpos % SFS_BLKSIZE = endpos - offset := by
    unfold SFS_BLKSIZE at *
    omega
  rw [ioRest, callEnds_bind]
  apply (ioBlocks_ends ok found start nblks copied position).mono
  · rintro done last ⟨sin'', stopped⟩
    rw [ioTail, callEnds_ite, callEnds_pure]
    constructor
    · intro noTail
      refine ⟨sin'', stopped.copied, ?_⟩
      rcases stopped.ret with ⟨isZero, all⟩ | ⟨isCode, short, outOfBlocks⟩
      · exact .inl ⟨isZero, by omega⟩
      · exact .inr ⟨isCode, by omega, outOfBlocks⟩
    intro tail
    rw [not_or, not_not] at tail
    have all : done.alen = alen + nblks * SFS_BLKSIZE := by
      rcases stopped.ret with ⟨-, all⟩ | ⟨isCode, -⟩
      · exact all
      · rw [tail.1] at isCode
        cases isCode
    have lastPosition : offset + done.alen = (index + nblks) * SFS_BLKSIZE + 0 := by
      rw [all, ← Nat.add_assoc, position]
      ring
    have below : endpos % SFS_BLKSIZE < SFS_BLKSIZE := Nat.mod_lt _ (by decide)
    rw [callEnds_bind, callEnds_attempt]
    apply (stopped.copied.part_ends ok found start
      (movesPart_buf (by decide) (by omega)) lastPosition (by omega) (by omega)).mono
    · rintro buf'' final ⟨final', copied'⟩
      exact ⟨final', copied', .inl ⟨rfl, by rw [← total, ← all]⟩⟩
    · rintro code final ⟨isCode, stuck, outOfBlocks⟩
      refine ⟨sin'', stuck, .inr ⟨isCode, ?_, outOfBlocks⟩⟩
      change done.alen < _
      omega
    rintro fault ⟨isFault, overflow, enough⟩
    refine ⟨isFault, ?_, enough⟩
    unfold roundupDiv SFS_BLKSIZE at *
    omega
  · intro _ _ impossible
    exact impossible
  · rintro fault ⟨isFault, overflow, enough⟩
    exact ⟨isFault, by omega, enough⟩

theorem ioTransfer_ends (nonempty : offset < endpos) :
    CallEnds (ioTransfer node write buf offset endpos)
      (fun done last => ∃ sin', Stopped sfs last inodes node sin sin' write buf offset
        (endpos - offset) done)
      (fun _ _ => False) (Overflows sfs node sin (roundupDiv endpos SFS_BLKSIZE)) sfs := by
  have refl : Copied sfs sfs inodes node sin sin write buf offset 0 buf := Copied.refl ok found
  have below : offset % SFS_BLKSIZE < SFS_BLKSIZE := Nat.mod_lt _ (by decide)
  have split : offset + 0 = offset / SFS_BLKSIZE * SFS_BLKSIZE + offset % SFS_BLKSIZE := by
    rw [Nat.add_zero, Nat.div_add_mod']
  have ordered : offset / SFS_BLKSIZE ≤ endpos / SFS_BLKSIZE :=
    Nat.div_le_div_right nonempty.le
  simp only [ioTransfer, callEnds_ite]
  constructor
  · intro unaligned
    -- the first part ends with its block or with the request
    obtain ⟨size, isSize⟩ : ∃ size, size =
        if endpos / SFS_BLKSIZE - offset / SFS_BLKSIZE ≠ 0 then
          SFS_BLKSIZE - offset % SFS_BLKSIZE
        else endpos - offset := ⟨_, rfl⟩
    have sizeOk : 0 < size ∧ offset % SFS_BLKSIZE + size ≤ SFS_BLKSIZE := by
      rw [isSize]
      unfold SFS_BLKSIZE at *
      split_ifs <;> omega
    rw [← isSize, callEnds_bind, callEnds_attempt]
    apply (refl.part_ends ok found start (movesPart_buf below sizeOk.2) split sizeOk.1
      sizeOk.2).mono
    · rintro buf' next ⟨sin', copied⟩
      rw [Nat.zero_add] at copied
      rw [callEnds_ite]
      constructor
      · intro oneBlock
        rw [if_neg (by omega)] at isSize
        exact ⟨sin', copied, .inl ⟨rfl, isSize⟩⟩
      intro more
      rw [if_pos more] at isSize
      apply ioRest_ends ok found start copied
      · unfold SFS_BLKSIZE at *
        omega
      · omega
    · rintro code next ⟨isCode, stuck, outOfBlocks⟩
      exact ⟨sin, stuck, .inr ⟨isCode, by change 0 < _; omega, outOfBlocks⟩⟩
    rintro fault ⟨isFault, overflow, enough⟩
    refine ⟨isFault, ?_, enough⟩
    unfold roundupDiv SFS_BLKSIZE at *
    omega
  intro aligned
  rw [not_not] at aligned
  rw [aligned] at split
  exact ioRest_ends ok found start refl (by rw [split, Nat.add_zero]) (by omega)

end

theorem callEnds_load_outside (found : sfs.sins node = some sin) (outside : sin.din.blocks < index)
    {post : Nat → SfsFs → Prop} {failed : Int → SfsFs → Prop} {faulty : SfsFault → Prop} :
    CallEnds (sfsBmapLoadNolock node index) post failed faulty sfs ↔ faulty .loadIndex := by
  simp [sfsBmapLoadNolock, callEnds_getSin found, outside]

theorem ioTransfer_outside_ends (found : sfs.sins node = some sin)
    (outside : sin.din.blocks < offset / SFS_BLKSIZE) (nonempty : offset < endpos) :
    CallEnds (ioTransfer node write buf offset endpos) (fun _ _ => False) (fun _ _ => False)
      (fun fault => fault = .loadIndex) sfs := by
  simp only [ioTransfer, callEnds_ite, callEnds_bind, callEnds_attempt, ioChunk,
    callEnds_load_outside found outside]
  refine ⟨fun _ => trivial, fun aligned => ?_⟩
  cases isMore : endpos / SFS_BLKSIZE - offset / SFS_BLKSIZE with
  | zero =>
    have tail : endpos % SFS_BLKSIZE ≠ 0 := by
      unfold SFS_BLKSIZE at *
      omega
    simp [ioRest, ioBlocks, ioTail, tail, ioChunk, callEnds_load_outside found outside]
  | succ nblks => simp [ioRest, ioBlocks, ioBlock, callEnds_load_outside found outside]

end Transfer

/-- The range that `sfs_io_nolock` refuses; the end of the request is an `off_t`. -/
def IoInvalid (offset : Int) (len : Nat) : Prop :=
  offset < 0 ∨ SFS_MAX_FILE_SIZE ≤ offset ∨ Int.bmod (offset + len) (2 ^ 32) < offset

/-- The request moves bytes. -/
def IoRuns (sin : SfsInode) (write : Bool) (offset : Int) (len : Nat) : Prop :=
  ¬ IoInvalid offset len ∧ offset ≠ Int.bmod (offset + len) (2 ^ 32) ∧
    (write = true ∨ offset.toNat < sin.din.size)

/-- Where a request that moves bytes ends. -/
def ioStop (sin : SfsInode) (write : Bool) (offset : Int) (len : Nat) : Nat :=
  ioEnd write sin.din.size (Int.bmod (offset + len) (2 ^ 32)).toNat

instance (offset : Int) (len : Nat) : Decidable (IoInvalid offset len) :=
  inferInstanceAs (Decidable (_ ∨ _ ∨ _))

/-- `sfs_io_nolock` moved `done.alen` of `total` bytes. -/
structure Served (sfs next : SfsFs) (inodes : Finset Nat) (node : Nat) (sin sin' : SfsInode)
    (write : Bool) (buf : Bytes) (offset total : Nat) (done : IoResult) : Prop
    extends sin.Same sin' where
  keeps : KeepsOthers sfs next inodes node
  consistent : next.Consistent inodes
  found : next.sins node = some sin'
  size : sin'.din.size = max sin.din.size (offset + done.alen)
  blocks : sin'.din.blocks =
    if done.alen = 0 then sin.din.blocks
    else max sin.din.blocks (roundupDiv (offset + done.alen) SFS_BLKSIZE)
  contents : next.fileBytes node = fileAfter write (sfs.fileBytes node) buf offset done.alen
  buffer : done.buf = bufAfter write (sfs.fileBytes node) buf offset done.alen
  beyond : ∀ j, sin'.din.blocks ≤ j → next.slot node j = sfs.slot node j
  dirty : sin'.dirty = true ∨
    (offset + done.alen ≤ sin.din.size ∧ sin' = sin.setBlocks sin'.din.blocks)
  ret : (done.ret = 0 ∧ done.alen = total) ∨
    (done.ret = -E_NO_MEM ∧ done.alen < total ∧ OutOfBlocks sfs node sin sin' (offset + done.alen))

section Serve

variable {total : Nat} {write : Bool} {done : IoResult}

theorem Stopped.ioOut_ends
    (stopped : Stopped sfs next inodes node sin sin' write buf offset total done)
    (small : offset + total < 2 ^ 32) :
    CallEnds (ioOut node offset done)
      (fun done' last => done' = done ∧ ∃ sin'', Served sfs last inodes node sin sin'' write buf
        offset total done)
      (fun _ _ => False) (fun _ => False) next := by
  have extended := stopped.copied.extended
  have fits : done.alen ≤ total := by
    rcases stopped.ret with ⟨-, all⟩ | ⟨-, short, -⟩
    · exact all.le
    · exact short.le
  simp only [ioOut, callEnds_bind, callEnds_getSin extended.found, callEnds_ite, putSin,
    callEnds_modify, callEnds_pure, true_and]
  rw [extended.size]
  constructor
  · intro larger
    refine ⟨sin'.setSize (offset + done.alen), ?_⟩
    constructor
    · exact extended.toSame.trans ⟨rfl, rfl, rfl, rfl⟩
    · exact extended.keeps.trans (KeepsOthers.setSin extended.found _)
    · exact extended.consistent.setSize extended.found (by omega)
    · exact setSin_self
    · exact (Nat.max_eq_right larger.le).symm
    · exact stopped.copied.blocks
    · rw [fileBytes_setSize extended.found]
      exact extended.contents
    · exact stopped.copied.buffer
    · intro j beyond
      rw [slot_setSize extended.found]
      exact extended.beyond j beyond
    · exact .inl rfl
    · rcases stopped.ret with all | ⟨isCode, short, outOfBlocks⟩
      · exact .inl all
      · exact .inr ⟨isCode, short, outOfBlocks.atEnd, outOfBlocks.full⟩
  intro notLarger
  have enough : offset + done.alen ≤ sin.din.size := Nat.le_of_not_lt notLarger
  refine ⟨sin', ?_⟩
  constructor
  · exact extended.toSame
  · exact extended.keeps
  · exact extended.consistent
  · exact extended.found
  · exact extended.size.trans (Nat.max_eq_left enough).symm
  · exact stopped.copied.blocks
  · exact extended.contents
  · exact stopped.copied.buffer
  · exact extended.beyond
  · cases extended.dirty with
    | inl dirty => exact .inl dirty
    | inr same => exact .inr ⟨enough, same⟩
  · exact stopped.ret

theorem IoRuns.bounds {offset : Int} {len : Nat} (runs : IoRuns sin write offset len) :
    offset.toNat < ioStop sin write offset len ∧
      ioStop sin write offset len ≤ SFS_MAX_FILE_SIZE := by
  obtain ⟨valid, notEmpty, readable⟩ := runs
  unfold IoInvalid at valid
  unfold ioStop ioEnd
  split_ifs <;> grind

theorem sfsIoNolock_ends (ok : sfs.Consistent inodes) (found : sfs.sins node = some sin)
    (isFile : sin.din.type = SFS_TYPE_FILE) (buf : Bytes) (offset : Int) (len : Nat)
    (write : Bool) :
    CallEnds (sfsIoNolock node buf offset len write) (fun done next =>
        (next = sfs ∧ ¬ IoRuns sin write offset len ∧
          done = ⟨if IoInvalid offset len then -E_INVAL else 0, 0, buf⟩) ∨
        (IoRuns sin write offset len ∧ offset.toNat / SFS_BLKSIZE ≤ sin.din.blocks ∧
          ∃ sin', Served sfs next inodes node sin sin' write buf offset.toNat
            (ioStop sin write offset len - offset.toNat) done))
      (fun _ _ => False)
      (fun fault => IoRuns sin write offset len ∧
        ((fault = .loadIndex ∧ sin.din.blocks < offset.toNat / SFS_BLKSIZE) ∨
          (offset.toNat / SFS_BLKSIZE ≤ sin.din.blocks ∧
            Overflows sfs node sin (roundupDiv (ioStop sin write offset len) SFS_BLKSIZE)
              fault))) sfs := by
  have notDir : sin.din.type ≠ SFS_TYPE_DIR := by
    rw [isFile]
    decide
  simp only [sfsIoNolock, callEnds_bind, callEnds_getSin found, callEnds_ensure, callEnds_ite,
    callEnds_pure]
  refine ⟨fun _ => ⟨fun invalid => ?_, fun valid => ⟨fun empty => ?_, fun notEmpty =>
    ⟨fun atEnd => ?_, fun readable => ?_⟩⟩⟩, fun isDir => absurd notDir isDir⟩
  · have isInvalid : IoInvalid offset len := invalid
    rw [if_pos isInvalid]
    exact .inl ⟨trivial, fun runs => runs.1 isInvalid, rfl⟩
  · have isValid : ¬ IoInvalid offset len := valid
    rw [if_neg isValid]
    exact .inl ⟨trivial, fun runs => runs.2.1 empty, rfl⟩
  · have isValid : ¬ IoInvalid offset len := valid
    rw [if_neg isValid]
    refine .inl ⟨trivial, ?_, rfl⟩
    rintro ⟨-, -, isWrite | inside⟩
    · rw [atEnd.1] at isWrite
      cases isWrite
    · exact absurd atEnd.2 (by omega)
  have runs : IoRuns sin write offset len := by
    refine ⟨valid, notEmpty, ?_⟩
    cases write with
    | true => exact .inl rfl
    | false => exact .inr (by simpa using readable)
  obtain ⟨nonempty, bounded⟩ := runs.bounds
  by_cases start : offset.toNat / SFS_BLKSIZE ≤ sin.din.blocks
  · apply (ioTransfer_ends ok found start nonempty).mono
    · rintro done next ⟨sin', stopped⟩
      have small : offset.toNat + (ioStop sin write offset len - offset.toNat) < 2 ^ 32 := by
        unfold SFS_MAX_FILE_SIZE at bounded
        omega
      apply (stopped.ioOut_ends small).mono
      · rintro done' last ⟨rfl, served⟩
        exact .inr ⟨runs, start, served⟩
      · intro _ _ impossible
        exact impossible
      · intro _ impossible
        exact impossible.elim
    · intro _ _ impossible
      exact impossible
    · intro fault overflows
      exact ⟨runs, .inr ⟨start, overflows⟩⟩
  have outside : sin.din.blocks < offset.toNat / SFS_BLKSIZE := Nat.lt_of_not_le start
  apply (ioTransfer_outside_ends found outside nonempty).mono
  · intro _ _ impossible
    exact impossible.elim
  · intro _ _ impossible
    exact impossible
  · intro fault isFault
    exact ⟨runs, .inl ⟨isFault, outside⟩⟩

end Serve

end UcoreSmp
