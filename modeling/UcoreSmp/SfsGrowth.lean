import UcoreSmp.SfsOwnership

/-!
# Growing a file by one block

`sfs_bmap_load_nolock` at the end of a file.  The new block goes into a direct
slot, into an entry of the indirect block, or into the first entry of a new
indirect block; `Attached` lists the three states that can result.
-/

namespace UcoreSmp

open Function SfsFs Finset

def SfsFs.attachEntry (sfs : SfsFs) (ent index blkno : Nat) : SfsFs :=
  (sfs.claim blkno).setBlock ent
    (((sfs.claim blkno).dev.data ent).blit (index * 4) (leBytes blkno) 0 4)

/-- The states after a block was attached to an empty slot of a file. -/
inductive Attached (sfs : SfsFs) (node : Nat) (sin : SfsInode) (index : Nat) : Nat → SfsFs → Prop
  | direct (k : Fin SFS_NDIRECT) (blkno : Nat) : index = k →
      sfs.freemap.isFree blkno = true →
      Attached sfs node sin index blkno ((sfs.claim blkno).setSin node (sin.setDirect k blkno))
  | entry (blkno : Nat) : SFS_NDIRECT ≤ index → index < SFS_MAX_BLOCKS →
      sin.din.indirect ≠ 0 → sfs.freemap.isFree blkno = true →
      Attached sfs node sin index blkno
        (sfs.attachEntry sin.din.indirect (index - SFS_NDIRECT) blkno)
  | indirect (ent blkno : Nat) : SFS_NDIRECT ≤ index → index < SFS_MAX_BLOCKS →
      sin.din.indirect = 0 → sfs.freemap.isFree ent = true →
      sfs.freemap.isFree blkno = true → blkno ≠ ent →
      Attached sfs node sin index blkno
        (((sfs.claim ent).attachEntry ent (index - SFS_NDIRECT) blkno).setSin node
          (sin.setIndirect ent))

/-- The states after an allocation failed: nothing happened, or a block was taken for
an indirect block and given back. -/
inductive NotAttached (sfs : SfsFs) (sin : SfsInode) (index : Nat) : SfsFs → Prop
  | full : sfs.freeBlocks = ∅ → NotAttached sfs sin index sfs
  | last (ent : Nat) : SFS_NDIRECT ≤ index → sin.din.indirect = 0 →
      sfs.freemap.isFree ent = true → sfs.freeBlocks.erase ent = ∅ →
      NotAttached sfs sin index ((sfs.claim ent).release ent)

variable {sfs : SfsFs} {ent index : Nat} {create : Bool} {failed : Int → SfsFs → Prop}
  {faulty : SfsFault → Prop} {sin : SfsInode} {post : Nat → SfsFs → Prop} {inodes : Finset Nat}

section Sub

variable {entp : Nat}

theorem entry_fits (small : index < SFS_BLK_NENTRY) :
    index * 4 < SFS_BLKSIZE ∧ index * 4 + 4 ≤ SFS_BLKSIZE := by
  unfold SFS_BLK_NENTRY SFS_BLKSIZE at *
  omega

theorem bmapSubCreate_ends (device : sfs.DeviceOk) (ok : sfs.AllocOk) (notSuper : ent ≠ 0)
    (inside : ent < sfs.super.blocks) (inUse : sfs.freemap.isFree ent = false)
    (small : index < SFS_BLK_NENTRY) :
    CallEnds (bmapSubCreate entp ent (index * 4))
      (fun result next => result.1 = ent ∧ sfs.freemap.isFree result.2 = true ∧
        next = sfs.attachEntry ent index result.2)
      (fun code next => code = -E_NO_MEM ∧ sfs.freeBlocks = ∅ ∧
        next = if ent ≠ entp then sfs.release ent else sfs)
      (fun _ => False) sfs := by
  obtain ⟨starts, fits⟩ := entry_fits small
  rw [bmapSubCreate, callEnds_bind, callEnds_attempt]
  apply (sfsBlockAlloc_ends device ok).weaken
  · rintro blkno next ⟨free, rfl⟩
    simp only [callEnds_bind, callEnds_attempt]
    apply (callEnds_sfsWbuf (device.claim blkno) inside notSuper starts fits).mpr
    exact ⟨rfl, free, rfl⟩
  rintro code next ⟨isCode, rfl, full⟩
  simp only [callEnds_bind, bmapSubCleanup, callEnds_ite, callEnds_pure, callEnds_throw,
    callEnds_sfsBlockFree device ok notSuper inside inUse]
  constructor
  · intro new
    rw [if_pos new]
    exact ⟨isCode, full, rfl⟩
  intro old
  rw [if_neg old]
  exact ⟨isCode, full, rfl⟩

/-- The entry that `sfs_bmap_get_sub_nolock` finds in the indirect block. -/
theorem callEnds_getSub_entry (device : sfs.DeviceOk) (notSuper : entp ≠ 0)
    (inside : entp < sfs.super.blocks) (small : index < SFS_BLK_NENTRY)
    (found : leNat 4 (sfs.dev.data entp) (index * 4) ≠ 0 ∨ create = false)
    {post : Nat × Nat → SfsFs → Prop} :
    CallEnds (sfsBmapGetSubNolock entp index create) post failed faulty sfs ↔
      post (entp, leNat 4 (sfs.dev.data entp) (index * 4)) sfs := by
  obtain ⟨starts, fits⟩ := entry_fits small
  simp only [sfsBmapGetSubNolock, callEnds_bind, callEnds_ensure, callEnds_ite, callEnds_pure,
    callEnds_sfsRbuf device inside notSuper starts fits, leNat_blit_copy]
  simp [small, notSuper, found]

theorem getSub_create_entry_ends (device : sfs.DeviceOk) (ok : sfs.AllocOk) (notSuper : entp ≠ 0)
    (inside : entp < sfs.super.blocks) (inUse : sfs.freemap.isFree entp = false)
    (small : index < SFS_BLK_NENTRY) (empty : leNat 4 (sfs.dev.data entp) (index * 4) = 0) :
    CallEnds (sfsBmapGetSubNolock entp index true)
      (fun result next => result.1 = entp ∧ sfs.freemap.isFree result.2 = true ∧
        next = sfs.attachEntry entp index result.2)
      (fun code next => code = -E_NO_MEM ∧ sfs.freeBlocks = ∅ ∧ next = sfs)
      (fun _ => False) sfs := by
  obtain ⟨starts, fits⟩ := entry_fits small
  simp only [sfsBmapGetSubNolock, callEnds_bind, callEnds_ensure, callEnds_ite, callEnds_pure,
    callEnds_sfsRbuf device inside notSuper starts fits, leNat_blit_copy]
  refine ⟨fun _ => ⟨fun _ => ⟨?_, ?_⟩, fun super => absurd notSuper super⟩,
    fun large => large small⟩
  · intro present
    simp [empty] at present
  intro _
  apply (bmapSubCreate_ends device ok notSuper inside inUse small).weaken
  · intro result next outcome
    exact outcome
  · intro code next outcome
    simpa using outcome

theorem getSub_create_indirect_ends (device : sfs.DeviceOk) (ok : sfs.AllocOk)
    (small : index < SFS_BLK_NENTRY) :
    CallEnds (sfsBmapGetSubNolock 0 index true)
      (fun result next => sfs.freemap.isFree result.1 = true ∧
        sfs.freemap.isFree result.2 = true ∧ result.2 ≠ result.1 ∧
        next = (sfs.claim result.1).attachEntry result.1 index result.2)
      (fun code next => code = -E_NO_MEM ∧ ((sfs.freeBlocks = ∅ ∧ next = sfs) ∨
        ∃ ent, sfs.freemap.isFree ent = true ∧ sfs.freeBlocks.erase ent = ∅ ∧
          next = (sfs.claim ent).release ent))
      (fun _ => False) sfs := by
  simp only [sfsBmapGetSubNolock, callEnds_bind, callEnds_ensure, callEnds_ite, callEnds_pure]
  refine ⟨fun _ => ⟨fun notZero => absurd rfl notZero, fun _ =>
    ⟨fun noCreate => (by cases noCreate), fun _ => ?_⟩⟩, fun large => large small⟩
  apply (sfsBlockAlloc_ends device ok).weaken
  · rintro ent next ⟨free, rfl⟩
    obtain ⟨notSuper, inside⟩ := ok.inside ent free
    apply (bmapSubCreate_ends (device.claim ent) (ok.claim free) notSuper inside
      (claim_inUse free) small).weaken
    · rintro result next ⟨rfl, freeToo, isNext⟩
      change (sfs.freemap.take result.1).isFree result.2 = true at freeToo
      rw [Bitmap.isFree_take free] at freeToo
      simp only [ne_eq, decide_not, Bool.and_eq_true, Bool.not_eq_eq_eq_not, Bool.not_true,
        decide_eq_false_iff_not] at freeToo
      exact ⟨free, freeToo.1, freeToo.2, isNext⟩
    rintro code next ⟨isCode, full, isNext⟩
    rw [if_pos notSuper] at isNext
    rw [freeBlocks_claim free] at full
    exact ⟨isCode, .inr ⟨ent, free, full, isNext⟩⟩
  · rintro code next ⟨isCode, same, full⟩
    exact ⟨isCode, .inl ⟨full, same⟩⟩

end Sub

variable {node blkno : Nat} {data : Nat → Bytes} {din : SfsDiskInode} {next : SfsFs}
  {sin' : SfsInode}

theorem callEnds_getSin (found : sfs.sins node = some sin) {post : SfsInode → SfsFs → Prop} :
    CallEnds (getSin node) post failed faulty sfs ↔ post sin sfs := by
  simp only [getSin, callEnds_bind, callEnds_get, found, callEnds_pure]

theorem index_cases (small : index < SFS_MAX_BLOCKS) : (∃ k : Fin SFS_NDIRECT, index = k) ∨
      (SFS_NDIRECT ≤ index ∧ index - SFS_NDIRECT < SFS_BLK_NENTRY) := by
  by_cases direct : index < SFS_NDIRECT
  · exact .inl ⟨⟨index, direct⟩, rfl⟩
  · unfold SFS_MAX_BLOCKS at small
    exact .inr ⟨by omega, by omega⟩

theorem blockOf_direct (data : Nat → Bytes) (din : SfsDiskInode) (k : Fin SFS_NDIRECT) :
    blockOf data din k = din.direct k := by
  rw [blockOf, dif_pos k.isLt]

theorem blockOf_entry (large : SFS_NDIRECT ≤ index)
    (small : index < SFS_MAX_BLOCKS) (present : din.indirect ≠ 0) :
    blockOf data din index = leNat 4 (data din.indirect) ((index - SFS_NDIRECT) * 4) := by
  rw [blockOf, dif_neg (by omega), if_pos ⟨small, present⟩]

theorem blockOf_noIndirect
    (large : SFS_NDIRECT ≤ index) (none : din.indirect = 0) : blockOf data din index = 0 := by
  rw [blockOf, dif_neg (by omega), if_neg (by simp [none])]

theorem bmapGetRange_direct (k : Fin SFS_NDIRECT) (create : Bool) :
    bmapGetRange node k create = bmapGetDirect node k create := by
  rw [bmapGetRange, dif_pos k.isLt]

theorem bmapGetRange_indirect (large : SFS_NDIRECT ≤ index)
    (small : index - SFS_NDIRECT < SFS_BLK_NENTRY) (create : Bool) :
    bmapGetRange node index create = bmapGetIndirect node (index - SFS_NDIRECT) create := by
  rw [bmapGetRange, dif_neg (by omega), if_pos small]

theorem callEnds_bmapGetRange (device : sfs.DeviceOk) (found : sfs.sins node = some sin)
    (small : index < SFS_MAX_BLOCKS)
    (valid : sin.din.indirect ≠ 0 → sin.din.indirect < sfs.super.blocks)
    (present : blockOf sfs.dev.data sin.din index ≠ 0 ∨ create = false) :
    CallEnds (bmapGetRange node index create) post failed faulty sfs ↔
      post (blockOf sfs.dev.data sin.din index) sfs := by
  rcases index_cases small with direct | indirect
  · obtain ⟨k, rfl⟩ := direct
    rw [blockOf_direct] at present ⊢
    simp only [bmapGetRange_direct, bmapGetDirect, callEnds_bind, callEnds_getSin found,
      callEnds_ite, callEnds_pure]
    have keep : ¬ (sin.din.direct k = 0 ∧ create = true) := by
      rintro ⟨zero, isCreate⟩
      simp [zero, isCreate] at present
    exact ⟨fun ends => ends.2 keep, fun ends => ⟨fun both => absurd both keep, fun _ => ends⟩⟩
  obtain ⟨large, inEntry⟩ := indirect
  simp only [bmapGetRange_indirect large inEntry, bmapGetIndirect, callEnds_bind,
    callEnds_getSin found]
  by_cases some : sin.din.indirect ≠ 0
  · rw [blockOf_entry large small some] at present ⊢
    rw [callEnds_getSub_entry device some (valid some) inEntry present]
    simp
  rw [not_not] at some
  rw [blockOf_noIndirect large some] at present ⊢
  have noCreate : create = false := by simpa using present
  simp [sfsBmapGetSubNolock, some, noCreate, inEntry]

theorem bmapGetRange_create_ends (device : sfs.DeviceOk) (ok : sfs.AllocOk)
    (found : sfs.sins node = some sin) (small : index < SFS_MAX_BLOCKS)
    (valid : sin.din.indirect ≠ 0 → sin.din.indirect < sfs.super.blocks ∧
      sfs.freemap.isFree sin.din.indirect = false)
    (empty : blockOf sfs.dev.data sin.din index = 0) :
    CallEnds (bmapGetRange node index true)
      (fun blkno next => Attached sfs node sin index blkno next)
      (fun code next => code = -E_NO_MEM ∧ NotAttached sfs sin index next)
      (fun _ => False) sfs := by
  rcases index_cases small with direct | indirect
  · obtain ⟨k, rfl⟩ := direct
    rw [blockOf_direct] at empty
    simp only [bmapGetRange_direct, bmapGetDirect, callEnds_bind, callEnds_getSin found,
      callEnds_ite, callEnds_pure]
    refine ⟨fun _ => ?_, fun notEmpty => absurd ⟨empty, trivial⟩ notEmpty⟩
    apply (sfsBlockAlloc_ends device ok).weaken
    · rintro blkno next ⟨free, rfl⟩
      exact Attached.direct k blkno rfl free
    rintro code next ⟨isCode, rfl, full⟩
    exact ⟨isCode, NotAttached.full full⟩
  obtain ⟨large, inEntry⟩ := indirect
  simp only [bmapGetRange_indirect large inEntry, bmapGetIndirect, callEnds_bind,
    callEnds_getSin found]
  by_cases some : sin.din.indirect ≠ 0
  · rw [blockOf_entry large small some] at empty
    apply (getSub_create_entry_ends device ok some (valid some).1 (valid some).2 inEntry
      empty).weaken
    · rintro result next ⟨sameEnt, free, rfl⟩
      simp only [callEnds_ite, callEnds_pure]
      exact ⟨fun changed => absurd sameEnt changed,
        fun _ => Attached.entry result.2 large small some free⟩
    rintro code next ⟨isCode, full, rfl⟩
    exact ⟨isCode, NotAttached.full full⟩
  rw [not_not] at some
  rw [some]
  apply (getSub_create_indirect_ends device ok inEntry).weaken
  · rintro result next ⟨freeEnt, free, distinct, rfl⟩
    have notZero := (ok.inside result.1 freeEnt).1
    simp only [callEnds_ite, callEnds_bind, callEnds_ensure, putSin, callEnds_modify, callEnds_pure]
    exact ⟨fun _ => ⟨fun _ => Attached.indirect result.1 result.2 large small some freeEnt
      free distinct, fun absurdity => absurdity trivial⟩, fun same => absurd notZero same⟩
  rintro code next ⟨isCode, either⟩
  refine ⟨isCode, ?_⟩
  cases either with
  | inl full =>
    obtain ⟨full, rfl⟩ := full
    exact NotAttached.full full
  | inr last =>
    obtain ⟨ent, free, onlyOne, rfl⟩ := last
    exact NotAttached.last ent large some free onlyOne

/-- The number of blocks that the next block of a file needs. -/
def SfsFs.growCost (sfs : SfsFs) (node : Nat) (sin : SfsInode) : Nat :=
  if sfs.slot node sin.din.blocks ≠ 0 then 0
  else if SFS_NDIRECT ≤ sin.din.blocks ∧ sin.din.indirect = 0 then 2
  else 1

/-- What an inode keeps when the blocks and the size of its file change. -/
structure SfsInode.Same (sin sin' : SfsInode) : Prop where
  type : sin'.din.type = sin.din.type
  nlinks : sin'.din.nlinks = sin.din.nlinks
  refCount : sin'.refCount = sin.refCount
  reclaimCount : sin'.reclaimCount = sin.reclaimCount

namespace SfsInode.Same

theorem refl (sin : SfsInode) : sin.Same sin := ⟨rfl, rfl, rfl, rfl⟩

theorem trans {sin sin' sin'' : SfsInode} (first : sin.Same sin') (later : sin'.Same sin'') :
    sin.Same sin'' where
  type := later.type.trans first.type
  nlinks := later.nlinks.trans first.nlinks
  refCount := later.refCount.trans first.refCount
  reclaimCount := later.reclaimCount.trans first.reclaimCount

end SfsInode.Same

structure Grown (sfs next : SfsFs) (inodes : Finset Nat) (node blkno : Nat)
    (sin sin' : SfsInode) : Prop extends sin.Same sin' where
  keeps : KeepsOthers sfs next inodes node
  alloc : next.AllocOk
  owners : Claims (next.place inodes) next.InUse
  found : next.sins node = some sin'
  size : sin'.din.size = sin.din.size
  blocks : sin'.din.blocks = sin.din.blocks + 1
  present : blkno ≠ 0
  slots : ∀ j, next.slot node j = if j = sin.din.blocks then blkno else sfs.slot node j
  data : ∀ j, j ≠ sin.din.blocks → sfs.slot node j ≠ 0 →
    next.dev.data (sfs.slot node j) = sfs.dev.data (sfs.slot node j)
  kept : sfs.slot node sin.din.blocks ≠ 0 → blkno = sfs.slot node sin.din.blocks
  content : next.dev.data blkno =
    if sfs.slot node sin.din.blocks = 0 then fun _ => 0 else sfs.dev.data blkno
  cost : next.freeBlocks.card + sfs.growCost node sin = sfs.freeBlocks.card
  dirty : sin'.dirty = true ∨ (sin' = sin.setBlocks (sin.din.blocks + 1) ∧
    (sfs.slot node sin.din.blocks = 0 → SFS_NDIRECT ≤ sin.din.blocks ∧ sin.din.indirect ≠ 0))
  indirect : sin'.din.indirect = 0 ↔ sin.din.indirect = 0 ∧ sin.din.blocks < SFS_NDIRECT

theorem blockOf_setDirect (data : Nat → Bytes) (sin : SfsInode)
    (k : Fin SFS_NDIRECT) (blkno j : Nat) : blockOf data (sin.setDirect k blkno).din j =
      if j = k then blkno else blockOf data sin.din j := by
  by_cases direct : j < SFS_NDIRECT
  · rw [blockOf, dif_pos direct, blockOf, dif_pos direct]
    by_cases same : j = k
    · subst same
      simp
    have other : (⟨j, direct⟩ : Fin SFS_NDIRECT) ≠ k := by
      intro isK
      exact same (congrArg Fin.val isK)
    simp [same, other]
  have other : j ≠ k := by
    intro isK
    exact direct (isK ▸ k.isLt)
  rw [if_neg other, blockOf, dif_neg direct, blockOf, dif_neg direct]
  rfl

theorem SfsFs.ne_of_inUse {other : Nat} (free : sfs.freemap.isFree blkno = true)
    (inUse : sfs.freemap.isFree other = false) : other ≠ blkno := by
  rintro rfl
  rw [free] at inUse
  cases inUse

theorem SfsFs.growCost_one (ok : sfs.AllocOk) (free : sfs.freemap.isFree blkno = true)
    (empty : sfs.slot node sin.din.blocks = 0)
    (notTwo : ¬ (SFS_NDIRECT ≤ sin.din.blocks ∧ sin.din.indirect = 0)) :
    (sfs.claim blkno).freeBlocks.card + sfs.growCost node sin = sfs.freeBlocks.card := by
  rw [growCost, if_neg (by simp [empty]), if_neg notTwo, freeBlocks_claim free]
  exact card_erase_add_one (ok.mem_freeBlocks.mpr free)

theorem blockOf_writeEntry {data' : Nat → Bytes} {din' : SfsDiskInode}
    (large : SFS_NDIRECT ≤ index) (small : index < SFS_MAX_BLOCKS) (range : blkno < 2 ^ 32)
    (present : din'.indirect ≠ 0) (direct : din'.direct = din.direct) {bytes : Bytes}
    (stored : data' din'.indirect = bytes.blit ((index - SFS_NDIRECT) * 4) (leBytes blkno) 0 4)
    (rest : ∀ j, SFS_NDIRECT ≤ j → j < SFS_MAX_BLOCKS →
      leNat 4 bytes ((j - SFS_NDIRECT) * 4) = blockOf data din j) (j : Nat) :
    blockOf data' din' j = if j = index then blkno else blockOf data din j := by
  by_cases isDirect : j < SFS_NDIRECT
  · rw [if_neg (by omega), blockOf, dif_pos isDirect, blockOf, dif_pos isDirect, direct]
  by_cases inside : j < SFS_MAX_BLOCKS
  · rw [blockOf_entry (by omega) inside present, stored]
    by_cases same : j = index
    · subst same
      rw [if_pos rfl, leNat_blit_self]
      exact Nat.mod_eq_of_lt range
    · rw [if_neg same, leNat_blit_other (by omega)]
      exact rest j (by omega) inside
  · rw [if_neg (by omega), blockOf_ge _ _ (by omega), blockOf_ge _ _ (by omega)]

theorem SfsFs.claim_isFree (freeEnt : sfs.freemap.isFree ent = true)
    (free : sfs.freemap.isFree blkno = true) (distinct : blkno ≠ ent) :
    (sfs.claim ent).freemap.isFree blkno = true := by
  change (sfs.freemap.take ent).isFree blkno = true
  rw [Bitmap.isFree_take freeEnt]
  simp [free, distinct]

theorem Grown.small (grown : Grown sfs next inodes node blkno sin sin') :
    sin.din.blocks < SFS_MAX_BLOCKS := by
  by_contra large
  have slot := grown.slots sin.din.blocks
  rw [if_pos rfl, slot_some grown.found, blockOf_ge _ _ (by omega)] at slot
  exact grown.present slot.symm

theorem SfsFs.freeBlocks_claim_release (ok : sfs.AllocOk) (free : sfs.freemap.isFree ent = true) :
    ((sfs.claim ent).release ent).freeBlocks = sfs.freeBlocks := by
  have inside : ent < (sfs.claim ent).super.blocks := (ok.inside ent free).2
  rw [freeBlocks_release inside, freeBlocks_claim free, insert_erase (ok.mem_freeBlocks.mpr free)]

theorem SfsFs.isFree_claim_release (free : sfs.freemap.isFree ent = true) (blkno : Nat) :
    ((sfs.claim ent).release ent).freemap.isFree blkno = sfs.freemap.isFree blkno := by
  change ((sfs.freemap.take ent).give ent).isFree blkno = _
  rw [Bitmap.isFree_give, Bitmap.isFree_take free]
  by_cases same : blkno = ent
  · subst same
    simp [free]
  · simp [same]

/-- An attached block is in use, and only `blocks` is still to be counted up. -/
theorem Attached.ready (ok : sfs.AllocOk)
    (found : sfs.sins node = some sin) (attached : Attached sfs node sin index blkno next) :
    next.AllocOk ∧ blkno ≠ 0 ∧ blkno < next.super.blocks ∧ next.freemap.isFree blkno =
      false ∧ ∃ sin1, next.sins node = some sin1 ∧ sin1.din.blocks = sin.din.blocks := by
  cases attached with
  | direct k _ _ free =>
    obtain ⟨notSuper, inside⟩ := ok.inside blkno free
    exact ⟨(ok.claim free).congr rfl rfl, notSuper, inside, claim_inUse free, _, setSin_self, rfl⟩
  | entry _ _ _ _ free =>
    obtain ⟨notSuper, inside⟩ := ok.inside blkno free
    exact ⟨(ok.claim free).congr rfl rfl, notSuper, inside, claim_inUse free, sin, found, rfl⟩
  | indirect ent _ _ _ _ freeEnt free distinct =>
    obtain ⟨notSuper, inside⟩ := ok.inside blkno free
    have freeAfter := claim_isFree freeEnt free distinct
    exact ⟨((ok.claim freeEnt).claim freeAfter).congr rfl rfl, notSuper, inside,
      claim_inUse freeAfter, _, setSin_self, rfl⟩

theorem callEnds_incBlocks (found : sfs.sins node = some sin)
    (range : sin.din.blocks < SFS_MAX_BLOCKS)
    {post : PUnit → SfsFs → Prop} :
    CallEnds (incBlocks node) post failed faulty sfs ↔
      post () (sfs.setSin node (sin.setBlocks (sin.din.blocks + 1))) := by
  have noWrap : (sin.din.blocks + 1) % 2 ^ 32 = sin.din.blocks + 1 := by
    apply Nat.mod_eq_of_lt
    have : SFS_MAX_BLOCKS = 1036 := rfl
    omega
  simp only [incBlocks, callEnds_bind, callEnds_getSin found, putSin, callEnds_modify, noWrap]

section

variable (ok : sfs.Consistent inodes) (found : sfs.sins node = some sin)

include ok found

section

variable (empty : sfs.slot node sin.din.blocks = 0) (free : sfs.freemap.isFree blkno = true)

include empty free

/-- What is left to check when the empty slot at the end of a file got the free block
`blkno`, and only free blocks and the indirect block were written. -/
theorem Grown.build {base : SfsFs} (header : base.sins = sfs.sins ∧ base.inodeList = sfs.inodeList ∧
      base.dev.dBlocks = sfs.dev.dBlocks ∧ base.dev.results = sfs.dev.results ∧
      base.super.blocks = sfs.super.blocks ∧ base.superDirty = true)
    (same : sin.Same sin') (size : sin'.din.size = sin.din.size)
    (sameBlocks : sin'.din.blocks = sin.din.blocks + 1) (alloc : base.AllocOk)
    (data : ∀ other, sfs.freemap.isFree other = false →
      (sin.din.indirect ≠ 0 → other ≠ sin.din.indirect) →
      base.dev.data other = sfs.dev.data other) (fresh : base.dev.data blkno = fun _ => 0)
    (slots : ∀ j, blockOf base.dev.data sin'.din j =
      if j = sin.din.blocks then blkno else blockOf sfs.dev.data sin.din j)
    (owners : KeepsOthers sfs (base.setSin node sin') inodes node →
      (∀ j, (base.setSin node sin').slot node j =
        if j = sin.din.blocks then blkno else sfs.slot node j) →
      Claims ((base.setSin node sin').place inodes) (base.setSin node sin').InUse)
    (cost : base.freeBlocks.card + sfs.growCost node sin = sfs.freeBlocks.card)
    (dirty : sin'.dirty = true ∨ (sin' = sin.setBlocks (sin.din.blocks + 1) ∧
      (sfs.slot node sin.din.blocks = 0 → SFS_NDIRECT ≤ sin.din.blocks ∧ sin.din.indirect ≠ 0)))
    (indirect : sin'.din.indirect = 0 ↔ sin.din.indirect = 0 ∧ sin.din.blocks < SFS_NDIRECT) :
    Grown sfs (base.setSin node sin') inodes node blkno sin sin' := by
  obtain ⟨sins, inodeList, dBlocks, results, blocks, superDirty⟩ := header
  have member := (ok.loaded node sin found).1
  have keeps : KeepsOthers sfs (base.setSin node sin') inodes node := by
    apply ok.keepsOthers found setSin_self _ _ inodeList dBlocks results blocks (.inl superDirty)
    · intro ino other
      rw [setSin_other other, sins]
    intro other inUse unowned
    apply data other inUse
    intro present isIndirect
    apply unowned (.indirect node) rfl
    rw [ok.owns_indirect found present, isIndirect]
  have slots' : ∀ j, (base.setSin node sin').slot node j =
      if j = sin.din.blocks then blkno else sfs.slot node j := by
    intro j
    rw [slot_some setSin_self, slot_some found]
    exact slots j
  constructor
  · exact same
  · exact keeps
  · exact alloc.congr rfl rfl
  · exact owners keeps slots'
  · exact setSin_self
  · exact size
  · exact sameBlocks
  · exact (ok.alloc.inside blkno free).1
  · exact slots'
  · intro j _ present
    apply data _ (ok.slot_inUse member present).2
    intro someIndirect
    exact ok.owners.ne (place_slot member present) (ok.owns_indirect found someIndirect) (by simp)
  · intro present
    exact absurd empty present
  · rw [if_pos empty]
    exact fresh
  · exact cost
  · exact dirty
  · exact indirect

theorem Grown.direct (k : Fin SFS_NDIRECT) (last : sin.din.blocks = k) :
    Grown sfs ((sfs.claim blkno).setSin node
      ((sin.setDirect k blkno).setBlocks (sin.din.blocks + 1))) inodes node blkno sin
      ((sin.setDirect k blkno).setBlocks (sin.din.blocks + 1)) := by
  have below : sin.din.blocks < SFS_NDIRECT := last ▸ k.isLt
  refine Grown.build ok found empty free ⟨rfl, rfl, rfl, rfl, rfl, rfl⟩
    ⟨rfl, rfl, rfl, rfl⟩ rfl rfl (ok.alloc.claim free) ?_ ?_ ?_ ?_ ?_ (.inl rfl) ?_
  · intro other inUse _
    exact update_of_ne (ne_of_inUse free inUse) _ _
  · exact update_self _ _ _
  · intro j
    rw [last, ← blockOf_setDirect]
    apply blockOf_congr
    intro present
    exact update_of_ne (ok.ne_of_free free (ok.owns_indirect found present)) _ _
  · intro keeps slots
    apply ok.claims_slot keeps (ok.loaded node sin found).1 _ slots empty free
    · exact inUse_claim free (ok.alloc.inside blkno free).2
    · rw [dinOf_some setSin_self, dinOf_some found]
      rfl
  · exact growCost_one ok.alloc free empty (by omega)
  · simp [below]

theorem Grown.entry (large : SFS_NDIRECT ≤ sin.din.blocks) (small : sin.din.blocks < SFS_MAX_BLOCKS)
    (present : sin.din.indirect ≠ 0) :
    Grown sfs ((sfs.attachEntry sin.din.indirect (sin.din.blocks - SFS_NDIRECT) blkno).setSin
      node (sin.setBlocks (sin.din.blocks + 1))) inodes node blkno sin
      (sin.setBlocks (sin.din.blocks + 1)) := by
  have inside := (ok.alloc.inside blkno free).2
  have range := ok.device.range
  have apart := ok.ne_of_free free (ok.owns_indirect found present)
  have data : (sfs.attachEntry sin.din.indirect (sin.din.blocks - SFS_NDIRECT) blkno).dev.data =
      update (update sfs.dev.data blkno fun _ => 0) sin.din.indirect
        ((sfs.dev.data sin.din.indirect).blit ((sin.din.blocks - SFS_NDIRECT) * 4)
          (leBytes blkno) 0 4) := by
    rw [← update_of_ne apart (fun _ => 0) sfs.dev.data]
    rfl
  refine Grown.build ok found empty free ⟨rfl, rfl, rfl, rfl, rfl, rfl⟩
    ⟨rfl, rfl, rfl, rfl⟩ rfl rfl ((ok.alloc.claim free).congr rfl rfl) ?_ ?_ ?_ ?_ ?_
    (.inr ⟨rfl, fun _ => ⟨large, present⟩⟩) ?_
  · intro other inUse notIndirect
    rw [data, update_of_ne (notIndirect present), update_of_ne (ne_of_inUse free inUse)]
  · rw [data, update_of_ne apart.symm, update_self]
  · apply blockOf_writeEntry large small (by omega) present rfl
    · rw [data]
      exact update_self _ _ _
    · intro j isLarge isSmall
      rw [blockOf_entry isLarge isSmall present]
  · intro keeps slots
    apply ok.claims_slot keeps (ok.loaded node sin found).1 _ slots empty free
    · exact inUse_claim free inside
    · rw [dinOf_some setSin_self, dinOf_some found]
      rfl
  · exact growCost_one ok.alloc free empty (by simp [present])
  · simp [present]

theorem Grown.newIndirect (large : SFS_NDIRECT ≤ sin.din.blocks)
    (small : sin.din.blocks < SFS_MAX_BLOCKS) (none : sin.din.indirect = 0)
    (freeEnt : sfs.freemap.isFree ent = true) (distinct : blkno ≠ ent) :
    Grown sfs (((sfs.claim ent).attachEntry ent (sin.din.blocks - SFS_NDIRECT) blkno).setSin
      node ((sin.setIndirect ent).setBlocks (sin.din.blocks + 1))) inodes node blkno sin
      ((sin.setIndirect ent).setBlocks (sin.din.blocks + 1)) := by
  have inside := (ok.alloc.inside blkno free).2
  obtain ⟨entNotZero, entInside⟩ := ok.alloc.inside ent freeEnt
  have range := ok.device.range
  have freeAfter := claim_isFree freeEnt free distinct
  have zero : ((sfs.claim ent).claim blkno).dev.data ent = fun _ => 0 :=
    (update_of_ne distinct.symm _ _).trans (update_self _ _ _)
  have data : ((sfs.claim ent).attachEntry ent (sin.din.blocks - SFS_NDIRECT) blkno).dev.data =
      update (update (update sfs.dev.data ent fun _ => 0) blkno fun _ => 0) ent
        (Bytes.blit (fun _ => 0) ((sin.din.blocks - SFS_NDIRECT) * 4) (leBytes blkno) 0 4) := by
    rw [attachEntry, zero]
    rfl
  refine Grown.build ok found empty free ⟨rfl, rfl, rfl, rfl, rfl, rfl⟩
    ⟨rfl, rfl, rfl, rfl⟩ rfl rfl (((ok.alloc.claim freeEnt).claim freeAfter).congr rfl rfl)
    ?_ ?_ ?_ ?_ ?_ (.inl rfl) ?_
  · intro other inUse _
    have notEnt := ne_of_inUse freeEnt inUse
    rw [data, update_of_ne notEnt, update_of_ne (ne_of_inUse free inUse), update_of_ne notEnt]
  · rw [data, update_of_ne distinct, update_self]
  · apply blockOf_writeEntry large small
    · omega
    · exact entNotZero
    · rfl
    · rw [data]
      exact update_self _ _ _
    · intro j isLarge _
      rw [blockOf_noIndirect isLarge none, leNat_zero]
  · intro keeps slots
    apply ok.claims_indirect keeps (ok.loaded node sin found).1 _ (by rw [dinOf_some found, none])
      slots empty free freeEnt distinct
    · intro other
      rw [← inUse_claim freeEnt entInside]
      exact inUse_claim freeAfter inside other
    · rw [dinOf_some setSin_self]
      rfl
  · have freed : ((sfs.claim ent).claim blkno).freeBlocks =
        (sfs.freeBlocks.erase ent).erase blkno := by
      rw [← freeBlocks_claim freeEnt, freeBlocks_claim freeAfter]
    have stillMember := mem_erase.mpr ⟨distinct, ok.alloc.mem_freeBlocks.mpr free⟩
    have oneLess := card_erase_add_one (ok.alloc.mem_freeBlocks.mpr freeEnt)
    have twoLess := card_erase_add_one stillMember
    rw [growCost, if_neg (by simp [empty]), if_pos ⟨large, none⟩]
    change ((sfs.claim ent).claim blkno).freeBlocks.card + 2 = _
    rw [freed]
    omega
  constructor
  · intro zero
    exact absurd zero entNotZero
  · omega

end

theorem Grown.stale (present : sfs.slot node sin.din.blocks ≠ 0) :
    Grown sfs (sfs.setSin node (sin.setBlocks (sin.din.blocks + 1))) inodes node
      (sfs.slot node sin.din.blocks) sin (sin.setBlocks (sin.din.blocks + 1)) := by
  have slots : ∀ j, (sfs.setSin node (sin.setBlocks (sin.din.blocks + 1))).slot node j =
      sfs.slot node j := slot_setSin found rfl rfl
  have keeps : KeepsOthers sfs _ inodes node :=
    KeepsOthers.setSin found (sin.setBlocks (sin.din.blocks + 1))
  constructor
  · exact ⟨rfl, rfl, rfl, rfl⟩
  · exact keeps
  · exact ok.alloc.congr rfl rfl
  · rw [keeps.place_same _ slots]
    · exact ok.owners
    · rw [dinOf_some setSin_self, dinOf_some found]
      rfl
  · exact setSin_self
  · rfl
  · rfl
  · exact present
  · intro j
    rw [slots]
    by_cases last : j = sin.din.blocks
    · rw [if_pos last, last]
    · rw [if_neg last]
  · intro j _ _
    rfl
  · intro _
    rfl
  · rw [if_neg present]
    rfl
  · rw [growCost, if_pos present]
    rfl
  · exact .inr ⟨rfl, fun empty => absurd empty present⟩
  constructor
  · intro none
    refine ⟨none, ?_⟩
    by_contra large
    rw [slot_some found] at present
    exact present (blockOf_noIndirect (by omega) none)
  · exact And.left

section

variable (grown : Grown sfs next inodes node blkno sin sin')

include grown

theorem Grown.inodeBlock : next.dev.data node = sfs.dev.data node :=
  grown.keeps.data (.inode node) node (place_inode (ok.loaded node sin found).1)
    (by simp [BlockOwner.file])

theorem Grown.consistent : next.Consistent inodes := by
  obtain ⟨size, -, mapped⟩ := ok.loaded_file found
  have small := grown.small
  apply ok.rebuild grown.keeps found grown.found grown.alloc grown.owners grown.type grown.nlinks
  · rwa [grown.size]
  · rw [grown.blocks]
    omega
  · intro k below
    rw [grown.blocks] at below
    rw [grown.slots k]
    by_cases last : k = sin.din.blocks
    · rw [if_pos last]
      exact grown.present
    · rw [if_neg last]
      exact mapped k (by omega)
  · rw [grown.blocks]
    intro empty k beyond
    rw [grown.slots k, if_neg (by omega)]
    exact empty k (by omega)
  intro clean
  cases grown.dirty with
  | inl dirty =>
    rw [dirty] at clean
    cases clean
  | inr same =>
    obtain ⟨isSin, -⟩ := same
    rw [isSin] at clean ⊢
    rw [grown.inodeBlock ok found]
    have synced := (ok.loaded node sin found).2.synced clean
    exact ⟨synced.size, synced.type, synced.nlinks, synced.blocks.trans (Nat.le_succ _),
      synced.direct, synced.indirect⟩

end

/-- The file could not get its next block: everything is as before, up to the contents
of free blocks. -/
structure Stuck (sfs next : SfsFs) (inodes : Finset Nat) (node : Nat) (sin : SfsInode) : Prop where
  keeps : KeepsOthers sfs next inodes node
  consistent : next.Consistent inodes
  sins : next.sins = sfs.sins
  data : ∀ blkno, sfs.freemap.isFree blkno = false → next.dev.data blkno = sfs.dev.data blkno
  slots : ∀ j, next.slot node j = sfs.slot node j
  freeBlocks : next.freeBlocks = sfs.freeBlocks
  full : sfs.freeBlocks.card < sfs.growCost node sin

theorem NotAttached.stuck (empty : sfs.slot node sin.din.blocks = 0)
    (failed : NotAttached sfs sin sin.din.blocks next) : Stuck sfs next inodes node sin := by
  cases failed with
  | full none =>
    constructor
    · exact KeepsOthers.refl found
    · exact ok
    · rfl
    · exact fun _ _ => rfl
    · exact fun _ => rfl
    · rfl
    · rw [none, card_empty, growCost, if_neg (by simp [empty])]
      split_ifs <;> omega
  | last ent large noIndirect free onlyOne =>
    obtain ⟨notSuper, inside⟩ := ok.alloc.inside ent free
    have found' : ((sfs.claim ent).release ent).sins node = some sin := found
    have data : ∀ blkno, sfs.freemap.isFree blkno = false →
        ((sfs.claim ent).release ent).dev.data blkno = sfs.dev.data blkno :=
      fun blkno inUse => update_of_ne (ne_of_inUse free inUse) _ _
    have keeps : KeepsOthers sfs ((sfs.claim ent).release ent) inodes node :=
      ok.keepsOthers found found' (fun _ _ => rfl) (fun blkno inUse _ => data blkno inUse) rfl rfl
        rfl rfl (.inl rfl)
    have slots : ∀ j, ((sfs.claim ent).release ent).slot node j = sfs.slot node j := by
      intro j
      rw [slot_some found', slot_some found]
      apply blockOf_congr
      intro present
      exact absurd noIndirect present
    constructor
    · exact keeps
    · apply ok.touched keeps rfl slots
      · exact (ok.alloc.claim free).release notSuper inside (claim_inUse free)
      · intro blkno
        rw [SfsFs.InUse, SfsFs.InUse, isFree_claim_release free, keeps.blocks]
    · rfl
    · exact data
    · exact slots
    · exact freeBlocks_claim_release ok.alloc free
    have isMember := ok.alloc.mem_freeBlocks.mpr free
    have card := card_erase_of_mem isMember
    rw [onlyOne, card_empty] at card
    rw [growCost, if_neg (by simp [empty]), if_pos ⟨large, noIndirect⟩]
    omega

/-- With `blocks` counted up, the file has grown. -/
theorem Attached.grown (empty : sfs.slot node sin.din.blocks = 0)
    (attached : Attached sfs node sin sin.din.blocks blkno next) {sin1 : SfsInode}
    (found1 : next.sins node = some sin1) :
    Grown sfs (next.setSin node (sin1.setBlocks (sin.din.blocks + 1))) inodes node blkno sin
      (sin1.setBlocks (sin.din.blocks + 1)) := by
  cases attached with
  | direct k _ last free =>
    obtain rfl := Option.some.inj (setSin_self.symm.trans found1)
    rw [setSin_setSin]
    exact Grown.direct ok found empty free k last
  | entry _ large small present free =>
    obtain rfl := Option.some.inj (found.symm.trans found1)
    exact Grown.entry ok found empty free large small present
  | indirect ent _ large small none freeEnt free distinct =>
    obtain rfl := Option.some.inj (setSin_self.symm.trans found1)
    rw [setSin_setSin]
    exact Grown.newIndirect ok found empty free large small none freeEnt distinct

/-- What the routines that follow the block map need to know about the indirect
block. -/
theorem SfsFs.Consistent.indirect_valid (present : sin.din.indirect ≠ 0) :
    sin.din.indirect < sfs.super.blocks ∧ sfs.freemap.isFree sin.din.indirect = false :=
  ok.inUse (ok.owns_indirect found present)

theorem callEnds_sfsBmapGetNolock (present : sfs.slot node index ≠ 0) :
    CallEnds (sfsBmapGetNolock node index create) post failed faulty sfs ↔
      post (sfs.slot node index) sfs := by
  have member := (ok.loaded node sin found).1
  obtain ⟨inside, inUse⟩ := ok.slot_inUse member present
  have small : index < SFS_MAX_BLOCKS := by
    by_contra large
    exact present (blockOf_ge _ _ (by omega))
  simp only [sfsBmapGetNolock, callEnds_bind]
  rw [callEnds_bmapGetRange ok.device found small
    (fun some => (ok.indirect_valid found some).1) (.inl (by rwa [slot_some found] at present)),
    ← slot_some found]
  simp only [callEnds_ite, callEnds_bind, callEnds_pure, callEnds_ensure,
    callEnds_sfsBlockInuse ok.alloc present inside, inUse]
  simp [present]

theorem callEnds_load_inside (inside : index < sin.din.blocks) :
    CallEnds (sfsBmapLoadNolock node index) post failed faulty sfs ↔
      post (sfs.slot node index) sfs := by
  have member := (ok.loaded node sin found).1
  have present := (ok.loaded_file found).2.2 index inside
  obtain ⟨range, inUse⟩ := ok.slot_inUse member present
  have notLast : ¬ index = sin.din.blocks := by omega
  simp only [sfsBmapLoadNolock, callEnds_bind, callEnds_getSin found, callEnds_ensure,
    callEnds_sfsBmapGetNolock ok found present, callEnds_ite, callEnds_pure,
    callEnds_sfsBlockInuse ok.alloc present range, inUse, notLast]
  simp [inside.le]

/-- `sfs_bmap_load_nolock` at the end of a file: it grows by a block, or no block is
left, or the block map is full. -/
theorem load_end_ends : CallEnds (sfsBmapLoadNolock node sin.din.blocks)
      (fun blkno next => ∃ sin', Grown sfs next inodes node blkno sin sin')
      (fun code next => code = -E_NO_MEM ∧ Stuck sfs next inodes node sin)
      (fun fault => fault = .indexOutOfRange ∧ sin.din.blocks = SFS_MAX_BLOCKS) sfs := by
  have member := (ok.loaded node sin found).1
  have limit := (ok.loaded_file found).2.1
  simp only [sfsBmapLoadNolock, callEnds_bind, callEnds_getSin found, callEnds_ensure, decide_true]
  refine ⟨fun _ => ?_, fun absurdity => absurd le_rfl absurdity⟩
  by_cases small : sin.din.blocks < SFS_MAX_BLOCKS
  · by_cases empty : sfs.slot node sin.din.blocks = 0
    · rw [sfsBmapGetNolock, callEnds_bind]
      apply (bmapGetRange_create_ends ok.device ok.alloc found small
        (ok.indirect_valid found) (by rw [← slot_some found]; exact empty)).mono
      · intro blkno next attached
        obtain ⟨alloc, notSuper, inside, inUse, sin1, found1, blocks⟩ :=
          attached.ready ok.alloc found
        rw [← blocks] at small
        simp only [callEnds_ite, callEnds_bind, callEnds_pure, callEnds_ensure,
          callEnds_sfsBlockInuse alloc notSuper inside, inUse, callEnds_incBlocks found1 small,
          blocks]
        refine ⟨fun zero => absurd zero notSuper, fun _ => ⟨fun _ => ⟨fun _ => ⟨fun _ => ?_, ?_⟩,
          ?_⟩, ?_⟩⟩
        · exact ⟨_, attached.grown ok found empty found1⟩
        · simp
        · simp
        · simp
      · intro code next failed
        exact ⟨failed.1, failed.2.stuck ok found empty⟩
      · intro fault stops
        exact stops.elim
    obtain ⟨range, inUse⟩ := ok.slot_inUse member empty
    simp only [callEnds_sfsBmapGetNolock ok found empty, callEnds_bind,
      callEnds_sfsBlockInuse ok.alloc empty range, inUse, callEnds_ite, callEnds_pure,
      callEnds_incBlocks found small]
    refine ⟨fun _ => ⟨fun _ => ⟨_, Grown.stale ok found empty⟩, ?_⟩, ?_⟩
    · simp
    · simp
  have full : sin.din.blocks = SFS_MAX_BLOCKS := by omega
  have outside : ¬ sin.din.blocks - SFS_NDIRECT < SFS_BLK_NENTRY := by
    unfold SFS_MAX_BLOCKS at full
    omega
  rw [sfsBmapGetNolock, callEnds_bind, bmapGetRange, dif_neg (by
    unfold SFS_MAX_BLOCKS at full
    omega), if_neg outside, callEnds_panicWith]
  exact ⟨rfl, full⟩

end

end UcoreSmp
