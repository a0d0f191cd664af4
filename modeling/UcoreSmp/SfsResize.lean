import Mathlib.Order.Interval.Finset.Nat
import UcoreSmp.SfsFile
import UcoreSmp.SfsShrink

/-!
# Resizing a file

The loops of `sfs_truncfile`.  A file that grows takes free blocks one by one;
when the disk is full part of the way, the blocks taken so far stay in the file.
-/

namespace UcoreSmp

open SfsFs

/-- The free blocks that a file needs to grow to `target` blocks. -/
def SfsFs.blocksNeeded (sfs : SfsFs) (node : Nat) (sin : SfsInode) (target : Nat) : Nat :=
  ((Finset.Ico sin.din.blocks target).filter fun k => sfs.slot node k = 0).card +
    if sin.din.indirect = 0 ∧ SFS_NDIRECT < target then 1 else 0

theorem SfsFs.blocksNeeded_mono (sfs : SfsFs) (node : Nat) (sin : SfsInode)
    {target target' : Nat} (ordered : target ≤ target') :
    sfs.blocksNeeded node sin target ≤ sfs.blocksNeeded node sin target' := by
  apply Nat.add_le_add
  · apply Finset.card_le_card
    exact Finset.filter_subset_filter _ (Finset.Ico_subset_Ico_right ordered)
  · split_ifs <;> omega

/-- The bytes of a file; a slot without a block reads as zeros. -/
def SfsFs.fileBytes (sfs : SfsFs) (node : Nat) : Bytes := fun position =>
  if sfs.slot node (position / SFS_BLKSIZE) = 0 then 0
  else sfs.dev.data (sfs.slot node (position / SFS_BLKSIZE)) (position % SFS_BLKSIZE)

/-- The file has grown by any number of blocks, and contains the given bytes. -/
structure Extended (sfs next : SfsFs) (inodes : Finset Nat) (node : Nat)
    (sin sin' : SfsInode) (bytes : Bytes) : Prop extends sin.Same sin' where
  keeps : KeepsOthers sfs next inodes node
  consistent : next.Consistent inodes
  found : next.sins node = some sin'
  size : sin'.din.size = sin.din.size
  blocks : sin.din.blocks ≤ sin'.din.blocks
  beyond : ∀ j, sin'.din.blocks ≤ j → next.slot node j = sfs.slot node j
  slots : ∀ j, sfs.slot node j ≠ 0 → next.slot node j = sfs.slot node j
  contents : next.fileBytes node = bytes
  cost : next.freeBlocks.card + sfs.blocksNeeded node sin sin'.din.blocks = sfs.freeBlocks.card
  dirty : sin'.dirty = true ∨ sin' = sin.setBlocks sin'.din.blocks
  marked : sin.din.blocks < sin'.din.blocks → sfs.slot node sin.din.blocks = 0 →
    sin.din.blocks < SFS_NDIRECT ∨ sin.din.indirect = 0 → sin'.dirty = true
  indirect : sin'.din.indirect = 0 ↔ sin.din.indirect = 0 ∧ sin'.din.blocks ≤ SFS_NDIRECT

variable {inodes : Finset Nat} {bytes : Bytes} {sfs next last : SfsFs} {node position blkno : Nat}
  {sin sin' sin'' : SfsInode}

theorem card_filter_Ico_succ {low high : Nat} (ordered : low ≤ high)
    (p : Nat → Prop) [DecidablePred p] : ((Finset.Ico low (high + 1)).filter p).card =
      ((Finset.Ico low high).filter p).card + if p high then 1 else 0 := by
  rw [Nat.Ico_succ_right_eq_insert_Ico ordered, Finset.filter_insert]
  by_cases holds : p high
  · rw [if_pos holds, if_pos holds, Finset.card_insert_of_notMem (by simp)]
  · rw [if_neg holds, if_neg holds, Nat.add_zero]

theorem SfsFs.blocksNeeded_succ (found : sfs.sins node = some sin)
    (extended : Extended sfs next inodes node sin sin' bytes) :
    sfs.blocksNeeded node sin (sin'.din.blocks + 1) =
      sfs.blocksNeeded node sin sin'.din.blocks + next.growCost node sin' := by
  have atEnd : next.slot node sin'.din.blocks = sfs.slot node sin'.din.blocks :=
    extended.beyond _ le_rfl
  have indirect := extended.indirect
  -- a file without an indirect block has no slots in the indirect range
  have direct : sfs.slot node sin'.din.blocks ≠ 0 →
      ¬ (sin.din.indirect = 0 ∧ SFS_NDIRECT ≤ sin'.din.blocks) := by
    intro present both
    rw [slot_some found] at present
    exact present (blockOf_noIndirect both.2 both.1)
  have count := card_filter_Ico_succ extended.blocks fun k => sfs.slot node k = 0
  unfold blocksNeeded growCost
  rw [count, atEnd]
  split_ifs <;> omega

theorem Grown.dirty_of_dirty (grown : Grown sfs next inodes node blkno sin sin')
    (dirty : sin.dirty = true) : sin'.dirty = true := by
  cases grown.dirty with
  | inl dirty' => exact dirty'
  | inr same =>
    rw [same.1]
    exact dirty

theorem SfsFs.fileBytes_congr {block : Nat} (slot : sfs.slot node (position / SFS_BLKSIZE) = block)
    (slot' : next.slot node (position / SFS_BLKSIZE) = block)
    (data : block ≠ 0 → next.dev.data block = sfs.dev.data block) :
    next.fileBytes node position = sfs.fileBytes node position := by
  rw [fileBytes, fileBytes, slot, slot']
  exact ite_congr rfl (fun _ => rfl) (fun present => congrFun (data present) _)

theorem Grown.fileBytes (grown : Grown sfs next inodes node blkno sin sin') :
    next.fileBytes node = sfs.fileBytes node := by
  funext position
  by_cases isEnd : position / SFS_BLKSIZE = sin.din.blocks
  · have content := grown.content
    rw [SfsFs.fileBytes, SfsFs.fileBytes, grown.slots, if_pos isEnd, if_neg grown.present, content,
      isEnd]
    by_cases empty : sfs.slot node sin.din.blocks = 0
    · rw [if_pos empty, if_pos empty]
    · rw [if_neg empty, if_neg empty, grown.kept empty]
  · exact fileBytes_congr rfl ((grown.slots _).trans (if_neg isEnd)) (grown.data _ isEnd)

theorem Stuck.fileBytes (ok : sfs.Consistent inodes) (member : node ∈ inodes)
    (stuck : Stuck sfs next inodes node sin) : next.fileBytes node = sfs.fileBytes node := by
  funext position
  apply fileBytes_congr rfl (stuck.slots _)
  exact fun present => stuck.data _ (ok.slot_inUse member present).2

theorem Extended.stuck (extended : Extended sfs next inodes node sin sin' bytes)
    (stuck : Stuck next last inodes node sin') : Extended sfs last inodes node sin sin' bytes :=
  { extended with
    keeps := extended.keeps.trans stuck.keeps
    consistent := stuck.consistent
    found := (congrFun stuck.sins node).trans extended.found
    beyond := fun j beyond => (stuck.slots j).trans (extended.beyond j beyond)
    slots := fun j present => (stuck.slots j).trans (extended.slots j present)
    contents := (stuck.fileBytes extended.consistent
      (extended.consistent.loaded node sin' extended.found).1).trans extended.contents
    cost := by
      rw [stuck.freeBlocks]
      exact extended.cost }

section

variable (ok : sfs.Consistent inodes) (found : sfs.sins node = some sin)

include ok found

theorem SfsFs.Consistent.indirect_ne_zero (large : SFS_NDIRECT < sin.din.blocks) :
    sin.din.indirect ≠ 0 := by
  intro none
  apply (ok.loaded_file found).2.2 SFS_NDIRECT large
  rw [slot_some found]
  exact blockOf_noIndirect le_rfl none

theorem Extended.refl : Extended sfs sfs inodes node sin sin (sfs.fileBytes node) where
  keeps := KeepsOthers.refl found
  consistent := ok
  found := found
  size := rfl
  toSame := .refl sin
  blocks := le_rfl
  beyond _ _ := rfl
  slots _ _ := rfl
  contents := rfl
  cost := by
    have noExtra : ¬ (sin.din.indirect = 0 ∧ SFS_NDIRECT < sin.din.blocks) := by
      intro both
      exact ok.indirect_ne_zero found both.2 both.1
    rw [blocksNeeded, if_neg noExtra]
    simp
  dirty := .inr rfl
  marked more := by omega
  indirect := by
    constructor
    · intro none
      refine ⟨none, ?_⟩
      by_contra large
      exact ok.indirect_ne_zero found (by omega) none
    · exact And.left

theorem Extended.grow (extended : Extended sfs next inodes node sin sin' bytes)
    (grown : Grown next last inodes node blkno sin' sin'') :
    Extended sfs last inodes node sin sin'' bytes := by
  have needed := blocksNeeded_succ found extended
  constructor
  · exact extended.toSame.trans grown.toSame
  · exact extended.keeps.trans grown.keeps
  · exact grown.consistent extended.consistent extended.found
  · exact grown.found
  · exact grown.size.trans extended.size
  · rw [grown.blocks]
    exact extended.blocks.trans (Nat.le_succ _)
  · intro j beyond
    rw [grown.blocks] at beyond
    rw [grown.slots, if_neg (by omega)]
    exact extended.beyond j (by omega)
  · intro j present
    have sameSlot := extended.slots j present
    rw [grown.slots]
    by_cases isEnd : j = sin'.din.blocks
    · -- the slot was taken already, so its block stays
      subst isEnd
      rw [if_pos rfl, ← sameSlot]
      exact grown.kept (by rwa [sameSlot])
    · rw [if_neg isEnd, sameSlot]
  · rw [grown.fileBytes]
    exact extended.contents
  · have cost := extended.cost
    have step := grown.cost
    rw [grown.blocks, needed]
    omega
  · cases grown.dirty with
    | inl dirty => exact .inl dirty
    | inr same =>
      cases extended.dirty with
      | inl dirty => exact .inl (grown.dirty_of_dirty dirty)
      | inr sameBefore =>
        right
        rw [grown.blocks, same.1, sameBefore]
        rfl
  · intro _ empty unmarked
    by_cases before : sin.din.blocks < sin'.din.blocks
    · exact grown.dirty_of_dirty (extended.marked before empty unmarked)
    have sameBlocks : sin'.din.blocks = sin.din.blocks := by
      have := extended.blocks
      omega
    cases grown.dirty with
    | inl dirty => exact dirty
    | inr same =>
      obtain ⟨large, someIndirect⟩ := same.2 (by
        rw [extended.beyond _ le_rfl, sameBlocks]
        exact empty)
      cases unmarked with
      | inl small => omega
      | inr none =>
        exfalso
        apply someIndirect
        apply extended.indirect.mpr
        refine ⟨none, ?_⟩
        by_contra isLarge
        exact ok.indirect_ne_zero found (by omega) none
  · rw [grown.indirect, extended.indirect, grown.blocks]
    omega

/-- `sfs_bmap_load_nolock` in a file that has grown already: of a block of the file,
or of the one after its end. -/
theorem Extended.load_ends (extended : Extended sfs next inodes node sin sin' bytes) {index : Nat}
    (reached : index ≤ sin'.din.blocks) :
    CallEnds (sfsBmapLoadNolock node index)
      (fun blkno last => ∃ sin'', Extended sfs last inodes node sin sin'' bytes ∧
        sin''.din.blocks = max sin'.din.blocks (index + 1) ∧ blkno = last.slot node index)
      (fun code last => code = -E_NO_MEM ∧ index = sin'.din.blocks ∧
        Extended sfs last inodes node sin sin' bytes ∧
        sfs.freeBlocks.card < sfs.blocksNeeded node sin (sin'.din.blocks + 1))
      (fun fault => fault = .indexOutOfRange ∧ index = SFS_MAX_BLOCKS ∧
        sfs.blocksNeeded node sin SFS_MAX_BLOCKS ≤ sfs.freeBlocks.card) next := by
  rcases reached.lt_or_eq with inside | atEnd
  · apply (callEnds_load_inside extended.consistent extended.found inside).mpr
    exact ⟨sin', extended, by omega, rfl⟩
  subst atEnd
  have cost := extended.cost
  apply (load_end_ends extended.consistent extended.found).mono
  · rintro blkno last ⟨sin'', grown⟩
    have isEnd := grown.slots sin'.din.blocks
    rw [if_pos rfl] at isEnd
    refine ⟨sin'', extended.grow ok found grown, ?_, isEnd.symm⟩
    rw [grown.blocks]
    omega
  · rintro code last ⟨isCode, stuck⟩
    refine ⟨isCode, rfl, extended.stuck stuck, ?_⟩
    rw [blocksNeeded_succ found extended]
    have full := stuck.full
    omega
  rintro fault ⟨isFault, full⟩
  refine ⟨isFault, full, ?_⟩
  rw [← full]
  omega

/-- The enlarging loop, started after some blocks were added already.  It reaches its
target, or stops without free blocks, or fills the block map. -/
theorem growBlocks_ends (left : Nat) (extended : Extended sfs next inodes node sin sin' bytes) :
    CallEnds (growBlocks node sin'.din.blocks left)
      (fun _ last => ∃ sin'', Extended sfs last inodes node sin sin'' bytes ∧
        sin''.din.blocks = sin'.din.blocks + left)
      (fun code last => code = -E_NO_MEM ∧ ∃ sin'', Extended sfs last inodes node sin sin'' bytes ∧
        sin''.din.blocks < sin'.din.blocks + left ∧
        sfs.freeBlocks.card < sfs.blocksNeeded node sin (sin''.din.blocks + 1))
      (fun fault => fault = .indexOutOfRange ∧ SFS_MAX_BLOCKS < sin'.din.blocks + left ∧
        sfs.blocksNeeded node sin SFS_MAX_BLOCKS ≤ sfs.freeBlocks.card) next := by
  induction left generalizing next sin' with
  | zero => exact ⟨sin', extended, rfl⟩
  | succ left ih =>
    rw [growBlocks, callEnds_bind]
    apply (extended.load_ends ok found le_rfl).mono
    · rintro blkno last ⟨sin'', grown, blocks, -⟩
      rw [Nat.max_eq_right (Nat.le_succ _)] at blocks
      have rest := ih grown
      rw [blocks] at rest
      rw [show sin'.din.blocks + (left + 1) = sin'.din.blocks + 1 + left by omega]
      exact rest
    · rintro code last ⟨isCode, -, stuck, full⟩
      exact ⟨isCode, sin', stuck, by omega, full⟩
    · rintro fault ⟨isFault, full, enough⟩
      exact ⟨isFault, by omega, enough⟩

structure Reduced (sfs next : SfsFs) (inodes : Finset Nat) (node : Nat)
    (sin sin' : SfsInode) : Prop extends sin.Same sin' where
  keeps : KeepsOthers sfs next inodes node
  consistent : next.Consistent inodes
  found : next.sins node = some sin'
  size : sin'.din.size = sin.din.size
  blocks : sin'.din.blocks ≤ sin.din.blocks
  indirect : sin'.din.indirect = sin.din.indirect
  slots : ∀ j, j < sin'.din.blocks ∨ sin.din.blocks ≤ j → next.slot node j = sfs.slot node j
  contents : ∀ position, position < sin'.din.blocks * SFS_BLKSIZE →
    next.fileBytes node position = sfs.fileBytes node position
  cleared : ∀ j, sin'.din.blocks ≤ j → j < sin.din.blocks → next.slot node j = 0

theorem Reduced.refl : Reduced sfs sfs inodes node sin sin where
  keeps := KeepsOthers.refl found
  consistent := ok
  found := found
  size := rfl
  toSame := .refl sin
  blocks := le_rfl
  indirect := rfl
  slots _ _ := rfl
  contents _ _ := rfl
  cleared j low high := by omega

end

theorem Shrunk.fileBytes (shrunk : Shrunk sfs next inodes node sin sin')
    (below : position < (sin.din.blocks - 1) * SFS_BLKSIZE) :
    next.fileBytes node position = sfs.fileBytes node position := by
  have other : position / SFS_BLKSIZE ≠ sin.din.blocks - 1 :=
    (Nat.div_lt_of_lt_mul (by rwa [Nat.mul_comm])).ne
  exact fileBytes_congr rfl ((shrunk.slots _).trans (if_neg other)) (shrunk.data _ other)

theorem Reduced.shrink (reduced : Reduced sfs next inodes node sin sin')
    (notEmpty : sin'.din.blocks ≠ 0) (shrunk : Shrunk next last inodes node sin' sin'') :
    Reduced sfs last inodes node sin sin'' := by
  have blocks := reduced.blocks
  constructor
  · exact reduced.toSame.trans shrunk.toSame
  · exact reduced.keeps.trans shrunk.keeps
  · exact shrunk.consistent reduced.consistent reduced.found
  · exact shrunk.found
  · exact shrunk.size.trans reduced.size
  · rw [shrunk.blocks]
    omega
  · exact shrunk.indirect.trans reduced.indirect
  · intro j outside
    rw [shrunk.blocks] at outside
    rw [shrunk.slots, if_neg (by omega)]
    exact reduced.slots j (by omega)
  · intro position below
    rw [shrunk.blocks] at below
    rw [← reduced.contents position (by
      apply below.trans_le
      exact Nat.mul_le_mul_right _ (Nat.sub_le _ _))]
    exact shrunk.fileBytes below
  intro j low high
  rw [shrunk.blocks] at low
  rw [shrunk.slots]
  by_cases isLast : j = sin'.din.blocks - 1
  · rw [if_pos isLast]
  · rw [if_neg isLast]
    exact reduced.cleared j (by omega) high

theorem shrinkBlocks_ends (left : Nat) (reduced : Reduced sfs next inodes node sin sin')
    (enough : left ≤ sin'.din.blocks) :
    CallEnds (shrinkBlocks node left)
      (fun _ last => ∃ sin'', Reduced sfs last inodes node sin sin'' ∧
        sin''.din.blocks = sin'.din.blocks - left)
      (fun _ _ => False) (fun _ => False) next := by
  induction left generalizing next sin' with
  | zero => exact ⟨sin', reduced, rfl⟩
  | succ left ih =>
    have notEmpty : sin'.din.blocks ≠ 0 := by omega
    rw [shrinkBlocks, callEnds_bind]
    apply (sfsBmapTruncateNolock_ends reduced.consistent reduced.found notEmpty).weaken
    · rintro _ last ⟨sin'', shrunk⟩
      have rest := ih (reduced.shrink notEmpty shrunk) (by
        rw [shrunk.blocks]
        omega)
      rw [shrunk.blocks] at rest
      rw [show sin'.din.blocks - (left + 1) = sin'.din.blocks - 1 - left by omega]
      exact rest
    · intro _ _ failed
      exact failed

/-- `sfs_truncfile` gave the file another length. -/
structure Resized (sfs next : SfsFs) (inodes : Finset Nat) (node len : Nat)
    (sin sin' : SfsInode) : Prop extends sin.Same sin' where
  keeps : KeepsOthers sfs next inodes node
  consistent : next.Consistent inodes
  found : next.sins node = some sin'
  size : sin'.din.size = len
  blocks : sin'.din.blocks = roundupDiv len SFS_BLKSIZE
  dirty : sin'.dirty = true
  beyond : ∀ j, sin'.din.blocks ≤ j →
    next.slot node j = if j < sin.din.blocks then 0 else sfs.slot node j
  contents : ∀ position, position < sin'.din.blocks * SFS_BLKSIZE →
    next.fileBytes node position = sfs.fileBytes node position

section Truncate

variable {size : Nat}

theorem slot_setSize (found : sfs.sins node = some sin) (size k : Nat) :
    (sfs.setSin node (sin.setSize size)).slot node k = sfs.slot node k := by
  apply slot_setSin found <;> rfl

theorem fileBytes_setSize (found : sfs.sins node = some sin) (size : Nat) :
    (sfs.setSin node (sin.setSize size)).fileBytes node = sfs.fileBytes node := by
  funext position
  exact fileBytes_congr rfl (slot_setSize found size _) (fun _ => rfl)

theorem SfsFs.Consistent.setSize (ok : sfs.Consistent inodes) (found : sfs.sins node = some sin)
    (small : size < 2 ^ 32) : (sfs.setSin node (sin.setSize size)).Consistent inodes := by
  refine ok.setSin found rfl rfl rfl rfl rfl small ?_
  intro clean
  cases clean

theorem Extended.resized (extended : Extended sfs next inodes node sin sin' (sfs.fileBytes node))
    (small : size < 2 ^ 32) (blocks : sin'.din.blocks = roundupDiv size SFS_BLKSIZE) :
    Resized sfs (next.setSin node (sin'.setSize size)) inodes node size sin
      (sin'.setSize size) := by
  constructor
  · exact extended.toSame.trans ⟨rfl, rfl, rfl, rfl⟩
  · exact extended.keeps.trans (KeepsOthers.setSin extended.found _)
  · exact extended.consistent.setSize extended.found small
  · exact setSin_self
  · rfl
  · exact blocks
  · rfl
  · intro j beyond
    have more := extended.blocks
    rw [slot_setSize extended.found, extended.beyond j beyond, if_neg]
    exact Nat.not_lt.mpr (more.trans beyond)
  · intro position _
    rw [fileBytes_setSize extended.found, extended.contents]

theorem Reduced.resized (reduced : Reduced sfs next inodes node sin sin')
    (small : size < 2 ^ 32) (blocks : sin'.din.blocks = roundupDiv size SFS_BLKSIZE) :
    Resized sfs (next.setSin node (sin'.setSize size)) inodes node size sin
      (sin'.setSize size) := by
  constructor
  · exact reduced.toSame.trans ⟨rfl, rfl, rfl, rfl⟩
  · exact reduced.keeps.trans (KeepsOthers.setSin reduced.found _)
  · exact reduced.consistent.setSize reduced.found small
  · exact setSin_self
  · rfl
  · exact blocks
  · rfl
  · intro j beyond
    rw [slot_setSize reduced.found]
    by_cases freed : j < sin.din.blocks
    · rw [if_pos freed]
      exact reduced.cleared j beyond freed
    · rw [if_neg freed]
      exact reduced.slots j (by omega)
  · intro position below
    rw [fileBytes_setSize reduced.found]
    exact reduced.contents position below

/-- The file kept its length and has taken all the blocks that were free. -/
structure Exhausted (sfs next : SfsFs) (inodes : Finset Nat) (node target : Nat)
    (sin sin' : SfsInode) (bytes : Bytes) : Prop where
  extended : Extended sfs next inodes node sin sin' bytes
  short : sin'.din.blocks < target
  full : sfs.freeBlocks.card < sfs.blocksNeeded node sin (sin'.din.blocks + 1)

section

variable (ok : sfs.Consistent inodes) (found : sfs.sins node = some sin)

include ok found

theorem resizeBlocks_ends (tblks : Nat) : CallEnds (resizeBlocks node sin.din.blocks tblks)
      (fun _ next => ∃ sin', sin'.din.blocks = tblks ∧
        (Extended sfs next inodes node sin sin' (sfs.fileBytes node) ∨
          Reduced sfs next inodes node sin sin'))
      (fun code next => code = -E_NO_MEM ∧
        ∃ sin', Exhausted sfs next inodes node tblks sin sin' (sfs.fileBytes node))
      (fun fault => fault = .indexOutOfRange ∧ SFS_MAX_BLOCKS < tblks ∧
        sfs.blocksNeeded node sin SFS_MAX_BLOCKS ≤ sfs.freeBlocks.card) sfs := by
  rw [resizeBlocks, callEnds_ite]
  constructor
  · intro more
    have target : sin.din.blocks + (tblks - sin.din.blocks) = tblks := by omega
    have ends := growBlocks_ends ok found (tblks - sin.din.blocks) (Extended.refl ok found)
    rw [target] at ends
    apply ends.weaken
    · rintro _ next ⟨sin', extended, blocks⟩
      exact ⟨sin', blocks, .inl extended⟩
    rintro code next ⟨isCode, sin', extended, short, full⟩
    exact ⟨isCode, sin', extended, short, full⟩
  intro less
  apply (shrinkBlocks_ends (sin.din.blocks - tblks) (Reduced.refl ok found) (Nat.sub_le _ _)).mono
  · rintro _ next ⟨sin', reduced, blocks⟩
    exact ⟨sin', by omega, .inr reduced⟩
  · intro _ _ impossible
    exact impossible.elim
  · intro _ impossible
    exact impossible.elim

/-- `sfs_truncfile`.  Its first assertion fails when the block count of a file of
that length is wrong; the block map overflows when there are enough free blocks. -/
theorem sfsTruncfile_ends (len : Int) : CallEnds (sfsTruncfile node len)
      (fun _ next => (next = sfs ∧ sin.din.size = len.toNat ∧
          roundupDiv len.toNat SFS_BLKSIZE = sin.din.blocks) ∨
        ∃ sin', Resized sfs next inodes node len.toNat sin sin')
      (fun code next => (code = -E_INVAL ∧ next = sfs ∧ (len < 0 ∨ SFS_MAX_FILE_SIZE < len)) ∨
        (code = -E_NO_MEM ∧ ¬ (len < 0 ∨ SFS_MAX_FILE_SIZE < len) ∧
          ∃ sin', Exhausted sfs next inodes node (roundupDiv len.toNat SFS_BLKSIZE) sin sin'
            (sfs.fileBytes node)))
      (fun fault => (fault = .truncSize ∧ sin.din.size = len.toNat ∧
          roundupDiv len.toNat SFS_BLKSIZE ≠ sin.din.blocks) ∨
        (fault = .indexOutOfRange ∧ ¬ (len < 0 ∨ SFS_MAX_FILE_SIZE < len) ∧
          sin.din.size ≠ len.toNat ∧ SFS_MAX_BLOCKS < roundupDiv len.toNat SFS_BLKSIZE ∧
          sfs.blocksNeeded node sin SFS_MAX_BLOCKS ≤ sfs.freeBlocks.card)) sfs := by
  simp only [sfsTruncfile, callEnds_ite, callEnds_throw, callEnds_bind, callEnds_getSin found,
    callEnds_ensure]
  refine ⟨fun outside => .inl ⟨trivial, trivial, outside⟩,
    fun inRange => ⟨fun sameSize => ?_, fun otherSize => ?_⟩⟩
  · constructor
    · intro agree
      exact .inl ⟨trivial, sameSize, agree⟩
    · intro differ
      exact .inl ⟨trivial, sameSize, differ⟩
  have small : len.toNat < 2 ^ 32 := by
    unfold SFS_MAX_FILE_SIZE at inRange
    omega
  apply (resizeBlocks_ends ok found _).mono
  · rintro _ next ⟨sin', blocks, either⟩
    have found' : next.sins node = some sin' := by
      cases either with
      | inl extended => exact extended.found
      | inr reduced => exact reduced.found
    rw [callEnds_getSin found']
    refine ⟨fun _ => ?_, fun differ => absurd blocks differ⟩
    right
    refine ⟨sin'.setSize len.toNat, ?_⟩
    cases either with
    | inl extended => exact extended.resized small blocks
    | inr reduced => exact reduced.resized small blocks
  · intro code next outcome
    exact .inr ⟨outcome.1, inRange, outcome.2⟩
  · intro fault outcome
    exact .inr ⟨outcome.1, inRange, otherSize, outcome.2⟩

/-- `sfs_tryseek` only grows the file. -/
theorem sfsTryseek_ends (pos : Int) : CallEnds (sfsTryseek node pos)
      (fun _ next => next = sfs ∨ (sin.din.size < pos.toNat ∧
        ∃ sin', Resized sfs next inodes node pos.toNat sin sin'))
      (fun code next => (code = -E_INVAL ∧ next = sfs) ∨
        (code = -E_NO_MEM ∧ ¬ (pos < 0 ∨ SFS_MAX_FILE_SIZE ≤ pos) ∧ sin.din.size < pos.toNat ∧
          ∃ sin', Exhausted sfs next inodes node (roundupDiv pos.toNat SFS_BLKSIZE) sin sin'
            (sfs.fileBytes node)))
      (fun fault => fault = .indexOutOfRange ∧ ¬ (pos < 0 ∨ SFS_MAX_FILE_SIZE ≤ pos) ∧
        sin.din.size < pos.toNat ∧ SFS_MAX_BLOCKS < roundupDiv pos.toNat SFS_BLKSIZE ∧
        sfs.blocksNeeded node sin SFS_MAX_BLOCKS ≤ sfs.freeBlocks.card) sfs := by
  simp only [sfsTryseek, callEnds_ite, callEnds_throw, callEnds_bind, callEnds_getSin found,
    callEnds_pure]
  refine ⟨fun _ => .inl ⟨trivial, trivial⟩,
    fun inRange => ⟨fun larger => ?_, fun _ => .inl trivial⟩⟩
  apply (sfsTruncfile_ends ok found pos).mono
  · intro _ next outcome
    cases outcome with
    | inl same => exact .inl same.1
    | inr resized => exact .inr ⟨larger, resized⟩
  · intro code next outcome
    cases outcome with
    | inl invalid => exact .inl ⟨invalid.1, invalid.2.1⟩
    | inr full => exact .inr ⟨full.1, inRange, larger, full.2.2⟩
  intro fault outcome
  cases outcome with
  | inl differ => exact absurd differ.2.1 (by omega)
  | inr overflow => exact ⟨overflow.1, inRange, larger, overflow.2.2.2⟩

end

end Truncate

end UcoreSmp
