import UcoreSmp.SfsOwnershipRun

/-!
# The size of a file and its number of blocks

`din->blocks` is counted up one block at a time while `din->size` is set at the end of a
call.  A call that runs out of blocks part of the way leaves the two apart; when no call
does, every file has as many blocks as its size needs.
-/

namespace UcoreSmp

/-- The file can get all the blocks up to the target, or not even the next one. -/
def SfsFs.AllOrNothing (sfs : SfsFs) (node : Nat) (sin : SfsInode) (target : Nat) : Prop :=
  sfs.blocksNeeded node sin target ≤ sfs.freeBlocks.card ∨
    sfs.freeBlocks.card < sfs.blocksNeeded node sin (sin.din.blocks + 1)

/-- The calls on open files that do not stop with blocks but no size for them, or the other
way round.  A transfer must not start inside a block after the file that cannot be had. -/
def SfsCall.KeepsSize (sfs : SfsFs) : SfsCall → Prop
  | .io node _ offset len write => ∀ sin, sfs.sins node = some sin →
      IoRuns sin write offset len →
      offset.toNat % SFS_BLKSIZE = 0 ∨ offset.toNat / SFS_BLKSIZE ≠ sin.din.blocks ∨
        sfs.blocksNeeded node sin (sin.din.blocks + 1) ≤ sfs.freeBlocks.card
  | .tryseek node pos => ∀ sin, sfs.sins node = some sin → pos < SFS_MAX_FILE_SIZE →
      sin.din.size < pos.toNat → sfs.AllOrNothing node sin (roundupDiv pos.toNat SFS_BLKSIZE)
  | .truncfile node len => ∀ sin, sfs.sins node = some sin → len ≤ SFS_MAX_FILE_SIZE →
      sfs.AllOrNothing node sin (roundupDiv len.toNat SFS_BLKSIZE)
  | .fsync _ => True
  | _ => False

/-- Every regular file in memory has as many blocks as its size needs. -/
def SfsFs.Sized (sfs : SfsFs) : Prop :=
  ∀ ino sin, sfs.sins ino = some sin → sin.din.type = SFS_TYPE_FILE →
    sin.din.blocks = roundupDiv sin.din.size SFS_BLKSIZE

section Sizes

variable {sfs next : SfsFs} {inodes : Finset Nat} {node : Nat} {sin sin' : SfsInode}

theorem SfsFs.Sized.keeps (sized : sfs.Sized) (keeps : KeepsOthers sfs next inodes node)
    (found : next.sins node = some sin')
    (blocks : sin'.din.blocks = roundupDiv sin'.din.size SFS_BLKSIZE) : next.Sized := by
  intro ino other isOther isFile
  by_cases isNode : ino = node
  · subst isNode
    rw [found] at isOther
    cases isOther
    exact blocks
  · rw [keeps.sins ino isNode] at isOther
    exact sized ino other isOther isFile

section

variable {bytes : Bytes} {target : Nat}
  (exhausted : Exhausted sfs next inodes node target sin sin' bytes)
  (allOrNothing : sfs.AllOrNothing node sin target)

include exhausted allOrNothing

theorem Exhausted.blocks_eq : sin'.din.blocks = sin.din.blocks := by
  have full := exhausted.full
  have more := exhausted.extended.blocks
  cases allOrNothing with
  | inl all =>
    have needed := sfs.blocksNeeded_mono node sin (Nat.succ_le_of_lt exhausted.short)
    have : sfs.blocksNeeded node sin (sin'.din.blocks + 1) ≤ sfs.freeBlocks.card := needed.trans all
    omega
  | inr none =>
    by_contra different
    have needed := sfs.blocksNeeded_mono node sin
      (show sin.din.blocks + 1 ≤ sin'.din.blocks by omega)
    have cost := exhausted.extended.cost
    omega

theorem Exhausted.sized (sized : sfs.Sized)
    (blocks : sin.din.blocks = roundupDiv sin.din.size SFS_BLKSIZE) : next.Sized := by
  apply sized.keeps exhausted.extended.keeps exhausted.extended.found
  rw [exhausted.blocks_eq allOrNothing, exhausted.extended.size]
  exact blocks

end

theorem Served.blocks_eq {write : Bool} {buf : Bytes} {offset total : Nat} {done : IoResult}
    (served : Served sfs next inodes node sin sin' write buf offset total done)
    (nonempty : 0 < total) (blocks : sin.din.blocks = roundupDiv sin.din.size SFS_BLKSIZE)
    (starts : offset % SFS_BLKSIZE = 0 ∨ offset / SFS_BLKSIZE ≠ sin.din.blocks ∨
      sfs.blocksNeeded node sin (sin.din.blocks + 1) ≤ sfs.freeBlocks.card) :
    sin'.din.blocks = roundupDiv sin'.din.size SFS_BLKSIZE := by
  have newBlocks := served.blocks
  rw [served.size]
  by_cases nothing : done.alen = 0
  · -- the first block could not be had
    rw [if_pos nothing] at newBlocks
    rcases served.ret with ⟨-, all⟩ | ⟨-, -, outOfBlocks⟩
    · omega
    have atEnd := outOfBlocks.atEnd
    have full := outOfBlocks.full
    rw [newBlocks] at full
    unfold roundupDiv SFS_BLKSIZE at *
    omega
  · rw [if_neg nothing] at newBlocks
    unfold roundupDiv SFS_BLKSIZE at *
    omega

theorem SfsFs.Sized.call_ends (sized : sfs.Sized) (ok : sfs.Consistent inodes) (call : SfsCall)
    (enabled : call.Enabled sfs inodes) (keepsSize : call.KeepsSize sfs) :
    CallEnds call.run (fun _ next => next.Consistent (call.remaining sfs inodes) ∧ next.Sized)
      (fun _ next => next.Consistent (call.remaining sfs inodes) ∧ next.Sized)
      (fun _ => True) sfs := by
  cases call with
  | load | refInc | refDec => exact keepsSize.elim
  | io node buf offset len write =>
    obtain ⟨sin, found, isFile⟩ := enabled
    rw [SfsCall.run, callEnds_bind]
    apply (sfsIoNolock_ends ok found isFile buf offset len write).mono
    · intro done next outcome
      rcases outcome with ⟨rfl, -⟩ | ⟨runs, -, sin', served⟩
      · exact ⟨ok, sized⟩
      refine ⟨served.consistent, sized.keeps served.keeps served.found ?_⟩
      have bounds := runs.bounds.1
      exact served.blocks_eq (by omega) (sized node sin found isFile) (keepsSize sin found runs)
    · exact fun _ _ impossible => impossible.elim
    · exact fun _ _ => trivial
  | tryseek node pos =>
    obtain ⟨sin, found, isFile⟩ := enabled
    apply (sfsTryseek_ends ok found pos).mono
    · intro _ next outcome
      rcases outcome with rfl | ⟨-, sin', resized⟩
      · exact ⟨ok, sized⟩
      · refine ⟨resized.consistent, sized.keeps resized.keeps resized.found ?_⟩
        rw [resized.blocks, resized.size]
    · intro _ next outcome
      rcases outcome with ⟨-, rfl⟩ | ⟨-, inRange, larger, sin', exhausted⟩
      · exact ⟨ok, sized⟩
      have allOrNothing := keepsSize sin found (by omega) larger
      exact ⟨exhausted.extended.consistent, exhausted.sized allOrNothing sized
        (sized node sin found isFile)⟩
    · exact fun _ _ => trivial
  | truncfile node len =>
    obtain ⟨sin, found, isFile⟩ := enabled
    apply (sfsTruncfile_ends ok found len).mono
    · intro _ next outcome
      rcases outcome with ⟨rfl, -⟩ | ⟨sin', resized⟩
      · exact ⟨ok, sized⟩
      · refine ⟨resized.consistent, sized.keeps resized.keeps resized.found ?_⟩
        rw [resized.blocks, resized.size]
    · intro _ next outcome
      rcases outcome with ⟨-, rfl, -⟩ | ⟨-, inRange, sin', exhausted⟩
      · exact ⟨ok, sized⟩
      have allOrNothing := keepsSize sin found (by omega)
      exact ⟨exhausted.extended.consistent, exhausted.sized allOrNothing sized
        (sized node sin found isFile)⟩
    · exact fun _ _ => trivial
  | fsync node =>
    obtain ⟨sin, found⟩ := enabled
    apply (callEnds_sfsFsync ok found).mpr
    split_ifs with dirty
    · refine ⟨ok.flush found, ?_⟩
      intro ino other isOther isFile
      by_cases isNode : ino = node
      · rw [isNode, flush_found] at isOther
        cases isOther
        exact sized node sin found isFile
      · rw [flush_other isNode] at isOther
        exact sized ino other isOther isFile
    · exact ⟨ok, sized⟩

end Sizes

theorem sampleImage_sized {free : Nat} (small : free ≤ 28) :
    ((sampleImage free).load 3).Consistent {1, 3} ∧ ((sampleImage free).load 3).Sized := by
  refine ⟨(sampleImage_kept small).consistent.load (by simp) rfl, ?_⟩
  intro ino sin found _
  by_cases isFile : ino = 3
  · subst isFile
    cases found
    have isDin : SfsDiskInode.ofBytes ((sampleImage free).dev.data 3) = emptyDin SFS_TYPE_FILE :=
      emptyDin_ofBytes (by decide)
    rw [isDin]
    rfl
  · rw [load_other isFile] at found
    cases found

/-- Along every run whose calls get all the blocks they ask for or none, every regular file has
as many blocks as its size needs, so the first assertion of `sfs_truncfile` cannot fail. -/
theorem sfs_run_size_blocks {start sfs : SfsFs} {inodes left : Finset Nat}
    (consistent : start.Consistent inodes) (startSized : start.Sized)
    (reaches : SfsReaches (fun sfs call => call.KeepsSize sfs) start inodes sfs left) :
    (∀ ino sin, sfs.sins ino = some sin → sin.din.type = SFS_TYPE_FILE →
      sin.din.blocks = roundupDiv sin.din.size SFS_BLKSIZE) ∧
    ∀ node len, (SfsCall.truncfile node len).Enabled sfs left →
      sfsTruncfile node len sfs ≠ .error .truncSize := by
  have kept : sfs.Consistent left ∧ sfs.Sized := by
    induction reaches with
    | start => exact ⟨consistent, startSized⟩
    | call call _ enabled keepsSize returns before =>
      exact (before.2.call_ends before.1 call enabled keepsSize).returned returns
  refine ⟨kept.2, ?_⟩
  intro node len enabled stops
  obtain ⟨sin, found, isFile⟩ := enabled
  have blocks := kept.2 node sin found isFile
  rcases (sfsTruncfile_ends kept.1 found len).stopped stops with ⟨-, size, differ⟩ | ⟨wrong, -⟩
  · rw [← size] at differ
    exact differ blocks.symm
  · cases wrong

/-- The empty file of the sample image grows to two blocks. -/
theorem sfs_run_size_blocks_two_blocks :
    ∃ sfs left sin, SfsReaches (fun sfs call => call.KeepsSize sfs) ((sampleImage 4).load 3) {1, 3}
        sfs left ∧ sfs.sins 3 = some sin ∧ sin.din.size = 8000 ∧
      sin.din.blocks = roundupDiv sin.din.size SFS_BLKSIZE := by
  obtain ⟨consistent, sized⟩ := sampleImage_sized (show 4 ≤ 28 by decide)
  have loaded : SfsReaches (fun sfs call => call.KeepsSize sfs) ((sampleImage 4).load 3) {1, 3}
      ((sampleImage 4).load 3) {1, 3} := .start
  have grown := loaded.call (.truncfile 3 8000) ⟨_, rfl, rfl⟩ (by
    intro sin found _
    left
    cases found
    decide) rfl
  exact ⟨_, _, _, grown, rfl, rfl, (sfs_run_size_blocks consistent sized grown).1 3 _ rfl rfl⟩

-- the search through a full bitmap visits all its words
set_option maxRecDepth 20000 in
/-- Growing an empty file to two blocks with one free block leaves a block but no size, and
the next call to `sfs_truncfile` stops. -/
theorem sfs_growth_part_way_splits_size :
    ((sampleImage 1).load 3).Consistent {1, 3} ∧ ((sampleImage 1).load 3).Sized ∧
      ∃ code sfs sin, sfsTruncfile 3 8192 ((sampleImage 1).load 3) = .ok (.error code, sfs) ∧
        sfs.sins 3 = some sin ∧ sin.din.size = 0 ∧ sin.din.blocks = 1 ∧
        sfsTruncfile 3 0 sfs = .error .truncSize := by
  obtain ⟨consistent, sized⟩ := sampleImage_sized (show 1 ≤ 28 by decide)
  exact ⟨consistent, sized, _, _, _, rfl, rfl, rfl, rfl, rfl⟩

end UcoreSmp
