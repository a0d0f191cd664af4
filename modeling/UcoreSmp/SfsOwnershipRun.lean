import UcoreSmp.SfsInodes
import UcoreSmp.SfsTransfer

/-!
# Block ownership along runs of SFS

A run starts from a mounted file system whose blocks have one owner each and makes
any calls that load, read, write, resize, flush and release inodes.  Beside the file
system it keeps the set of inode numbers, from which an inode disappears when it is
released without links.
-/

namespace UcoreSmp

open SfsFs

def sfsRefInc (node : Nat) : SfsM PUnit := do
  let sin ← getSin node
  putSin node (sin.setRefCount (sin.refCount + 1))

/-- The calls into SFS.  The flags of `load` say whether memory is available. -/
inductive SfsCall where
  | load (ino : Nat) (gotDin gotNode : Bool)
  | refInc (node : Nat)
  | refDec (node : Nat)
  | io (node : Nat) (buf : Bytes) (offset : Int) (len : Nat) (write : Bool)
  | tryseek (node : Nat) (pos : Int)
  | truncfile (node : Nat) (len : Int)
  | fsync (node : Nat)

namespace SfsCall

def run : SfsCall → SfsM PUnit
  | load ino gotDin gotNode => sfsLoadInode ino gotDin gotNode
  | refInc node => sfsRefInc node
  | refDec node => sfsRefDec node
  | io node buf offset len write => do
    let _ ← sfsIoNolock node buf offset len write
    pure PUnit.unit
  | tryseek node pos => sfsTryseek node pos
  | truncfile node len => sfsTruncfile node len
  | fsync node => sfsFsync node

/-- Inode numbers come from directories and nodes from earlier loads; only regular
files have the operations of files. -/
def Enabled (sfs : SfsFs) (inodes : Finset Nat) : SfsCall → Prop
  | load ino _ _ => ino ∈ inodes
  | refInc node | refDec node | fsync node => ∃ sin, sfs.sins node = some sin
  | io node _ _ _ _ | tryseek node _ | truncfile node _ =>
    ∃ sin, sfs.sins node = some sin ∧ sin.din.type = SFS_TYPE_FILE

def remaining (sfs : SfsFs) (inodes : Finset Nat) : SfsCall → Finset Nat
  | refDec node =>
    match sfs.sins node with
    | some sin =>
      if sin.refCount = 1 ∧ sin.din.nlinks = 0 then inodes.erase node else inodes
    | none => inodes
  | _ => inodes

/-- A transfer starts in a block of the file or right after its last one. -/
def StartsInside (sfs : SfsFs) : SfsCall → Prop
  | io node _ offset len write => ∀ sin, sfs.sins node = some sin →
      IoRuns sin write offset len → offset.toNat / SFS_BLKSIZE ≤ sin.din.blocks
  | _ => True

end SfsCall

inductive SfsReaches (property : SfsFs → SfsCall → Prop) (start : SfsFs)
    (inodes : Finset Nat) : SfsFs → Finset Nat → Prop
  | start : SfsReaches property start inodes start inodes
  | call {sfs next : SfsFs} {left : Finset Nat} {result : Except Int PUnit} (call : SfsCall) :
      SfsReaches property start inodes sfs left → call.Enabled sfs left → property sfs call →
      call.run sfs = .ok (result, next) →
      SfsReaches property start inodes next (call.remaining sfs left)

/-- Every inode in memory is referenced, and one reclaim is due for it. -/
def SfsFs.Referenced (sfs : SfsFs) : Prop :=
  ∀ ino sin, sfs.sins ino = some sin → 0 < sin.refCount ∧ sin.reclaimCount = 1

variable {sfs : SfsFs} {inodes : Finset Nat} {ino : Nat}

section Steps

variable {next : SfsFs} {node : Nat} {sin sin' : SfsInode}

theorem SfsFs.Referenced.keeps (referenced : sfs.Referenced)
    (keeps : KeepsOthers sfs next inodes node) (found : sfs.sins node = some sin)
    (found' : next.sins node = some sin') (refCount : sin'.refCount = sin.refCount)
    (reclaimCount : sin'.reclaimCount = sin.reclaimCount) : next.Referenced := by
  intro ino other isOther
  by_cases isNode : ino = node
  · subst isNode
    rw [found'] at isOther
    cases isOther
    rw [refCount, reclaimCount]
    exact referenced ino sin found
  · rw [keeps.sins ino isNode] at isOther
    exact referenced ino other isOther

theorem SfsFs.Referenced.setSin (referenced : sfs.Referenced) (refCount : 0 < sin'.refCount)
    (reclaimCount : sin'.reclaimCount = 1) : (sfs.setSin node sin').Referenced := by
  intro ino other isOther
  by_cases isNode : ino = node
  · rw [isNode, setSin_self] at isOther
    cases isOther
    exact ⟨refCount, reclaimCount⟩
  · rw [setSin_other isNode] at isOther
    exact referenced ino other isOther

structure SfsKept (sfs : SfsFs) (inodes : Finset Nat) : Prop where
  consistent : sfs.Consistent inodes
  referenced : sfs.Referenced

section

variable (kept : SfsKept sfs inodes)

include kept

section

variable (found : sfs.sins node = some sin)

include found

theorem SfsKept.setCounts (sameDin : sin'.din = sin.din) (sameDirty : sin'.dirty = sin.dirty)
    (refCount : 0 < sin'.refCount) (reclaimCount : sin'.reclaimCount = 1) :
    SfsKept (sfs.setSin node sin') inodes := by
  obtain ⟨member, sinOk⟩ := kept.consistent.loaded node sin found
  have size := (kept.consistent.files node member).size
  rw [dinOf_some found] at size
  refine ⟨?_, kept.referenced.setSin refCount reclaimCount⟩
  apply kept.consistent.setSin found
  · rw [sameDin]
  · rw [sameDin]
  · rw [sameDin]
  · rw [sameDin]
  · rw [sameDin]
  · rw [sameDin]
    exact size
  · rw [sameDin, sameDirty]
    exact sinOk.synced

theorem SfsKept.extended {bytes : Bytes} (extended : Extended sfs next inodes node sin sin' bytes) :
    SfsKept next inodes :=
  ⟨extended.consistent, kept.referenced.keeps extended.keeps found extended.found
    extended.refCount extended.reclaimCount⟩

theorem SfsKept.resized {len : Nat} (resized : Resized sfs next inodes node len sin sin') :
    SfsKept next inodes :=
  ⟨resized.consistent, kept.referenced.keeps resized.keeps found resized.found
    resized.refCount resized.reclaimCount⟩

theorem SfsKept.refDec : CallEnds (sfsRefDec node)
      (fun _ next => SfsKept next ((SfsCall.refDec node).remaining sfs inodes))
      (fun _ _ => False) (fun fault => fault = .truncSize) sfs := by
  obtain ⟨refCount, reclaimCount⟩ := kept.referenced node sin found
  have isRemaining : (SfsCall.refDec node).remaining sfs inodes =
      if sin.refCount = 1 ∧ sin.din.nlinks = 0 then inodes.erase node else inodes := by
    rw [SfsCall.remaining, found]
  rw [isRemaining]
  simp only [sfsRefDec, callEnds_bind, callEnds_getSin found, callEnds_ensure, putSin,
    callEnds_modify, callEnds_ite, callEnds_attempt, callEnds_pure]
  refine ⟨fun _ => ⟨fun last => ?_, fun more => ?_⟩, fun none => absurd refCount none⟩
  · obtain ⟨member, sinOk⟩ := kept.consistent.loaded node sin found
    have size := (kept.consistent.files node member).size
    rw [dinOf_some found] at size
    have counted : (sfs.setSin node (sin.setRefCount (sin.refCount - 1))).Consistent inodes := by
      apply kept.consistent.setSin found
      · rfl
      · rfl
      · rfl
      · rfl
      · rfl
      · exact size
      · exact sinOk.synced
    have wasOne : sin.refCount = 1 := by omega
    apply (sfsReclaim_ends counted setSin_self last reclaimCount).mono
    · rintro _ next ⟨consistent, sins⟩
      refine ⟨?_, ?_⟩
      · simp only [wasOne, true_and]
        exact consistent
      intro ino other isOther
      rw [sins] at isOther
      by_cases isNode : ino = node
      · rw [isNode, Function.update_self] at isOther
        cases isOther
      · rw [Function.update_of_ne isNode, setSin_other isNode] at isOther
        exact kept.referenced ino other isOther
    · intro _ _ impossible
      exact impossible.elim
    · intro fault outcome
      exact outcome.1
  have notOne : ¬ (sin.refCount = 1 ∧ sin.din.nlinks = 0) := by omega
  rw [if_neg notOne]
  apply kept.setCounts found
  · rfl
  · rfl
  · change 0 < sin.refCount - 1
    omega
  · exact reclaimCount

end

theorem SfsKept.load (member : ino ∈ inodes) (gotDin gotNode : Bool) :
    CallEnds (sfsLoadInode ino gotDin gotNode) (fun _ next => SfsKept next inodes)
      (fun _ next => SfsKept next inodes) (fun _ => False) sfs := by
  simp only [sfsLoadInode, callEnds_bind, callEnds_get]
  cases found : sfs.sins ino with
  | some sin =>
    obtain ⟨refCount, reclaimCount⟩ := kept.referenced ino sin found
    have notFirst : ¬ sin.refCount + 1 = 1 := by omega
    simp only [lookupSfs, putSin, callEnds_modify, if_neg notFirst]
    apply kept.setCounts found
    · rfl
    · rfl
    · change 0 < sin.refCount + 1
      omega
    · exact reclaimCount
  | none =>
    apply (loadFromDisk_ends kept.consistent member found gotDin gotNode).mono
    · intro _ next isNext
      subst isNext
      refine ⟨kept.consistent.load member found, ?_⟩
      intro other sin isOther
      by_cases isIno : other = ino
      · rw [isIno, load_found] at isOther
        cases isOther
        exact ⟨Int.one_pos, rfl⟩
      · rw [load_other isIno] at isOther
        exact kept.referenced other sin isOther
    · rintro code next ⟨-, rfl⟩
      exact kept
    · intro _ impossible
      exact impossible

/-- One call.  Of the assertions, only the one of `sfs_bmap_load_nolock` about its index
and the first one of `sfs_truncfile` can fail. -/
theorem SfsKept.call_ends (call : SfsCall) (enabled : call.Enabled sfs inodes) :
    CallEnds call.run (fun _ next => SfsKept next (call.remaining sfs inodes))
      (fun _ next => SfsKept next (call.remaining sfs inodes))
      (fun fault => (fault = .loadIndex ∧ ¬ call.StartsInside sfs) ∨
        fault = .indexOutOfRange ∨ fault = .truncSize) sfs := by
  cases call with
  | load ino gotDin gotNode =>
    apply (kept.load enabled gotDin gotNode).mono
    · exact fun _ _ nextKept => nextKept
    · exact fun _ _ nextKept => nextKept
    · exact fun _ impossible => impossible.elim
  | refInc node =>
    obtain ⟨sin, found⟩ := enabled
    obtain ⟨refCount, reclaimCount⟩ := kept.referenced node sin found
    simp only [SfsCall.run, sfsRefInc, callEnds_bind, callEnds_getSin found, putSin,
      callEnds_modify]
    apply kept.setCounts found
    · rfl
    · rfl
    · change 0 < sin.refCount + 1
      omega
    · exact reclaimCount
  | refDec node =>
    obtain ⟨sin, found⟩ := enabled
    apply (kept.refDec found).mono
    · exact fun _ _ nextKept => nextKept
    · exact fun _ _ impossible => impossible.elim
    · exact fun _ isFault => .inr (.inr isFault)
  | io node buf offset len write =>
    obtain ⟨sin, found, isFile⟩ := enabled
    rw [SfsCall.run, callEnds_bind]
    apply (sfsIoNolock_ends kept.consistent found isFile buf offset len write).mono
    · intro done next outcome
      rcases outcome with ⟨rfl, -⟩ | ⟨-, -, sin', served⟩
      · exact kept
      · exact ⟨served.consistent, kept.referenced.keeps served.keeps found served.found
          served.refCount served.reclaimCount⟩
    · exact fun _ _ impossible => impossible.elim
    rintro fault ⟨runs, ⟨isFault, outside⟩ | ⟨-, isFault, -⟩⟩
    · refine .inl ⟨isFault, fun inside => ?_⟩
      exact absurd (inside sin found runs) (Nat.not_le.mpr outside)
    · exact .inr (.inl isFault)
  | tryseek node pos =>
    obtain ⟨sin, found, -⟩ := enabled
    apply (sfsTryseek_ends kept.consistent found pos).mono
    · intro _ next outcome
      rcases outcome with rfl | ⟨-, sin', resized⟩
      · exact kept
      · exact kept.resized found resized
    · intro _ next outcome
      rcases outcome with ⟨-, rfl⟩ | ⟨-, -, -, sin', exhausted⟩
      · exact kept
      · exact kept.extended found exhausted.extended
    · exact fun _ outcome => .inr (.inl outcome.1)
  | truncfile node len =>
    obtain ⟨sin, found, -⟩ := enabled
    apply (sfsTruncfile_ends kept.consistent found len).mono
    · intro _ next outcome
      rcases outcome with ⟨rfl, -⟩ | ⟨sin', resized⟩
      · exact kept
      · exact kept.resized found resized
    · intro _ next outcome
      rcases outcome with ⟨-, rfl, -⟩ | ⟨-, -, sin', exhausted⟩
      · exact kept
      · exact kept.extended found exhausted.extended
    intro fault outcome
    rcases outcome with ⟨isFault, -⟩ | ⟨isFault, -⟩
    · exact .inr (.inr isFault)
    · exact .inr (.inl isFault)
  | fsync node =>
    obtain ⟨sin, found⟩ := enabled
    apply (callEnds_sfsFsync kept.consistent found).mpr
    split_ifs with dirty
    · refine ⟨kept.consistent.flush found, ?_⟩
      obtain ⟨refCount, reclaimCount⟩ := kept.referenced node sin found
      exact SfsFs.Referenced.setSin kept.referenced refCount reclaimCount
    · exact kept

end

theorem SfsReaches.kept {property : SfsFs → SfsCall → Prop} {start : SfsFs}
    {left : Finset Nat} (reaches : SfsReaches property start inodes sfs left)
    (startKept : SfsKept start inodes) : SfsKept sfs left := by
  induction reaches with
  | start => exact startKept
  | call call _ enabled _ returns before =>
    exact (before.call_ends call enabled).returned returns

end Steps

def emptyDin (type : Nat) : SfsDiskInode :=
  ⟨0, type, 1, 0, fun _ => 0, 0⟩

def sampleSuper (free : Nat) : SfsSuper :=
  ⟨SFS_MAGIC, 4 + free, free, fun _ => 0⟩

def sampleFreemap (free : Nat) : Bitmap :=
  ⟨SFS_BLKBITS, SFS_BLKBITS / WORD_BITS,
    fun ix => if ix = 0 then BitVec.ofNat 32 ((2 ^ free - 1) * 2 ^ 4) else 0⟩

/-- A mounted file system with an empty root directory, an empty file with inode number
three, and some free blocks. -/
def sampleImage (free : Nat) : SfsFs where
  dev :=
    { data := fun blkno =>
        match blkno with
        | 0 => (sampleSuper free).image
        | 1 => (emptyDin SFS_TYPE_DIR).image
        | 2 => (sampleFreemap free).image
        | 3 => (emptyDin SFS_TYPE_FILE).image
        | _ => fun _ => 0
      dBlocks := 4 + free
      dBlocksize := SFS_BLKSIZE
      results := [] }
  super := sampleSuper free
  freemap := sampleFreemap free
  superDirty := false
  sins := fun _ => none
  inodeList := []

section Sample

variable {free : Nat}

theorem sampleFreemap_isFree (small : free ≤ 28) (index : Nat) :
    (sampleFreemap free).isFree index = decide (4 ≤ index ∧ index < 4 + free) := by
  unfold Bitmap.isFree sampleFreemap WORD_BITS
  by_cases first : index / 32 = 0
  · have below : index < 32 := by omega
    have sameBit : index % 32 = index := Nat.mod_eq_of_lt below
    simp only [first, if_true, sameBit, BitVec.getLsbD_ofNat, Nat.testBit_mul_two_pow,
      Nat.testBit_two_pow_sub_one]
    by_cases large : 4 ≤ index
    · simp only [below, large, decide_true, Bool.true_and, true_and, decide_eq_decide]
      omega
    · simp [large]
  · have above : ¬ index < 4 + free := by omega
    simp [first, above]

theorem emptyDin_ofBytes {type : Nat} (small : type < 2 ^ 16) :
    SfsDiskInode.ofBytes (emptyDin type).image = emptyDin type := by
  have zero : 0 < 2 ^ 32 := by decide
  have one : 1 < 2 ^ 16 := by decide
  exact SfsDiskInode.ofBytes_image ⟨zero, small, one, zero, fun _ => zero, zero⟩

theorem sampleImage_dinOf (free : Nat) (member : ino ∈ ({1, 3} : Finset Nat)) :
    ∃ type, (type = SFS_TYPE_FILE ∨ type = SFS_TYPE_DIR) ∧
      (sampleImage free).dinOf ino = emptyDin type := by
  rw [Finset.mem_insert, Finset.mem_singleton] at member
  rcases member with rfl | file
  · exact ⟨SFS_TYPE_DIR, .inr rfl, emptyDin_ofBytes (by decide)⟩
  · subst file
    exact ⟨SFS_TYPE_FILE, .inl rfl, emptyDin_ofBytes (by decide)⟩

theorem sampleImage_slot (member : ino ∈ ({1, 3} : Finset Nat)) (k : Nat) :
    (sampleImage free).slot ino k = 0 := by
  obtain ⟨type, -, isDin⟩ := sampleImage_dinOf free member
  rw [slot, isDin]
  simp [blockOf, emptyDin]

theorem sampleImage_claims (small : free ≤ 28) :
    Claims ((sampleImage free).place {1, 3}) (sampleImage free).InUse := by
  have oneBlock : sfsFreemapBlocks (sampleImage free).super = 1 := by
    change (4 + free + SFS_BLKBITS - 1) % 2 ^ 32 / SFS_BLKBITS = 1
    unfold SFS_BLKBITS SFS_BLKSIZE
    omega
  have owned : ∀ owner blkno, (sampleImage free).place {1, 3} owner = some blkno ↔
      (owner = .super ∧ blkno = 0) ∨ (owner = .inode 1 ∧ blkno = 1) ∨
        (owner = .freemap 0 ∧ blkno = 2) ∨ (owner = .inode 3 ∧ blkno = 3) := by
    intro owner blkno
    cases owner with
    | super => simp [place, SFS_BLKN_SUPER, eq_comm]
    | freemap j =>
      simp only [place, oneBlock, SFS_BLKN_FREEMAP]
      by_cases first : j = 0
      · subst first
        simp [eq_comm]
      · simp [first]
    | inode ino =>
      simp only [place, Finset.mem_insert, Finset.mem_singleton]
      by_cases member : ino = 1 ∨ ino = 3
      · rcases member with rfl | file
        · simp [eq_comm]
        · subst file
          simp [eq_comm]
      · rw [not_or] at member
        simp [member]
    | indirect ino =>
      by_cases member : ino ∈ ({1, 3} : Finset Nat)
      · obtain ⟨type, -, isDin⟩ := sampleImage_dinOf free member
        simp [place, isDin, emptyDin]
      · rw [place, if_neg member]
        simp
    | slot ino k =>
      by_cases member : ino ∈ ({1, 3} : Finset Nat)
      · simp [place, sampleImage_slot member]
      · rw [place, if_neg member]
        simp
  constructor
  · intro blkno
    have inUse : (sampleImage free).InUse blkno ↔ blkno < 4 := by
      change blkno < 4 + free ∧ (sampleFreemap free).isFree blkno = false ↔ _
      rw [sampleFreemap_isFree small, decide_eq_false_iff_not]
      omega
    rw [inUse]
    constructor
    · intro below
      have oneOf : blkno = 0 ∨ blkno = 1 ∨ blkno = 2 ∨ blkno = 3 := by omega
      rcases oneOf with rfl | rfl | rfl | rfl
      · exact ⟨.super, (owned _ _).mpr (by simp)⟩
      · exact ⟨.inode 1, (owned _ _).mpr (by simp)⟩
      · exact ⟨.freemap 0, (owned _ _).mpr (by simp)⟩
      · exact ⟨.inode 3, (owned _ _).mpr (by simp)⟩
    · rintro ⟨owner, isOwned⟩
      rw [owned] at isOwned
      omega
  intro owner owner' blkno isOwned isOwned'
  rw [owned] at isOwned isOwned'
  rcases isOwned with ⟨isOwner, isBlock⟩ | ⟨isOwner, isBlock⟩ | ⟨isOwner, isBlock⟩ |
    ⟨isOwner, isBlock⟩ <;>
  · subst isOwner isBlock
    simpa [eq_comm] using isOwned'

theorem sampleImage_alloc (small : free ≤ 28) : (sampleImage free).AllocOk := by
  have isFree := sampleFreemap_isFree small
  constructor
  · constructor
    · change SFS_BLKBITS / WORD_BITS = (SFS_BLKBITS + WORD_BITS - 1) / WORD_BITS
      decide
    intro index isFreeIndex
    change (sampleFreemap free).isFree index = true at isFreeIndex
    rw [isFree, decide_eq_true_iff] at isFreeIndex
    change index < SFS_BLKBITS
    unfold SFS_BLKBITS SFS_BLKSIZE
    omega
  · change 4 + free ≤ SFS_BLKBITS
    unfold SFS_BLKBITS SFS_BLKSIZE
    omega
  · intro blkno isFreeBlock
    change (sampleFreemap free).isFree blkno = true at isFreeBlock
    rw [isFree, decide_eq_true_iff] at isFreeBlock
    change blkno ≠ 0 ∧ blkno < 4 + free
    omega
  have freeBlocks : (sampleImage free).freeBlocks = Finset.Ico 4 (4 + free) := by
    ext blkno
    rw [mem_freeBlocks, Finset.mem_Ico]
    change blkno < 4 + free ∧ (sampleFreemap free).isFree blkno = true ↔ _
    rw [isFree, decide_eq_true_iff]
    omega
  rw [freeBlocks, Nat.card_Ico]
  change free = 4 + free - 4
  omega

theorem sampleImage_kept (small : free ≤ 28) : SfsKept (sampleImage free) {1, 3} := by
  constructor
  · constructor
    · refine ⟨rfl, le_rfl, ?_⟩
      change 4 + free ≤ 2 ^ 19
      omega
    · exact sampleImage_alloc small
    · exact sampleImage_claims small
    · intro ino member
      obtain ⟨type, isType, isDin⟩ := sampleImage_dinOf free member
      constructor
      · rw [isDin]
        exact isType
      · rw [isDin]
        exact Nat.two_pow_pos 32
      · rw [isDin]
        exact Nat.one_lt_two_pow (by decide)
      · rw [isDin]
        exact Nat.zero_le _
      · intro k below
        rw [isDin] at below
        exact absurd below (Nat.not_lt_zero k)
      · intro _
        rw [isDin]
        exact Nat.one_ne_zero
    · intro ino sin found
      cases found
    · intro ino
      simp [sampleImage]
    · exact List.nodup_nil
  · intro ino sin found
    cases found

end Sample

/-- The owners that belong to an inode. -/
def BlockOwner.OfInode : BlockOwner → Prop
  | .inode _ | .indirect _ | .slot _ _ => True
  | _ => False

/-- A block is in use exactly if it is the superblock, a block of the freemap, or has
exactly one owner among the inodes. -/
theorem SfsFs.Consistent.inUse_iff (ok : sfs.Consistent inodes)
    {blkno : Nat} (inside : blkno < sfs.super.blocks) : sfs.freemap.isFree blkno = false ↔ blkno =
      SFS_BLKN_SUPER ∨ (∃ j, j < sfsFreemapBlocks sfs.super ∧ blkno = SFS_BLKN_FREEMAP + j) ∨
      ∃! owner : BlockOwner, owner.OfInode ∧ sfs.place inodes owner = some blkno := by
  constructor
  · intro inUse
    obtain ⟨owner, owned⟩ := (ok.owners.covers blkno).mp ⟨inside, inUse⟩
    have only : owner.OfInode →
        ∃! owner : BlockOwner, owner.OfInode ∧ sfs.place inodes owner = some blkno :=
      fun ofInode => ⟨owner, ⟨ofInode, owned⟩, fun _ both => ok.owners.unique both.2 owned⟩
    cases owner with
    | super =>
      cases owned
      exact .inl rfl
    | freemap j =>
      simp only [place] at owned
      split_ifs at owned with below
      cases owned
      exact .inr (.inl ⟨j, below, rfl⟩)
    | inode | indirect | slot => exact .inr (.inr (only trivial))
  rintro (isSuper | ⟨j, below, isFreemap⟩ | ⟨owner, ⟨-, owned⟩, -⟩)
  · have owned : sfs.place inodes .super = some blkno := congrArg some isSuper.symm
    exact (ok.inUse owned).2
  · have owned : sfs.place inodes (.freemap j) = some blkno := by
      rw [place, if_pos below, isFreemap]
    exact (ok.inUse owned).2
  · exact (ok.inUse owned).2

/-- Along every run whose transfers start inside the file or right after it, blocks in use
have exactly one owner, `unused_blocks` counts the free ones, and no assertion of the block
allocator or of the block map fails. -/
theorem sfs_run_ownership {start sfs : SfsFs} {inodes left : Finset Nat}
    (consistent : start.Consistent inodes) (referenced : start.Referenced)
    (reaches : SfsReaches (fun sfs call => call.StartsInside sfs) start inodes sfs left) :
    (∀ blkno, blkno < sfs.super.blocks →
      (sfs.freemap.isFree blkno = false ↔ blkno = SFS_BLKN_SUPER ∨
        (∃ j, j < sfsFreemapBlocks sfs.super ∧ blkno = SFS_BLKN_FREEMAP + j) ∨
        ∃! owner : BlockOwner, owner.OfInode ∧ sfs.place left owner = some blkno)) ∧
    (∀ owner owner' blkno, sfs.place left owner = some blkno →
      sfs.place left owner' = some blkno → owner = owner') ∧
    sfs.super.unusedBlocks = sfs.freeBlocks.card ∧
    ∀ call : SfsCall, call.Enabled sfs left → call.StartsInside sfs →
      ∀ fault, call.run sfs = .error fault → fault = .indexOutOfRange ∨ fault = .truncSize := by
  have kept := reaches.kept ⟨consistent, referenced⟩
  refine ⟨fun blkno inside => kept.consistent.inUse_iff inside,
    fun _ _ _ owned owned' => kept.consistent.owners.unique owned owned',
    kept.consistent.alloc.counted, ?_⟩
  intro call enabled inside fault stops
  rcases (kept.call_ends call enabled).stopped stops with ⟨-, outside⟩ | allowed
  · exact absurd inside outside
  · exact allowed

/-- One byte written to the empty file takes one of the free blocks. -/
theorem sfs_run_ownership_first_write :
    ∃ sfs left, SfsReaches (fun sfs call => call.StartsInside sfs) (sampleImage 4) {1, 3} sfs left ∧
      sfs.super.unusedBlocks = 3 ∧ sfs.super.unusedBlocks = sfs.freeBlocks.card := by
  have kept : SfsKept (sampleImage 4) {1, 3} := sampleImage_kept (by decide)
  have mounted : SfsReaches (fun sfs call => call.StartsInside sfs) (sampleImage 4) {1, 3}
      (sampleImage 4) {1, 3} := .start
  have loaded := mounted.call (.load 3 true true) (by simp [SfsCall.Enabled]) trivial rfl
  have written := loaded.call (.io 3 (fun _ => 0) 0 1 true)
    ⟨_, rfl, rfl⟩ (fun _ _ _ => Nat.zero_le _) rfl
  exact ⟨_, _, written, rfl, (sfs_run_ownership kept.consistent kept.referenced written).2.2.1⟩

/-- A write two blocks beyond the end of an empty file violates the assertion of
`sfs_bmap_load_nolock`. -/
theorem sfs_write_beyond_end_stops :
    (sampleImage 4).Consistent {1, 3} ∧ (sampleImage 4).Referenced ∧ ∃ sfs left,
        SfsReaches (fun sfs call => call.StartsInside sfs) (sampleImage 4) {1, 3} sfs left ∧
        (SfsCall.io 3 (fun _ => 0) 8192 1 true).Enabled sfs left ∧
        (SfsCall.io 3 (fun _ => 0) 8192 1 true).run sfs = .error .loadIndex := by
  have kept : SfsKept (sampleImage 4) {1, 3} := sampleImage_kept (by decide)
  have mounted : SfsReaches (fun sfs call => call.StartsInside sfs) (sampleImage 4) {1, 3}
      (sampleImage 4) {1, 3} := .start
  have loaded := mounted.call (.load 3 true true) (by simp [SfsCall.Enabled]) trivial rfl
  exact ⟨kept.consistent, kept.referenced, _, _, loaded, ⟨_, rfl, rfl⟩, rfl⟩

end UcoreSmp
