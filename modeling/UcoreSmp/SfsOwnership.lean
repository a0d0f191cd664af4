import UcoreSmp.ResourceOwners
import UcoreSmp.SfsBlockIo

/-!
# Who owns a block

A block in use is the superblock, a block of the freemap, an inode, the indirect
block of a file or one of its data blocks, and nothing else.  `Consistent` says
so of a mounted file system, for a set of inode numbers, together with what the
routines rely on for each inode.  A routine that works on one file leaves the
blocks of all others alone; `KeepsOthers` is that frame condition.
-/

namespace UcoreSmp

open Function SfsFs SfsDiskInode

def SFS_MAX_BLOCKS : Nat := SFS_NDIRECT + SFS_BLK_NENTRY

def blockOf (data : Nat → Bytes) (din : SfsDiskInode) (k : Nat) : Nat :=
  if direct : k < SFS_NDIRECT then din.direct ⟨k, direct⟩
  else if k < SFS_MAX_BLOCKS ∧ din.indirect ≠ 0 then
    leNat 4 (data din.indirect) ((k - SFS_NDIRECT) * 4)
  else 0

inductive BlockOwner where
  | super
  | freemap (j : Nat)
  | inode (ino : Nat)
  | indirect (ino : Nat)
  | slot (ino k : Nat)
  deriving DecidableEq

/-- The file whose block map the block belongs to. -/
def BlockOwner.file : BlockOwner → Option Nat
  | .indirect ino | .slot ino _ => some ino
  | _ => none

def nonzero (blkno : Nat) : Option Nat :=
  if blkno = 0 then none else some blkno

/-- An inode with the same contents, up to a block count that may lag behind. -/
structure SfsDiskInode.Lags (old din : SfsDiskInode) : Prop where
  size : old.size = din.size
  type : old.type = din.type
  nlinks : old.nlinks = din.nlinks
  blocks : old.blocks ≤ din.blocks
  direct : old.direct = din.direct
  indirect : old.indirect = din.indirect

theorem SfsDiskInode.Lags.refl (din : SfsDiskInode) : din.Lags din :=
  ⟨rfl, rfl, rfl, le_rfl, rfl, rfl⟩

namespace SfsFs

def dinOf (sfs : SfsFs) (ino : Nat) : SfsDiskInode :=
  match sfs.sins ino with
  | some sin => sin.din
  | none => ofBytes (sfs.dev.data ino)

def slot (sfs : SfsFs) (ino k : Nat) : Nat :=
  blockOf sfs.dev.data (sfs.dinOf ino) k

/-- The block that an owner has. -/
def place (sfs : SfsFs) (inodes : Finset Nat) : BlockOwner → Option Nat
  | .super => some SFS_BLKN_SUPER
  | .freemap j => if j < sfsFreemapBlocks sfs.super then some (SFS_BLKN_FREEMAP + j) else none
  | .inode ino => if ino ∈ inodes then some ino else none
  | .indirect ino => if ino ∈ inodes then nonzero (sfs.dinOf ino).indirect else none
  | .slot ino k => if ino ∈ inodes then nonzero (sfs.slot ino k) else none

def InUse (sfs : SfsFs) (blkno : Nat) : Prop :=
  blkno < sfs.super.blocks ∧ sfs.freemap.isFree blkno = false

/-- What holds of every file, in memory or on disk. -/
structure FileOk (sfs : SfsFs) (ino : Nat) : Prop where
  type : (sfs.dinOf ino).type = SFS_TYPE_FILE ∨ (sfs.dinOf ino).type = SFS_TYPE_DIR
  size : (sfs.dinOf ino).size < 2 ^ 32
  nlinks : (sfs.dinOf ino).nlinks < 2 ^ 16
  blocks : (sfs.dinOf ino).blocks ≤ SFS_MAX_BLOCKS
  mapped : ∀ k, k < (sfs.dinOf ino).blocks → sfs.slot ino k ≠ 0
  onDisk : sfs.sins ino = none → (sfs.dinOf ino).nlinks ≠ 0

structure SinOk (sfs : SfsFs) (ino : Nat) (sin : SfsInode) : Prop where
  unlinked : sin.din.nlinks = 0 → sin.din.type = SFS_TYPE_FILE ∧
    ∀ k, sin.din.blocks ≤ k → sfs.slot ino k = 0
  synced : sin.dirty = false → (ofBytes (sfs.dev.data ino)).Lags sin.din

/-- A mounted file system whose blocks have one owner each. -/
structure Consistent (sfs : SfsFs) (inodes : Finset Nat) : Prop where
  device : sfs.DeviceOk
  alloc : sfs.AllocOk
  owners : Claims (sfs.place inodes) sfs.InUse
  files : ∀ ino ∈ inodes, sfs.FileOk ino
  loaded : ∀ ino sin, sfs.sins ino = some sin → ino ∈ inodes ∧ sfs.SinOk ino sin
  listed : ∀ ino, ino ∈ sfs.inodeList ↔ sfs.sins ino ≠ none
  nodup : sfs.inodeList.Nodup

end SfsFs

variable {sfs next : SfsFs} {inodes : Finset Nat} {node ino k blkno : Nat} {sin sin' : SfsInode}
  {owner : BlockOwner}

theorem SfsFs.FileOk.congr (file : sfs.FileOk ino) (din : next.dinOf ino = sfs.dinOf ino)
    (slots : ∀ k, next.slot ino k = sfs.slot ino k) (sins : next.sins ino = sfs.sins ino) :
    next.FileOk ino := by
  obtain ⟨type, size, nlinks, blocks, mapped, onDisk⟩ := file
  simp only [← din, ← slots, ← sins] at type size nlinks blocks mapped onDisk
  exact ⟨type, size, nlinks, blocks, mapped, onDisk⟩

theorem SfsFs.SinOk.congr (sinOk : sfs.SinOk ino sin)
    (slots : ∀ k, next.slot ino k = sfs.slot ino k)
    (data : next.dev.data ino = sfs.dev.data ino) : next.SinOk ino sin := by
  obtain ⟨unlinked, synced⟩ := sinOk
  simp only [← slots, ← data] at unlinked synced
  exact ⟨unlinked, synced⟩

@[simp]
theorem nonzero_eq_some {blkno' : Nat} :
    nonzero blkno = some blkno' ↔ blkno = blkno' ∧ blkno ≠ 0 := by
  unfold nonzero
  by_cases zero : blkno = 0
  · simp [zero]
  · simp [zero]

theorem dinOf_some (found : sfs.sins ino = some sin) : sfs.dinOf ino = sin.din := by
  rw [dinOf, found]

theorem dinOf_congr (sins : next.sins ino = sfs.sins ino)
    (data : next.dev.data ino = sfs.dev.data ino) : next.dinOf ino = sfs.dinOf ino := by
  unfold dinOf
  rw [sins, data]

theorem slot_some (found : sfs.sins ino = some sin) :
    sfs.slot ino k = blockOf sfs.dev.data sin.din k := by
  rw [slot, dinOf_some found]

theorem place_inode (member : ino ∈ inodes) : sfs.place inodes (.inode ino) = some ino :=
  if_pos member

theorem place_indirect (member : ino ∈ inodes) (present : (sfs.dinOf ino).indirect ≠ 0) :
    sfs.place inodes (.indirect ino) = some (sfs.dinOf ino).indirect := by
  simp [place, member, present]

theorem place_slot (member : ino ∈ inodes) (present : sfs.slot ino k ≠ 0) :
    sfs.place inodes (.slot ino k) = some (sfs.slot ino k) := by
  simp [place, member, present]

theorem blockOf_ge (data : Nat → Bytes) (din : SfsDiskInode) (large : SFS_MAX_BLOCKS ≤ k) :
    blockOf data din k = 0 := by
  have notDirect : ¬ k < SFS_NDIRECT := by
    unfold SFS_MAX_BLOCKS at large
    omega
  rw [blockOf, dif_neg notDirect, if_neg]
  omega

theorem blockOf_congr {data data' : Nat → Bytes} {din : SfsDiskInode}
    (same : din.indirect ≠ 0 → data' din.indirect = data din.indirect) :
    blockOf data' din k = blockOf data din k := by
  unfold blockOf
  by_cases direct : k < SFS_NDIRECT
  · rw [dif_pos direct, dif_pos direct]
  by_cases inside : k < SFS_MAX_BLOCKS ∧ din.indirect ≠ 0
  · rw [if_pos inside, if_pos inside, same inside.2]
  · rw [if_neg inside, if_neg inside]

/-- What a routine that works on one file leaves alone: the other inodes in memory,
every block that is not in the block map of the file, and the superblock and
freemap unless they become dirty. -/
structure KeepsOthers (sfs next : SfsFs) (inodes : Finset Nat) (node : Nat) : Prop where
  sins : ∀ ino, ino ≠ node → next.sins ino = sfs.sins ino
  data : ∀ owner blkno, sfs.place inodes owner = some blkno → owner.file ≠ some node →
    next.dev.data blkno = sfs.dev.data blkno
  loaded : ∃ sin sin', sfs.sins node = some sin ∧ next.sins node = some sin'
  inodeList : next.inodeList = sfs.inodeList
  dBlocks : next.dev.dBlocks = sfs.dev.dBlocks
  results : next.dev.results = sfs.dev.results
  blocks : next.super.blocks = sfs.super.blocks
  super : next.superDirty = true ∨ (next.superDirty = sfs.superDirty ∧
    next.super = sfs.super ∧ next.freemap = sfs.freemap)

namespace KeepsOthers

variable {last : SfsFs}

theorem refl (found : sfs.sins node = some sin) : KeepsOthers sfs sfs inodes node :=
  ⟨fun _ _ => rfl, fun _ _ _ _ => rfl, ⟨sin, sin, found, found⟩, rfl, rfl, rfl, rfl,
    .inr ⟨rfl, rfl, rfl⟩⟩

section

variable (keeps : KeepsOthers sfs next inodes node)

include keeps

theorem dinOf (other : ino ≠ node) (member : ino ∈ inodes) : next.dinOf ino = sfs.dinOf ino := by
  apply dinOf_congr (keeps.sins ino other)
  exact keeps.data (.inode ino) ino (place_inode member) (by simp [BlockOwner.file])

theorem slot (other : ino ≠ node) (member : ino ∈ inodes) : next.slot ino k = sfs.slot ino k := by
  unfold SfsFs.slot
  rw [keeps.dinOf other member]
  apply blockOf_congr
  intro present
  apply keeps.data (.indirect ino) _ (place_indirect member present)
  simpa [BlockOwner.file] using other

theorem place (other : owner.file ≠ some node) :
    next.place inodes owner = sfs.place inodes owner := by
  cases owner with
  | super => rfl
  | freemap j =>
    have same : sfsFreemapBlocks next.super = sfsFreemapBlocks sfs.super := by
      rw [sfsFreemapBlocks, keeps.blocks]
      rfl
    rw [SfsFs.place, SfsFs.place, same]
  | inode ino => rfl
  | indirect ino =>
    simp only [SfsFs.place]
    by_cases member : ino ∈ inodes
    · rw [keeps.dinOf (by simpa [BlockOwner.file] using other) member]
    · simp [member]
  | slot ino k =>
    simp only [SfsFs.place]
    by_cases member : ino ∈ inodes
    · rw [keeps.slot (by simpa [BlockOwner.file] using other) member]
    · simp [member]

theorem trans (keeps' : KeepsOthers next last inodes node) : KeepsOthers sfs last inodes node where
  sins ino other := (keeps'.sins ino other).trans (keeps.sins ino other)
  data owner blkno owned other := by
    rw [← keeps.data owner blkno owned other]
    apply keeps'.data owner blkno _ other
    rw [keeps.place other]
    exact owned
  loaded := by
    obtain ⟨sin, -, found, -⟩ := keeps.loaded
    obtain ⟨-, sin', -, found'⟩ := keeps'.loaded
    exact ⟨sin, sin', found, found'⟩
  inodeList := keeps'.inodeList.trans keeps.inodeList
  dBlocks := keeps'.dBlocks.trans keeps.dBlocks
  results := keeps'.results.trans keeps.results
  blocks := keeps'.blocks.trans keeps.blocks
  super := by
    cases keeps'.super with
    | inl dirty => exact .inl dirty
    | inr same' =>
      obtain ⟨dirty', super', freemap'⟩ := same'
      cases keeps.super with
      | inl dirty => exact .inl (dirty'.trans dirty)
      | inr same =>
        obtain ⟨dirty, super, freemap⟩ := same
        exact .inr ⟨dirty'.trans dirty, super'.trans super, freemap'.trans freemap⟩

end

end KeepsOthers

/-- The owners after a routine that changed one slot of a file and perhaps its
indirect block. -/
theorem KeepsOthers.place_eq (keeps : KeepsOthers sfs next inodes node) (member : node ∈ inodes)
    (slots : ∀ j, next.slot node j = if j = k then blkno else sfs.slot node j) :
    next.place inodes = update (update (sfs.place inodes) (.indirect node)
        (nonzero (next.dinOf node).indirect)) (.slot node k) (nonzero blkno) := by
  funext owner
  by_cases isSlot : owner = .slot node k
  · subst isSlot
    rw [update_self, SfsFs.place, if_pos member, slots, if_pos rfl]
  rw [update_of_ne isSlot]
  by_cases isIndirect : owner = .indirect node
  · subst isIndirect
    rw [update_self, SfsFs.place, if_pos member]
  rw [update_of_ne isIndirect]
  by_cases isFile : owner.file = some node
  · cases owner with
    | super | freemap | inode => cases isFile
    | indirect ino =>
      cases isFile
      exact absurd rfl isIndirect
    | slot ino j =>
      cases isFile
      have other : j ≠ k := by
        intro same
        exact isSlot (by rw [same])
      rw [SfsFs.place, SfsFs.place, slots, if_neg other]
  · exact keeps.place isFile

theorem KeepsOthers.place_same (keeps : KeepsOthers sfs next inodes node)
    (indirect : (next.dinOf node).indirect = (sfs.dinOf node).indirect)
    (slots : ∀ j, next.slot node j = sfs.slot node j) : next.place inodes = sfs.place inodes := by
  funext owner
  by_cases isFile : owner.file = some node
  · cases owner with
    | super | freemap | inode => cases isFile
    | indirect ino =>
      cases isFile
      rw [SfsFs.place, SfsFs.place, indirect]
    | slot ino j =>
      cases isFile
      rw [SfsFs.place, SfsFs.place, slots]
  · exact keeps.place isFile

theorem SfsFs.inUse_claim (free : sfs.freemap.isFree blkno = true)
    (inside : blkno < sfs.super.blocks) (other : Nat) :
    (sfs.claim blkno).InUse other ↔ sfs.InUse other ∨ other = blkno := by
  change other < sfs.super.blocks ∧ (sfs.freemap.take blkno).isFree other = false ↔ _
  rw [Bitmap.isFree_take free, SfsFs.InUse]
  by_cases same : other = blkno
  · subst same
    simp [inside]
  · simp [same]

theorem SfsFs.inUse_release (other : Nat) :
    (sfs.release blkno).InUse other ↔ sfs.InUse other ∧ other ≠ blkno := by
  change other < sfs.super.blocks ∧ (sfs.freemap.give blkno).isFree other = false ↔ _
  rw [Bitmap.isFree_give, SfsFs.InUse]
  by_cases same : other = blkno
  · subst same
    simp
  · simp [same]

theorem setSin_self : (sfs.setSin node sin').sins node = some sin' := by
  simp [setSin]

theorem setSin_setSin : (sfs.setSin node sin).setSin node sin' = sfs.setSin node sin' := by
  simp [setSin]

theorem setSin_other (other : ino ≠ node) : (sfs.setSin node sin').sins ino = sfs.sins ino := by
  simp [setSin, other]

theorem KeepsOthers.setSin (found : sfs.sins node = some sin) (sin' : SfsInode) :
    KeepsOthers sfs (sfs.setSin node sin') inodes node :=
  ⟨fun _ other => setSin_other other, fun _ _ _ _ => rfl, ⟨sin, sin', found, setSin_self⟩, rfl,
    rfl, rfl, rfl, .inr ⟨rfl, rfl, rfl⟩⟩

theorem slot_setSin (found : sfs.sins node = some sin)
    (direct : sin'.din.direct = sin.din.direct) (indirect : sin'.din.indirect = sin.din.indirect)
    (k : Nat) : (sfs.setSin node sin').slot node k = sfs.slot node k := by
  rw [slot_some found, slot_some setSin_self]
  unfold blockOf
  rw [direct, indirect]
  rfl

namespace SfsFs.Consistent

section

variable (ok : sfs.Consistent inodes)

include ok

theorem inUse (owned : sfs.place inodes owner = some blkno) :
    blkno < sfs.super.blocks ∧ sfs.freemap.isFree blkno = false :=
  ok.owners.used_of_own owned

theorem ne_of_free {free : Nat} (isFree : sfs.freemap.isFree free = true)
    (owned : sfs.place inodes owner = some blkno) : blkno ≠ free := by
  intro same
  have used := (ok.inUse owned).2
  rw [same, isFree] at used
  cases used

theorem slot_inUse (member : ino ∈ inodes) (present : sfs.slot ino k ≠ 0) :
    sfs.slot ino k < sfs.super.blocks ∧ sfs.freemap.isFree (sfs.slot ino k) = false :=
  ok.inUse (place_slot member present)

theorem owns_indirect (found : sfs.sins node = some sin) (present : sin.din.indirect ≠ 0) :
    sfs.place inodes (.indirect node) = some sin.din.indirect := by
  rw [← dinOf_some found] at present ⊢
  exact place_indirect (ok.loaded node sin found).1 present

theorem loaded_file (found : sfs.sins node = some sin) : sin.din.size <
      2 ^ 32 ∧ sin.din.blocks ≤ SFS_MAX_BLOCKS ∧ ∀ k, k < sin.din.blocks → sfs.slot node k ≠ 0 := by
  have file := ok.files node (ok.loaded node sin found).1
  rw [← dinOf_some found]
  exact ⟨file.size, file.blocks, file.mapped⟩

theorem inode_ne_zero (member : ino ∈ inodes) : ino ≠ 0 := by
  have super : sfs.place inodes .super = some 0 := rfl
  exact ok.owners.ne (place_inode member) super (by simp)

/-- A routine whose writes go to free blocks and to the block map of one file keeps
everything else. -/
theorem keepsOthers (found : sfs.sins node = some sin)
    (found' : next.sins node = some sin') (sins : ∀ ino, ino ≠ node → next.sins ino = sfs.sins ino)
    (data : ∀ blkno, sfs.freemap.isFree blkno = false →
      (∀ owner, owner.file = some node → sfs.place inodes owner ≠ some blkno) →
      next.dev.data blkno = sfs.dev.data blkno) (inodeList : next.inodeList = sfs.inodeList)
    (dBlocks : next.dev.dBlocks = sfs.dev.dBlocks) (results : next.dev.results = sfs.dev.results)
    (blocks : next.super.blocks = sfs.super.blocks)
    (super : next.superDirty = true ∨ (next.superDirty = sfs.superDirty ∧
      next.super = sfs.super ∧ next.freemap = sfs.freemap)) :
    KeepsOthers sfs next inodes node where
  sins := sins
  data owner blkno owned other := by
    apply data blkno (ok.inUse owned).2
    intro owner' isFile owned'
    rw [ok.owners.unique owned' owned] at isFile
    exact other isFile
  loaded := ⟨sin, sin', found, found'⟩
  inodeList := inodeList
  dBlocks := dBlocks
  results := results
  blocks := blocks
  super := super

end

section

variable (ok : sfs.Consistent inodes) (keeps : KeepsOthers sfs next inodes node)

include ok keeps

omit ok keeps in
theorem not_inUse (free : sfs.freemap.isFree blkno = true) : ¬ sfs.InUse blkno := by
  simp [SfsFs.InUse, free]

theorem claims_slot (member : node ∈ inodes)
    (indirect : (next.dinOf node).indirect = (sfs.dinOf node).indirect)
    (slots : ∀ j, next.slot node j = if j = k then blkno else sfs.slot node j)
    (empty : sfs.slot node k = 0) (free : sfs.freemap.isFree blkno = true)
    (inUse : ∀ other, next.InUse other ↔ sfs.InUse other ∨ other = blkno) :
    Claims (next.place inodes) next.InUse := by
  have same : update (sfs.place inodes) (.indirect node)
      (nonzero (next.dinOf node).indirect) = sfs.place inodes := by
    rw [update_eq_self_iff, indirect, place, if_pos member]
  have present : nonzero blkno = some blkno := by
    simp [(ok.alloc.inside blkno free).1]
  rw [keeps.place_eq member slots, same, present]
  apply Claims.congr _ inUse
  apply ok.owners.assign
  · simp [place, empty, nonzero]
  · exact not_inUse free

theorem claims_indirect (member : node ∈ inodes) {ent : Nat}
    (isEnt : (next.dinOf node).indirect = ent) (none : (sfs.dinOf node).indirect = 0)
    (slots : ∀ j, next.slot node j = if j = k then blkno else sfs.slot node j)
    (empty : sfs.slot node k = 0) (free : sfs.freemap.isFree blkno = true)
    (freeEnt : sfs.freemap.isFree ent = true) (distinct : blkno ≠ ent)
    (inUse : ∀ other, next.InUse other ↔ (sfs.InUse other ∨ other = ent) ∨ other = blkno) :
    Claims (next.place inodes) next.InUse := by
  have present : nonzero blkno = some blkno := by
    simp [(ok.alloc.inside blkno free).1]
  have presentEnt : nonzero ent = some ent := by
    simp [(ok.alloc.inside ent freeEnt).1]
  rw [keeps.place_eq member slots, isEnt, present, presentEnt]
  apply Claims.congr _ inUse
  apply Claims.assign
  · apply ok.owners.assign
    · simp [place, none, nonzero]
    · exact not_inUse freeEnt
  · simp [place, empty, nonzero]
  · exact not_or.mpr ⟨not_inUse free, distinct⟩

theorem claims_revoke (member : node ∈ inodes)
    (indirect : (next.dinOf node).indirect = (sfs.dinOf node).indirect)
    (slots : ∀ j, next.slot node j = if j = k then 0 else sfs.slot node j)
    (present : sfs.slot node k ≠ 0)
    (inUse : ∀ other, next.InUse other ↔ sfs.InUse other ∧ other ≠ sfs.slot node k) :
    Claims (next.place inodes) next.InUse := by
  have same : update (sfs.place inodes) (.indirect node)
      (nonzero (next.dinOf node).indirect) = sfs.place inodes := by
    rw [update_eq_self_iff, indirect, place, if_pos member]
  have none : nonzero 0 = none := rfl
  rw [keeps.place_eq member slots, same, none]
  exact Claims.congr (ok.owners.revoke (place_slot member present)) inUse

/-- After a routine that worked on one file it is enough to look at that file and
at the owners. -/
theorem rebuild (found : sfs.sins node = some sin)
    (found' : next.sins node = some sin') (alloc : next.AllocOk)
    (owners : Claims (next.place inodes) next.InUse) (type : sin'.din.type = sin.din.type)
    (nlinks : sin'.din.nlinks = sin.din.nlinks) (size : sin'.din.size < 2 ^ 32)
    (blocks : sin'.din.blocks ≤ SFS_MAX_BLOCKS)
    (mapped : ∀ k, k < sin'.din.blocks → next.slot node k ≠ 0)
    (unlinked : (∀ k, sin.din.blocks ≤ k → sfs.slot node k = 0) →
      ∀ k, sin'.din.blocks ≤ k → next.slot node k = 0)
    (synced : sin'.dirty = false → (ofBytes (next.dev.data node)).Lags sin'.din) :
    next.Consistent inodes where
  device := by
    constructor
    · rw [keeps.results, ok.device.results]
    · rw [keeps.blocks, keeps.dBlocks]
      exact ok.device.onDisk
    · rw [keeps.blocks]
      exact ok.device.range
  alloc := alloc
  owners := owners
  files ino member := by
    by_cases isNode : ino = node
    · subst isNode
      have old := ok.files ino member
      have oldType := old.type
      have oldLinks := old.nlinks
      rw [dinOf_some found] at oldType oldLinks
      refine ⟨?_, ?_, ?_, ?_, ?_, fun none => ?_⟩
      · rwa [dinOf_some found', type]
      · rwa [dinOf_some found']
      · rwa [dinOf_some found', nlinks]
      · rwa [dinOf_some found']
      · rwa [dinOf_some found']
      · simp [found'] at none
    · exact (ok.files ino member).congr (keeps.dinOf isNode member)
        (fun k => keeps.slot isNode member) (keeps.sins ino isNode)
  loaded ino sin'' found'' := by
    by_cases isNode : ino = node
    · subst isNode
      obtain rfl := Option.some.inj (found'.symm.trans found'')
      obtain ⟨member, old⟩ := ok.loaded ino sin found
      refine ⟨member, ?_, synced⟩
      rw [nlinks, type]
      exact fun zero => ⟨(old.unlinked zero).1, unlinked (old.unlinked zero).2⟩
    rw [keeps.sins ino isNode] at found''
    obtain ⟨member, old⟩ := ok.loaded ino sin'' found''
    exact ⟨member, old.congr (fun k => keeps.slot isNode member)
      (keeps.data (.inode ino) ino (place_inode member) (by simp [BlockOwner.file]))⟩
  listed ino := by
    rw [keeps.inodeList, ok.listed ino]
    by_cases isNode : ino = node
    · subst isNode
      obtain ⟨sin, sin', found, found'⟩ := keeps.loaded
      simp [found, found']
    · rw [keeps.sins ino isNode]
  nodup := by
    rw [keeps.inodeList]
    exact ok.nodup

theorem touched (sins : next.sins = sfs.sins) (slots : ∀ j, next.slot node j = sfs.slot node j)
    (alloc : next.AllocOk) (inUse : ∀ blkno, next.InUse blkno ↔ sfs.InUse blkno) :
    next.Consistent inodes := by
  obtain ⟨sin, -, found, -⟩ := keeps.loaded
  have found' : next.sins node = some sin := by
    rw [sins]
    exact found
  obtain ⟨member, sinOk⟩ := ok.loaded node sin found
  obtain ⟨size, limit, mapped⟩ := ok.loaded_file found
  have inodeBlock := keeps.data (.inode node) node (place_inode member) (by simp [BlockOwner.file])
  apply ok.rebuild keeps found found' alloc _ rfl rfl size limit
  · simp only [slots]
    exact mapped
  · simp only [slots]
    exact id
  · rw [inodeBlock]
    exact sinOk.synced
  · rw [keeps.place_same (by rw [dinOf_some found', dinOf_some found]) slots]
    exact ok.owners.congr inUse

end

theorem setSin (ok : sfs.Consistent inodes) (found : sfs.sins node = some sin)
    (direct : sin'.din.direct = sin.din.direct) (indirect : sin'.din.indirect = sin.din.indirect)
    (blocks : sin'.din.blocks = sin.din.blocks) (type : sin'.din.type = sin.din.type)
    (nlinks : sin'.din.nlinks = sin.din.nlinks) (size : sin'.din.size < 2 ^ 32)
    (synced : sin'.dirty = false → (ofBytes (sfs.dev.data node)).Lags sin'.din) :
    (sfs.setSin node sin').Consistent inodes := by
  obtain ⟨-, limit, mapped⟩ := ok.loaded_file found
  have slots : ∀ j, (sfs.setSin node sin').slot node j = sfs.slot node j :=
    slot_setSin found direct indirect
  have keeps : KeepsOthers sfs (sfs.setSin node sin') inodes node :=
    KeepsOthers.setSin found sin'
  apply ok.rebuild keeps found setSin_self (ok.alloc.congr rfl rfl) _ type nlinks size
  · rwa [blocks]
  · simp only [slots, blocks]
    exact mapped
  · simp only [slots, blocks]
    exact id
  · exact synced
  · rw [keeps.place_same (by rw [dinOf_some setSin_self, dinOf_some found, indirect]) slots]
    exact ok.owners

/-- An inode that moves between memory and disk: its block map stays, and only its own
block is written. -/
theorem recast (ok : sfs.Consistent inodes) (member : node ∈ inodes)
    (dBlocks : next.dev.dBlocks = sfs.dev.dBlocks) (results : next.dev.results = sfs.dev.results)
    (super : next.super = sfs.super) (freemap : next.freemap = sfs.freemap)
    (sins : ∀ ino, ino ≠ node → next.sins ino = sfs.sins ino)
    (data : ∀ blkno, blkno ≠ node → next.dev.data blkno = sfs.dev.data blkno)
    (dinLags : (next.dinOf node).Lags (sfs.dinOf node))
    (onDisk : next.sins node = none → (next.dinOf node).nlinks ≠ 0)
    (loaded : ∀ sin, next.sins node = some sin →
      (sin.din.nlinks = 0 → sfs.sins node ≠ none ∧ sin.din.blocks = (sfs.dinOf node).blocks) ∧
      (sin.dirty = false → (ofBytes (next.dev.data node)).Lags sin.din))
    (listed : node ∈ next.inodeList ↔ next.sins node ≠ none)
    (others : ∀ ino, ino ≠ node → (ino ∈ next.inodeList ↔ ino ∈ sfs.inodeList))
    (nodup : next.inodeList.Nodup) : next.Consistent inodes := by
  have dins : ∀ ino, (next.dinOf ino).Lags (sfs.dinOf ino) := by
    intro ino
    by_cases isNode : ino = node
    · rw [isNode]
      exact dinLags
    · rw [dinOf_congr (sins ino isNode) (data ino isNode)]
      exact SfsDiskInode.Lags.refl _
  have slots : ∀ ino ∈ inodes, ∀ k, next.slot ino k = sfs.slot ino k := by
    intro ino isMember k
    have lags := dins ino
    calc
      next.slot ino k = blockOf next.dev.data (sfs.dinOf ino) k := by
        unfold slot blockOf
        rw [lags.direct, lags.indirect]
      _ = sfs.slot ino k := by
        apply blockOf_congr
        intro present
        apply data
        -- an indirect block is no inode
        exact ok.owners.ne (place_indirect isMember present) (place_inode member) (by simp)
  have place : next.place inodes = sfs.place inodes := by
    funext owner
    cases owner with
    | super => rfl
    | freemap j => rw [place, place, super]
    | inode ino => rfl
    | indirect ino =>
      by_cases member : ino ∈ inodes
      · rw [place, place, (dins ino).indirect]
      · rw [place, place, if_neg member, if_neg member]
    | slot ino k =>
      by_cases member : ino ∈ inodes
      · rw [place, place, slots ino member]
      · rw [place, place, if_neg member, if_neg member]
  constructor
  · exact ⟨results.trans ok.device.results, by rw [super, dBlocks]; exact ok.device.onDisk,
      by rw [super]; exact ok.device.range⟩
  · exact ok.alloc.congr freemap super
  · rw [place]
    apply ok.owners.congr
    intro blkno
    rw [SfsFs.InUse, super, freemap]
    rfl
  · intro ino isMember
    have lags := dins ino
    have file := ok.files ino isMember
    constructor
    · rw [lags.type]
      exact file.type
    · rw [lags.size]
      exact file.size
    · rw [lags.nlinks]
      exact file.nlinks
    · exact lags.blocks.trans file.blocks
    · intro k below
      rw [slots ino isMember]
      exact file.mapped k (below.trans_le lags.blocks)
    by_cases isNode : ino = node
    · rw [isNode]
      exact onDisk
    · rw [sins ino isNode, lags.nlinks]
      exact file.onDisk
  · intro ino sin found
    by_cases isNode : ino = node
    · subst isNode
      obtain ⟨unlinked, synced⟩ := loaded sin found
      refine ⟨member, ?_, synced⟩
      intro zero
      obtain ⟨wasLoaded, sameBlocks⟩ := unlinked zero
      obtain ⟨old, oldFound⟩ := Option.ne_none_iff_exists'.mp wasLoaded
      rw [dinOf_some found, dinOf_some oldFound] at dinLags
      rw [dinOf_some oldFound] at sameBlocks
      rw [dinLags.nlinks] at zero
      rw [dinLags.type, sameBlocks]
      simp only [slots ino member]
      exact (ok.loaded ino old oldFound).2.unlinked zero
    · rw [sins ino isNode] at found
      obtain ⟨isMember, sinOk⟩ := ok.loaded ino sin found
      exact ⟨isMember, sinOk.congr (slots ino isMember) (data ino isNode)⟩
  · intro ino
    by_cases isNode : ino = node
    · rw [isNode]
      exact listed
    · rw [others ino isNode, sins ino isNode]
      exact ok.listed ino
  · exact nodup

end SfsFs.Consistent

end UcoreSmp
