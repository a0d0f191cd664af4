import UcoreSmp.KernelTriple
import UcoreSmp.Tally

/-!
# The inode cache of SFS

`sfs_load_inode` and `sfs_reclaim` of `kern/fs/sfs/sfs_inode.c` with the
reference counter of `kern/fs/vfs/inode.c`, run by any number of threads.  An
in-memory inode is named by its address; an address is used again after
`inode_kill`.

A thread is cut wherever it can sleep: before it gets the file-system lock, and
while it does I/O with the lock held.
-/

namespace UcoreSmp

open Function

structure CachedInode where
  ino : Nat
  refCount : Int
  reclaimCount : Int

structure InodeCache where
  nodes : Nat → Option CachedInode
  hashList : Nat → List Nat

inductive CacheFault where
  | refCount
  | reclaimCount
  | killedInUse
  | freed
  deriving DecidableEq

abbrev CacheM := Routine CacheFault InodeCache

/-- `sin_hashfn`, that is `hash32` to ten bits. -/
def sinHashfn (ino : Nat) : Nat := ino * 0x9e370001 % 2 ^ 32 / 2 ^ 22

def derefNode (node : Nat) : CacheM CachedInode := do
  let cache ← get
  match cache.nodes node with
  | none => throw .freed
  | some inode => pure inode

def setNode (node : Nat) (inode : CachedInode) : CacheM PUnit :=
  modify fun cache =>
    { cache with nodes := update cache.nodes node (some inode) }

def cacheRefInc (node : Nat) : CacheM Int := do
  let inode ← derefNode node
  setNode node { inode with refCount := inode.refCount + 1 }
  pure (inode.refCount + 1)

/-- `inode_ref_dec` up to its call of `vop_reclaim`. -/
def cacheRefDec (node : Nat) : CacheM Int := do
  let inode ← derefNode node
  check (0 < inode.refCount) .refCount
  setNode node { inode with refCount := inode.refCount - 1 }
  pure (inode.refCount - 1)

/-- The loop of `lookup_sfs_nolock` over the rest of a hash list. -/
def searchHashList (ino : Nat) : List Nat → CacheM (Option Nat)
  | [] => pure none
  | node :: rest => do
    let inode ← derefNode node
    if inode.ino = ino then pure (some node)
    else searchHashList ino rest

def lookupSfsNolock (ino : Nat) : CacheM (Option Nat) := do
  let cache ← get
  let found ← searchHashList ino (cache.hashList (sinHashfn ino))
  match found with
  | none => pure none
  | some node => do
    let count ← cacheRefInc node
    let inode ← derefNode node
    setNode node (if count = 1 then { inode with reclaimCount := inode.reclaimCount + 1 }
        else inode)
    pure (some node)

/-- `sfs_create_inode` and `sfs_set_links` of a new inode at `node`. -/
def createAndLink (node ino : Nat) : CacheM PUnit :=
  modify fun cache =>
    { nodes := update cache.nodes node (some ⟨ino, 1, 1⟩)
      hashList := update cache.hashList (sinHashfn ino) (node :: cache.hashList (sinHashfn ino)) }

/-- The first part of `sfs_reclaim`, under the lock; the result says whether it
goes on. -/
def reclaimCheck (node : Nat) : CacheM Bool := do
  let inode ← derefNode node
  check (0 < inode.reclaimCount) .reclaimCount
  setNode node { inode with reclaimCount := inode.reclaimCount - 1 }
  pure (¬ (inode.reclaimCount - 1 ≠ 0 ∨ inode.refCount ≠ 0))

def sfsRemoveLinks (node : Nat) : CacheM PUnit := do
  let inode ← derefNode node
  modify fun cache =>
    { cache with
      hashList := update cache.hashList (sinHashfn inode.ino)
        ((cache.hashList (sinHashfn inode.ino)).erase node) }

def inodeKill (node : Nat) : CacheM PUnit := do
  let inode ← derefNode node
  check (inode.refCount = 0) .killedInUse
  modify fun cache => { cache with nodes := update cache.nodes node none }

inductive CachePc where
  | idle
  /-- in `sfs_load_inode`, before the lock -/
  | loadWait (ino : Nat)
  /-- in `sfs_load_inode`, reading the inode with the lock held -/
  | loading (ino : Nat)
  /-- in `sfs_reclaim`, before the lock -/
  | reclaimWait (node : Nat)
  /-- in `sfs_reclaim`, writing the inode back with the lock held -/
  | reclaiming (node : Nat)
  /-- in `sfs_reclaim`, after the lock, before `vop_kill` -/
  | killing (node : Nat)
  deriving DecidableEq

structure CacheThread where
  pc : CachePc
  holds : Nat → Nat

/-- The cache, the holder of `fs_sem`, and the threads.  `ioFailed` records that
a write-back in `sfs_reclaim` failed. -/
structure CacheSystem (N : Nat) where
  cache : InodeCache
  lock : Option (Fin N)
  threads : Fin N → CacheThread
  ioFailed : Bool

/-- The steps of a thread between the points where it can sleep. -/
inductive CacheStep where
  | startLoad (ino : Nat)
  | lookup
  | loaded (node : Nat)
  | loadFailed
  | refInc (node : Nat)
  | refDec (node : Nat)
  | lockReclaim
  | reclaimFailed
  | unlink
  | kill

namespace CacheSystem

variable {N : Nat} (sys : CacheSystem N) (thread : Fin N)

def revise (cache : InodeCache) (lock : Option (Fin N)) (new : CacheThread) : CacheSystem N :=
  { sys with
    cache := cache
    lock := lock
    threads := update sys.threads thread new }

def setPc (cache : InodeCache) (lock : Option (Fin N)) (pc : CachePc) : CacheSystem N :=
  sys.revise thread cache lock { sys.threads thread with pc := pc }

/-- Like `setPc`, with a new number of references to a node. -/
def setHolds (cache : InodeCache) (lock : Option (Fin N)) (pc : CachePc)
    (node count : Nat) : CacheSystem N :=
  sys.revise thread cache lock { pc := pc, holds := update (sys.threads thread).holds node count }

def Enabled : CacheStep → Prop
  | .startLoad _ => (sys.threads thread).pc = .idle
  | .lookup => (∃ ino, (sys.threads thread).pc = .loadWait ino) ∧ sys.lock = none
  | .loaded node => (∃ ino, (sys.threads thread).pc = .loading ino) ∧
      sys.cache.nodes node = none
  | .loadFailed => ∃ ino, (sys.threads thread).pc = .loading ino
  | .refInc node | .refDec node => (sys.threads thread).pc = .idle ∧
      0 < (sys.threads thread).holds node
  | .lockReclaim => (∃ node, (sys.threads thread).pc = .reclaimWait node) ∧
      sys.lock = none
  | .reclaimFailed | .unlink => ∃ node, (sys.threads thread).pc = .reclaiming node
  | .kill => ∃ node, (sys.threads thread).pc = .killing node

/-- One step of a thread: the next system, or the assertion that fails. -/
def step : CacheStep → Except CacheFault (CacheSystem N)
  | .startLoad ino => pure (sys.setPc thread sys.cache sys.lock (.loadWait ino))
  | .lookup =>
    match (sys.threads thread).pc with
    | .loadWait ino => do
      let (found, cache) ← lookupSfsNolock ino sys.cache
      match found with
      | none => pure (sys.setPc thread cache (some thread) (.loading ino))
      | some node =>
        pure (sys.setHolds thread cache none .idle node ((sys.threads thread).holds node + 1))
    | _ => pure sys
  | .loaded node =>
    match (sys.threads thread).pc with
    | .loading ino => do
      let (_, cache) ← createAndLink node ino sys.cache
      pure (sys.setHolds thread cache none .idle node ((sys.threads thread).holds node + 1))
    | _ => pure sys
  | .loadFailed => pure (sys.setPc thread sys.cache none .idle)
  | .refInc node => do
    let (_, cache) ← cacheRefInc node sys.cache
    pure (sys.setHolds thread cache sys.lock .idle node ((sys.threads thread).holds node + 1))
  | .refDec node => do
    let (count, cache) ← cacheRefDec node sys.cache
    pure (sys.setHolds thread cache sys.lock (if count = 0 then .reclaimWait node else .idle) node
      ((sys.threads thread).holds node - 1))
  | .lockReclaim =>
    match (sys.threads thread).pc with
    | .reclaimWait node => do
      let (goesOn, cache) ← reclaimCheck node sys.cache
      if goesOn then pure (sys.setPc thread cache (some thread) (.reclaiming node))
      else pure (sys.setPc thread cache none .idle)
    | _ => pure sys
  | .reclaimFailed =>
    pure { sys.setPc thread sys.cache none .idle with ioFailed := true }
  | .unlink =>
    match (sys.threads thread).pc with
    | .reclaiming node => do
      let (_, cache) ← sfsRemoveLinks node sys.cache
      pure (sys.setPc thread cache none (.killing node))
    | _ => pure sys
  | .kill =>
    match (sys.threads thread).pc with
    | .killing node => do
      let (_, cache) ← inodeKill node sys.cache
      pure (sys.setPc thread cache sys.lock .idle)
    | _ => pure sys

/-- A reference passes to another thread, in a shared descriptor table. -/
def handOver (other : Fin N) (node : Nat) : CacheSystem N :=
  let given := sys.setHolds thread sys.cache sys.lock (sys.threads thread).pc node
    ((sys.threads thread).holds node - 1)
  given.setHolds other given.cache given.lock (given.threads other).pc node
    ((given.threads other).holds node + 1)

end CacheSystem

inductive CacheReaches (N : Nat) : CacheSystem N → Prop
  | mount : CacheReaches N
      { cache := ⟨fun _ => none, fun _ => []⟩
        lock := none
        threads := fun _ => ⟨.idle, fun _ => 0⟩
        ioFailed := false }
  | step {sys next : CacheSystem N} (thread : Fin N) (step : CacheStep) :
      CacheReaches N sys → sys.Enabled thread step →
      sys.step thread step = .ok next → CacheReaches N next
  | handOver {sys : CacheSystem N} (thread other : Fin N) (node : Nat) :
      CacheReaches N sys → 0 < (sys.threads thread).holds node →
      CacheReaches N (sys.handOver thread other node)

end UcoreSmp
