import UcoreSmp.InodeCache

/-!
# The inode cache under all interleavings

The invariant that carries the proof counts, for every inode in memory, the
references held by threads, the threads that wait with a reclaim of it, and the
thread that is about to kill it: `reclaim_count` is the number of waiting
reclaims, plus one while the inode is referenced.
-/

namespace UcoreSmp

open Function InodeCache CacheSystem

namespace CacheThread

/-- One if the thread waits for the lock to reclaim the node. -/
def waits (node : Nat) (thread : CacheThread) : Nat :=
  if thread.pc = .reclaimWait node then 1 else 0

/-- One if the thread is past the last check of a reclaim of the node. -/
def reclaims (node : Nat) (thread : CacheThread) : Nat :=
  if thread.pc = .reclaiming node then 1 else 0

/-- One if the thread unlinked the node and is about to kill it. -/
def kills (node : Nat) (thread : CacheThread) : Nat :=
  if thread.pc = .killing node then 1 else 0

end CacheThread

open CacheThread

/-- A thread in this place holds the file-system lock. -/
def CachePc.locks : CachePc → Bool
  | .loading _ | .reclaiming _ => true
  | _ => false

namespace CacheSystem

variable {N : Nat}

def held (sys : CacheSystem N) (node : Nat) : Nat :=
  tally sys.threads fun thread => thread.holds node

def waiting (sys : CacheSystem N) (node : Nat) : Nat :=
  tally sys.threads (waits node)

def reclaimers (sys : CacheSystem N) (node : Nat) : Nat :=
  tally sys.threads (reclaims node)

def killers (sys : CacheSystem N) (node : Nat) : Nat :=
  tally sys.threads (kills node)

/-- The counts of an inode agree with the threads. -/
structure CountsOk (sys : CacheSystem N) (node : Nat) (inode : CachedInode) : Prop where
  ref : inode.refCount = sys.held node
  reclaim : inode.reclaimCount = sys.waiting node + if 0 < sys.held node then 1 else 0
  single : sys.reclaimers node + sys.killers node ≤ 1
  quiet : 0 < sys.reclaimers node + sys.killers node → sys.held node = 0 ∧ sys.waiting node = 0
  linked : ∀ bucket, node ∈ sys.cache.hashList bucket ↔
    bucket = sinHashfn inode.ino ∧ sys.killers node = 0
  pending : sys.ioFailed = false → sys.held node = 0 →
    0 < sys.waiting node + sys.reclaimers node + sys.killers node

/-- No thread knows a free address. -/
structure Unknown (sys : CacheSystem N) (node : Nat) : Prop where
  held : sys.held node = 0
  waiting : sys.waiting node = 0
  reclaimers : sys.reclaimers node = 0
  killers : sys.killers node = 0
  unlinked : ∀ bucket, node ∉ sys.cache.hashList bucket

end CacheSystem

def NodeOk {N : Nat} (sys : CacheSystem N) (node : Nat) : Prop :=
  match sys.cache.nodes node with
  | none => sys.Unknown node
  | some inode => sys.CountsOk node inode

structure CacheOk {N : Nat} (sys : CacheSystem N) : Prop where
  nodes : ∀ node, NodeOk sys node
  nodup : ∀ bucket, (sys.cache.hashList bucket).Nodup
  unique : ∀ bucket, ∀ node ∈ sys.cache.hashList bucket,
    ∀ node' ∈ sys.cache.hashList bucket, ∀ inode inode',
      sys.cache.nodes node = some inode → sys.cache.nodes node' = some inode' →
      inode.ino = inode'.ino → node = node'
  locked : ∀ thread, sys.lock = some thread ↔ (sys.threads thread).pc.locks = true
  absent : ∀ thread ino, (sys.threads thread).pc = .loading ino →
    ∀ node ∈ sys.cache.hashList (sinHashfn ino), ∀ inode,
      sys.cache.nodes node = some inode → inode.ino ≠ ino

section Threads

variable {N ino n : Nat} {sys next : CacheSystem N} {thread : Fin N} {inode : CachedInode}
  {new old : CacheThread} {cache : InodeCache}

theorem NodeOk.of_some {node : Nat} (found : sys.cache.nodes node = some inode)
    (counts : sys.CountsOk node inode) : NodeOk sys node := by
  unfold NodeOk
  rw [found]
  exact counts

theorem NodeOk.of_none {node : Nat} (freed : sys.cache.nodes node = none)
    (unknown : sys.Unknown node) : NodeOk sys node := by
  unfold NodeOk
  rw [freed]
  exact unknown

/-- The counts of a node do not move. -/
structure SameCounts (sys next : CacheSystem N) (node : Nat) : Prop where
  held : next.held node = sys.held node
  waiting : next.waiting node = sys.waiting node
  reclaimers : next.reclaimers node = sys.reclaimers node
  killers : next.killers node = sys.killers node

/-- How the counts move when one thread changes. -/
structure Moved (sys next : CacheSystem N) (old new : CacheThread) (node : Nat) : Prop where
  held : next.held node + old.holds node = sys.held node + new.holds node
  waiting : next.waiting node + old.waits node = sys.waiting node + new.waits node
  reclaimers : next.reclaimers node + old.reclaims node = sys.reclaimers node + new.reclaims node
  killers : next.killers node + old.kills node = sys.killers node + new.kills node

theorem Moved.of_update (changed : next.threads = update sys.threads thread new)
    (node : Nat) : Moved sys next (sys.threads thread) new node := by
  constructor
  all_goals
    simp only [CacheSystem.held, CacheSystem.waiting, CacheSystem.reclaimers, CacheSystem.killers,
      changed]
    exact tally_update _ _ _ _

theorem moved_revise (sys : CacheSystem N) (thread : Fin N) (cache : InodeCache)
    (lock : Option (Fin N)) (new : CacheThread) (node : Nat) :
    Moved sys (sys.revise thread cache lock new) (sys.threads thread) new node :=
  .of_update rfl node

theorem NodeOk.of_same {node : Nat} (ok : NodeOk sys node)
    (sameNode : next.cache.nodes node = sys.cache.nodes node) (counts : SameCounts sys next node)
    (sameLinks : ∀ bucket, node ∈ next.cache.hashList bucket ↔ node ∈ sys.cache.hashList bucket)
    (failed : next.ioFailed = false → sys.ioFailed = false) : NodeOk next node := by
  unfold NodeOk at ok ⊢
  rw [sameNode]
  cases found : sys.cache.nodes node with
  | none =>
    rw [found] at ok
    constructor
    · rw [counts.held, ok.held]
    · rw [counts.waiting, ok.waiting]
    · rw [counts.reclaimers, ok.reclaimers]
    · rw [counts.killers, ok.killers]
    · intro bucket
      rw [sameLinks]
      exact ok.unlinked bucket
  | some inode =>
    rw [found] at ok
    constructor
    · rw [counts.held, ok.ref]
    · rw [counts.held, counts.waiting, ok.reclaim]
    · rw [counts.reclaimers, counts.killers]
      exact ok.single
    · rw [counts.held, counts.waiting, counts.reclaimers, counts.killers]
      exact ok.quiet
    · intro bucket
      rw [sameLinks, counts.killers]
      exact ok.linked bucket
    · intro notFailed
      rw [counts.held, counts.waiting, counts.reclaimers, counts.killers]
      exact ok.pending (failed notFailed)

theorem CacheOk.locked_keep (ok : CacheOk sys) (same : new.pc.locks = (sys.threads thread).pc.locks)
    (t : Fin N) : sys.lock = some t ↔ (update sys.threads thread new t).pc.locks = true := by
  rw [ok.locked t]
  by_cases isThread : t = thread
  · subst isThread
    rw [update_self, same]
  · rw [update_of_ne isThread]

theorem CacheOk.locked_take (ok : CacheOk sys) (free : sys.lock = none)
    (locks : new.pc.locks = true) (t : Fin N) :
    some thread = some t ↔ (update sys.threads thread new t).pc.locks = true := by
  by_cases isThread : t = thread
  · subst isThread
    simp [locks]
  have notLocked := ok.locked t
  rw [free] at notLocked
  rw [update_of_ne isThread]
  simp only [reduceCtorEq, false_iff] at notLocked
  simp [notLocked, Ne.symm isThread]

theorem CacheOk.locked_drop (ok : CacheOk sys) (locked : (sys.threads thread).pc.locks = true)
    (unlocks : new.pc.locks = false) (t : Fin N) :
    none = some t ↔ (update sys.threads thread new t).pc.locks = true := by
  by_cases isThread : t = thread
  · subst isThread
    simp [unlocks]
  have mine := (ok.locked thread).mpr locked
  have theirs := ok.locked t
  rw [mine] at theirs
  rw [update_of_ne isThread, ← theirs]
  simp [Ne.symm isThread]

def CachePc.node : CachePc → Option Nat
  | .reclaimWait node | .reclaiming node | .killing node => some node
  | _ => none

/-- The place is outside a load with the lock held and outside a kill, and concerns
at most the given node. -/
def CachePc.Mild (node : Nat) : CachePc → Prop
  | .idle | .loadWait _ => True
  | .reclaimWait n | .reclaiming n => n = node
  | .loading _ | .killing _ => False

variable {pc : CachePc} {bucket : Nat} {inode' : CachedInode}

theorem CachePc.Mild.node_ne {node : Nat} (mild : pc.Mild node)
    (other : n ≠ node) : pc.node ≠ some n := by
  cases pc <;> simp_all [CachePc.Mild, CachePc.node, Ne.symm]

theorem CachePc.Mild.kills {thread : CacheThread} {node : Nat} (mild : thread.pc.Mild node) :
    thread.kills node = 0 := by
  unfold CacheThread.kills
  cases place : thread.pc <;> simp_all [CachePc.Mild]

variable {node : Nat} {lock : Option (Fin N)}

theorem CacheThread.counts_eq_zero {thread : CacheThread} (other : thread.pc.node ≠ some n) :
    thread.waits n = 0 ∧ thread.reclaims n = 0 ∧ thread.kills n = 0 := by
  unfold waits reclaims kills
  cases place : thread.pc <;> simp_all [CachePc.node]

theorem Moved.elsewhere (moved : Moved sys next old new n) (holds : new.holds n = old.holds n)
    (before : old.pc.node ≠ some n) (after : new.pc.node ≠ some n) : SameCounts sys next n := by
  obtain ⟨held, waiting, reclaimers, killers⟩ := moved
  obtain ⟨waits, reclaims, kills⟩ := counts_eq_zero before
  obtain ⟨waits', reclaims', kills'⟩ := counts_eq_zero after
  constructor <;> omega

/-- No inode with this number is linked. -/
def InodeCache.Absent (cache : InodeCache) (ino : Nat) : Prop :=
  ∀ n ∈ cache.hashList (sinHashfn ino), ∀ inode, cache.nodes n = some inode → inode.ino ≠ ino

section

variable (ok : CacheOk sys) (node : Nat) (changed : next.threads = update sys.threads thread new)
  (holds : ∀ n, n ≠ node → new.holds n = (sys.threads thread).holds n)
  (before : ∀ n, n ≠ node → (sys.threads thread).pc.node ≠ some n)
  (after : ∀ n, n ≠ node → new.pc.node ≠ some n)
  (sameNodes : ∀ n, n ≠ node → next.cache.nodes n = sys.cache.nodes n)
  (sameLinks : ∀ n, n ≠ node → ∀ bucket,
    n ∈ next.cache.hashList bucket ↔ n ∈ sys.cache.hashList bucket)
  (failed : next.ioFailed = false → sys.ioFailed = false) (nodeOk : NodeOk next node)
  (nodup : ∀ bucket, (next.cache.hashList bucket).Nodup)
  (locked : ∀ t, next.lock = some t ↔ (update sys.threads thread new t).pc.locks = true)
  (absent : ∀ ino, new.pc = .loading ino → next.cache.Absent ino)

include ok changed holds before after sameNodes sameLinks failed nodeOk nodup locked absent

theorem CacheOk.change
    (alone : ∀ bucket, ∀ n ∈ next.cache.hashList bucket, n ≠ node →
      node ∈ next.cache.hashList bucket → ∀ inode inode',
        next.cache.nodes node = some inode → next.cache.nodes n = some inode' →
        inode.ino ≠ inode'.ino)
    (absent' : ∀ t, t ≠ thread → ∀ ino, (sys.threads t).pc = .loading ino →
      next.cache.Absent ino) : CacheOk next where
  nodes n := by
    by_cases same : n = node
    · subst same
      exact nodeOk
    have moved : Moved sys next _ _ n := .of_update changed n
    exact (ok.nodes n).of_same (sameNodes n same)
      (moved.elsewhere (holds n same) (before n same) (after n same)) (sameLinks n same) failed
  nodup := nodup
  unique bucket n inBucket n' inBucket' inode inode' found found' sameIno := by
    by_cases isNode : n = node
    · by_cases isNode' : n' = node
      · rw [isNode, isNode']
      · subst isNode
        exact absurd sameIno (alone bucket n' inBucket' isNode' inBucket inode inode' found found')
    by_cases isNode' : n' = node
    · subst isNode'
      exact absurd sameIno.symm (alone bucket n inBucket isNode inBucket' inode' inode found' found)
    rw [sameLinks n isNode] at inBucket
    rw [sameLinks n' isNode'] at inBucket'
    rw [sameNodes n isNode] at found
    rw [sameNodes n' isNode'] at found'
    exact ok.unique bucket n inBucket n' inBucket' inode inode' found found' sameIno
  locked := by
    rw [changed]
    exact locked
  absent t ino isLoading := by
    rw [changed] at isLoading
    by_cases isThread : t = thread
    · subst isThread
      rw [update_self] at isLoading
      exact absent ino isLoading
    · rw [update_of_ne isThread] at isLoading
      exact absent' t isThread ino isLoading

theorem CacheOk.keep
    (linked : ∀ bucket, node ∈ next.cache.hashList bucket → node ∈ sys.cache.hashList bucket)
    (sameIno : ∀ inode', next.cache.nodes node = some inode' →
      ∃ inode, sys.cache.nodes node = some inode ∧ inode.ino = inode'.ino) : CacheOk next := by
  have inos : ∀ n inode', next.cache.nodes n = some inode' →
      ∃ inode, sys.cache.nodes n = some inode ∧ inode.ino = inode'.ino := by
    intro n inode' found
    by_cases isNode : n = node
    · subst isNode
      exact sameIno inode' found
    · exact ⟨inode', sameNodes n isNode ▸ found, rfl⟩
  have links : ∀ n bucket, n ∈ next.cache.hashList bucket → n ∈ sys.cache.hashList bucket := by
    intro n bucket inBucket
    by_cases isNode : n = node
    · subst isNode
      exact linked bucket inBucket
    · exact (sameLinks n isNode bucket).mp inBucket
  apply ok.change node changed holds before after sameNodes sameLinks failed nodeOk nodup locked
    absent
  · intro bucket n inBucket other inBucket' inode inode' found found' sameInos
    obtain ⟨old, oldFound, oldIno⟩ := inos node inode found
    obtain ⟨old', oldFound', oldIno'⟩ := inos n inode' found'
    exact other (ok.unique bucket n (links n bucket inBucket) node
      (links node bucket inBucket') old' old oldFound' oldFound (by
        rw [oldIno', ← sameInos, oldIno]))
  intro t _ ino isLoading n inBucket inode found
  obtain ⟨old, oldFound, oldIno⟩ := inos n inode found
  rw [← oldIno]
  exact ok.absent t ino isLoading n (links n _ inBucket) old oldFound

end

theorem CacheOk.repc (ok : CacheOk sys)
    (before : (sys.threads thread).pc.node = none) (after : pc.node = none)
    (locked : ∀ t, lock = some t ↔ (update sys.threads thread
      { sys.threads thread with pc := pc } t).pc.locks = true)
    (absent : ∀ ino, pc = .loading ino → sys.cache.Absent ino) :
    CacheOk (sys.setPc thread sys.cache lock pc) := by
  have notBefore : ∀ n, (sys.threads thread).pc.node ≠ some n := by simp [before]
  have notAfter : ∀ n, pc.node ≠ some n := by simp [after]
  have moved : Moved sys (sys.setPc thread sys.cache lock pc) _ _ 0 := .of_update rfl 0
  have counts := moved.elsewhere rfl (notBefore 0) (notAfter 0)
  exact ok.keep 0 rfl (fun _ _ => rfl) (fun n _ => notBefore n) (fun n _ => notAfter n)
    (fun _ _ => rfl) (fun _ _ _ => Iff.rfl) id
    ((ok.nodes 0).of_same rfl counts (fun _ => Iff.rfl) id) ok.nodup locked absent
    (fun _ inBucket => inBucket) (fun inode found => ⟨inode, found, rfl⟩)

def InodeCache.put (cache : InodeCache) (node : Nat) (inode : CachedInode) : InodeCache :=
  { cache with nodes := update cache.nodes node (some inode) }

def InodeCache.link (cache : InodeCache) (node ino : Nat) : InodeCache :=
  { nodes := update cache.nodes node (some ⟨ino, 1, 1⟩)
    hashList := update cache.hashList (sinHashfn ino) (node :: cache.hashList (sinHashfn ino)) }

def InodeCache.unlink (cache : InodeCache) (node ino : Nat) : InodeCache :=
  { cache with
    hashList := update cache.hashList (sinHashfn ino)
      ((cache.hashList (sinHashfn ino)).erase node) }

def InodeCache.drop (cache : InodeCache) (node : Nat) : InodeCache :=
  { cache with nodes := update cache.nodes node none }

theorem InodeCache.mem_link {node : Nat} : n ∈ (cache.link node ino).hashList bucket ↔
      (n = node ∧ bucket = sinHashfn ino) ∨ n ∈ cache.hashList bucket := by
  by_cases same : bucket = sinHashfn ino
  · subst same
    simp [link]
  · simp [link, same]

/-- The counts of an inode fit when one thread changed and no kill began or ended. -/
def CacheSystem.Recounted (sys : CacheSystem N) (thread : Fin N) (new : CacheThread) (node : Nat)
    (inode : CachedInode) : Prop :=
  ∀ held waiting reclaimers : Nat,
    held + (sys.threads thread).holds node = sys.held node + new.holds node →
    waiting + (sys.threads thread).waits node = sys.waiting node + new.waits node →
    reclaimers + (sys.threads thread).reclaims node = sys.reclaimers node + new.reclaims node →
    inode.refCount = held ∧ inode.reclaimCount = waiting + (if 0 < held then 1 else 0) ∧
      reclaimers + sys.killers node ≤ 1 ∧
      (0 < reclaimers + sys.killers node → held = 0 ∧ waiting = 0) ∧
      (sys.ioFailed = false → held = 0 → 0 < waiting + reclaimers + sys.killers node)

theorem CacheSystem.CountsOk.move (counts : sys.CountsOk node inode)
    (sameIno : inode'.ino = inode.ino) (kills : new.kills node = (sys.threads thread).kills node)
    (numbers : sys.Recounted thread new node inode') :
    (sys.revise thread (sys.cache.put node inode') lock new).CountsOk node inode' := by
  obtain ⟨held, waiting, reclaimers, killers⟩ :=
    moved_revise sys thread (sys.cache.put node inode') lock new node
  have sameKillers : (sys.revise thread (sys.cache.put node inode') lock new).killers node =
      sys.killers node := by omega
  obtain ⟨ref, reclaim, single, quiet, pending⟩ := numbers _ _ _ held waiting reclaimers
  constructor
  · exact ref
  · exact reclaim
  · rw [sameKillers]
    exact single
  · rw [sameKillers]
    exact quiet
  · intro bucket
    rw [sameKillers, sameIno]
    exact counts.linked bucket
  · rw [sameKillers]
    exact pending

section

variable (ok : CacheOk sys)

include ok

theorem CacheOk.countsOk (found : sys.cache.nodes node = some inode) : sys.CountsOk node inode := by
  have nodeOk := ok.nodes node
  unfold NodeOk at nodeOk
  rw [found] at nodeOk
  exact nodeOk

theorem CacheOk.unknown (freed : sys.cache.nodes node = none) : sys.Unknown node := by
  have nodeOk := ok.nodes node
  unfold NodeOk at nodeOk
  rw [freed] at nodeOk
  exact nodeOk

theorem CacheOk.revalue
    (found : sys.cache.nodes node = some inode) (sameIno : inode'.ino = inode.ino)
    (holds : ∀ n, n ≠ node → new.holds n = (sys.threads thread).holds n)
    (before : (sys.threads thread).pc.Mild node) (after : new.pc.Mild node)
    (numbers : sys.Recounted thread new node inode')
    (locked : ∀ t, lock = some t ↔ (update sys.threads thread new t).pc.locks = true) :
    CacheOk (sys.revise thread (sys.cache.put node inode') lock new) := by
  apply ok.keep node rfl holds (fun _ => before.node_ne) (fun _ => after.node_ne)
  · intro n other
    simp [revise, put, other]
  · intro n _ bucket
    rfl
  · exact id
  · unfold NodeOk
    simp only [revise, put, update_self]
    exact (ok.countsOk found).move sameIno (after.kills.trans before.kills.symm) numbers
  · exact ok.nodup
  · exact locked
  · intro ino isLoading
    rw [isLoading] at after
    exact after.elim
  · exact fun _ inBucket => inBucket
  · intro inode'' found''
    simp only [revise, put, update_self, Option.some.injEq] at found''
    exact ⟨inode, found, by rw [← found'', sameIno]⟩

theorem CacheOk.found (node : Nat)
    (known : 0 < sys.held node + sys.waiting node + sys.reclaimers node + sys.killers node) :
    ∃ inode, sys.cache.nodes node = some inode ∧ sys.CountsOk node inode := by
  cases found : sys.cache.nodes node with
  | none =>
    obtain ⟨held, waiting, reclaimers, killers, -⟩ := ok.unknown found
    omega
  | some inode => exact ⟨inode, rfl, ok.countsOk found⟩

theorem CacheOk.not_reclaiming (free : sys.lock = none) (node : Nat) : sys.reclaimers node = 0 := by
  apply tally_eq_zero
  intro t
  refine if_neg fun place => ?_
  have locked := (ok.locked t).mpr (by simp [place, CachePc.locks])
  rw [free] at locked
  cases locked

/-- The step keeps the invariant and no assertion fails. -/
def StepOk (result : Except CacheFault (CacheSystem N)) : Prop :=
  ∃ next, result = .ok next ∧ CacheOk next

theorem CacheOk.startLoad (idle : (sys.threads thread).pc = .idle) :
    StepOk (sys.step thread (.startLoad ino)) := by
  refine ⟨_, rfl, ok.repc ?_ rfl (ok.locked_keep ?_) nofun⟩
  all_goals
    rw [idle]
    rfl

theorem CacheOk.loadFailed (loading : (sys.threads thread).pc = .loading ino) :
    StepOk (sys.step thread .loadFailed) := by
  refine ⟨_, rfl, ok.repc ?_ rfl (ok.locked_drop ?_ rfl) nofun⟩
  all_goals
    rw [loading]
    rfl

end

theorem CacheOk.held_of_holds (holds : 0 < (sys.threads thread).holds node) :
    0 < sys.held node := by
  have counted : _ ≤ tally sys.threads fun thread => thread.holds node := le_tally thread
  exact holds.trans_le counted

section Runs

variable {node : Nat}

theorem derefNode_run (found : cache.nodes node = some inode) :
    derefNode node cache = .ok (inode, cache) := by
  rw [derefNode, run_bind run_get, found]
  rfl

theorem setNode_run : setNode node inode cache = .ok ((), cache.put node inode) :=
  rfl

section

variable (found : cache.nodes node = some inode)

include found

theorem cacheRefInc_run : cacheRefInc node cache = .ok (inode.refCount + 1,
      cache.put node { inode with refCount := inode.refCount + 1 }) := by
  rw [cacheRefInc, run_bind (derefNode_run found)]
  rfl

theorem cacheRefDec_run (referenced : 0 < inode.refCount) :
    cacheRefDec node cache = .ok (inode.refCount - 1,
      cache.put node { inode with refCount := inode.refCount - 1 }) := by
  rw [cacheRefDec, run_bind (derefNode_run found), run_bind (run_check referenced)]
  rfl

theorem reclaimCheck_run (counted : 0 < inode.reclaimCount) : reclaimCheck node cache =
      .ok (decide (¬ (inode.reclaimCount - 1 ≠ 0 ∨ inode.refCount ≠ 0)),
        cache.put node { inode with reclaimCount := inode.reclaimCount - 1 }) := by
  rw [reclaimCheck, run_bind (derefNode_run found), run_bind (run_check counted)]
  rfl

theorem sfsRemoveLinks_run : sfsRemoveLinks node cache = .ok ((), cache.unlink node inode.ino) := by
  rw [sfsRemoveLinks, run_bind (derefNode_run found)]
  rfl

theorem inodeKill_run (unreferenced : inode.refCount = 0) :
    inodeKill node cache = .ok ((), cache.drop node) := by
  rw [inodeKill, run_bind (derefNode_run found), run_bind (run_check unreferenced)]
  rfl

end

theorem searchHashList_run (list : List Nat)
    (live : ∀ n ∈ list, ∃ inode, cache.nodes n = some inode) :
    (searchHashList ino list cache = .ok (none, cache) ∧
      ∀ n ∈ list, ∀ inode, cache.nodes n = some inode → inode.ino ≠ ino) ∨
    ∃ n ∈ list, ∃ inode, cache.nodes n = some inode ∧ inode.ino = ino ∧
      searchHashList ino list cache = .ok (some n, cache) := by
  induction list with
  | nil => exact .inl ⟨rfl, by simp⟩
  | cons first rest ih =>
    obtain ⟨inode, found⟩ := live first (by simp)
    have unfolded : searchHashList ino (first :: rest) cache =
        if inode.ino = ino then .ok (some first, cache)
        else searchHashList ino rest cache := by
      rw [searchHashList, run_bind (derefNode_run found)]
      split_ifs <;> rfl
    by_cases same : inode.ino = ino
    · right
      refine ⟨first, by simp, inode, found, same, ?_⟩
      rw [unfolded, if_pos same]
    rw [if_neg same] at unfolded
    rw [unfolded]
    rcases ih fun n member => live n (by simp [member]) with missing | hit
    · left
      refine ⟨missing.1, ?_⟩
      intro n member inode' found'
      rcases List.mem_cons.mp member with rfl | inRest
      · rw [found] at found'
        cases found'
        exact same
      · exact missing.2 n inRest inode' found'
    · right
      obtain ⟨n, member, rest⟩ := hit
      exact ⟨n, by simp [member], rest⟩

/-- `lookup_sfs_nolock` finds nothing, or takes a reference and, with the first
one, a reclaim count. -/
theorem lookupSfsNolock_run (ino : Nat)
    (live : ∀ n ∈ cache.hashList (sinHashfn ino), ∃ inode, cache.nodes n = some inode) :
    (lookupSfsNolock ino cache = .ok (none, cache) ∧ cache.Absent ino) ∨
    ∃ n ∈ cache.hashList (sinHashfn ino), ∃ inode, cache.nodes n = some inode ∧ inode.ino = ino ∧
      lookupSfsNolock ino cache = .ok (some n, cache.put n { inode with
          refCount := inode.refCount + 1
          reclaimCount := inode.reclaimCount +
            if inode.refCount + 1 = 1 then 1 else 0 }) := by
  rcases searchHashList_run _ live with missing | hit
  · left
    refine ⟨?_, missing.2⟩
    rw [lookupSfsNolock, run_bind run_get, run_bind missing.1]
    rfl
  right
  obtain ⟨n, member, inode, found, sameIno, searched⟩ := hit
  refine ⟨n, member, inode, found, sameIno, ?_⟩
  have again : (cache.put n { inode with refCount := inode.refCount + 1 }).nodes n =
      some { inode with refCount := inode.refCount + 1 } := by
    simp [put]
  have overwritten : ∀ first second, (cache.put n first).put n second = cache.put n second := by
    intro first second
    simp [put]
  rw [lookupSfsNolock, run_bind run_get, run_bind searched]
  simp only
  rw [run_bind (cacheRefInc_run found), run_bind (derefNode_run again), run_bind setNode_run,
    overwritten]
  by_cases first : inode.refCount + 1 = 1
  · rw [if_pos first, if_pos first]
    rfl
  · rw [if_neg first, if_neg first, add_zero]
    rfl

end Runs

variable {node : Nat}

section

variable (ok : CacheOk sys) (idle : (sys.threads thread).pc = .idle)
  (holds : 0 < (sys.threads thread).holds node)

include ok idle holds

theorem CacheOk.refInc : StepOk (sys.step thread (.refInc node)) := by
  have isHeld := CacheOk.held_of_holds holds
  obtain ⟨inode, found, counts⟩ := ok.found node (by omega)
  refine ⟨_, by simp only [step, cacheRefInc_run found]; rfl, ?_⟩
  apply ok.revalue found
  · rfl
  · intro n other
    simp [other]
  · rw [idle]
    trivial
  · trivial
  · intro held waiting reclaimers moved moved' moved''
    obtain ⟨ref, reclaim, single, quiet, -, pending⟩ := counts
    simp [waits, reclaims, idle] at moved moved' moved''
    simp only [ref, reclaim]
    split_ifs <;> omega
  · apply ok.locked_keep
    rw [idle]

theorem CacheOk.refDec : StepOk (sys.step thread (.refDec node)) := by
  have isHeld := CacheOk.held_of_holds holds
  obtain ⟨inode, found, counts⟩ := ok.found node (by omega)
  have referenced : 0 < inode.refCount := by
    rw [counts.ref]
    omega
  refine ⟨_, by simp only [step, cacheRefDec_run found referenced]; rfl, ?_⟩
  apply ok.revalue found
  · rfl
  · intro n other
    simp [other]
  · rw [idle]
    trivial
  · split_ifs
    · rfl
    · trivial
  · intro held waiting reclaimers moved moved' moved''
    obtain ⟨ref, reclaim, single, quiet, -, pending⟩ := counts
    by_cases last : inode.refCount - 1 = 0
    all_goals
      simp [idle, last, waits, reclaims] at moved moved' moved''
      simp only [ref, reclaim] at last ⊢
      split_ifs <;> omega
  · apply ok.locked_keep
    rw [idle]
    split_ifs <;> rfl

end

theorem CacheOk.live (ok : CacheOk sys) (linked : n ∈ sys.cache.hashList bucket) :
    ∃ inode, sys.cache.nodes n = some inode := by
  cases found : sys.cache.nodes n with
  | none => exact absurd linked ((ok.unknown found).unlinked bucket)
  | some inode => exact ⟨inode, rfl⟩

theorem CacheOk.lookup (ok : CacheOk sys) (waits : (sys.threads thread).pc = .loadWait ino)
    (free : sys.lock = none) : StepOk (sys.step thread .lookup) := by
  rcases lookupSfsNolock_run ino (fun n linked => ok.live linked) with
    missing | hit
  · refine ⟨_, by simp only [step, waits, missing.1]; rfl, ?_⟩
    refine ok.repc (by rw [waits]; rfl) rfl (ok.locked_take free rfl) ?_
    intro ino' isLoading
    cases isLoading
    exact missing.2
  obtain ⟨node, linked, inode, found, sameIno, ran⟩ := hit
  have counts := ok.countsOk found
  have notKilled := ((counts.linked _).mp linked).2
  have notReclaiming := ok.not_reclaiming free node
  refine ⟨_, by simp only [step, waits, ran]; rfl, ?_⟩
  apply ok.revalue found
  · rfl
  · intro n other
    simp [other]
  · rw [waits]
    trivial
  · trivial
  · intro held waiting reclaimers moved moved' moved''
    obtain ⟨ref, reclaim, single, quiet, -, pending⟩ := counts
    simp [CacheThread.waits, CacheThread.reclaims, waits] at moved moved' moved''
    simp only [ref, reclaim]
    split_ifs <;> omega
  rw [← free]
  apply ok.locked_keep
  rw [waits]
  rfl

theorem CacheOk.lockReclaim (ok : CacheOk sys) (waits : (sys.threads thread).pc = .reclaimWait node)
    (free : sys.lock = none) : StepOk (sys.step thread .lockReclaim) := by
  have isWaiting : 0 < sys.waiting node := tally_pos (if_pos waits)
  obtain ⟨inode, found, counts⟩ := ok.found node (by omega)
  have counted : 0 < inode.reclaimCount := by
    rw [counts.reclaim]
    split_ifs <;> omega
  have ran := reclaimCheck_run found counted
  -- whichever way the checks go, one waiting reclaim less is counted
  have checked : ∀ {lock : Option (Fin N)} {pc : CachePc},
      (¬ (inode.reclaimCount - 1 ≠ 0 ∨ inode.refCount ≠ 0) ∧ pc = .reclaiming node ∨
        (inode.reclaimCount - 1 ≠ 0 ∨ inode.refCount ≠ 0) ∧ pc = .idle) →
      (∀ t, lock = some t ↔ (update sys.threads thread
        { sys.threads thread with pc := pc } t).pc.locks = true) →
      CacheOk (sys.setPc thread
        (sys.cache.put node { inode with reclaimCount := inode.reclaimCount - 1 }) lock pc) := by
    intro lock pc way locked
    refine ok.revalue found rfl (fun _ _ => rfl) ?_ ?_ ?_ locked
    · rw [waits]
      rfl
    · rcases way with ⟨-, rfl⟩ | ⟨-, rfl⟩
      · rfl
      · trivial
    intro held waiting reclaimers moved moved' moved''
    obtain ⟨ref, reclaim, single, quiet, -, pending⟩ := counts
    rcases way with ⟨goesOn, rfl⟩ | ⟨goesOn, rfl⟩
    all_goals
      simp [CacheThread.waits, CacheThread.reclaims, waits] at moved moved' moved''
      simp only [ref, reclaim] at goesOn ⊢
      split_ifs at goesOn ⊢ <;> omega
  by_cases goesOn : ¬ (inode.reclaimCount - 1 ≠ 0 ∨ inode.refCount ≠ 0)
  · rw [decide_eq_true goesOn] at ran
    exact ⟨_, by simp only [step, waits, ran]; rfl,
      checked (.inl ⟨goesOn, rfl⟩) (ok.locked_take free rfl)⟩
  rw [decide_eq_false goesOn] at ran
  refine ⟨_, by simp only [step, waits, ran]; rfl, checked (.inr ⟨not_not.mp goesOn, rfl⟩) ?_⟩
  rw [← free]
  apply ok.locked_keep
  rw [waits]
  rfl

theorem CacheOk.loaded (ok : CacheOk sys) {node : Nat}
    (loading : (sys.threads thread).pc = .loading ino)
    (fresh : sys.cache.nodes node = none) : StepOk (sys.step thread (.loaded node)) := by
  have unknown := ok.unknown fresh
  have moved := moved_revise sys thread (sys.cache.link node ino) none
    ⟨.idle, update (sys.threads thread).holds node ((sys.threads thread).holds node + 1)⟩ node
  refine ⟨sys.revise thread (sys.cache.link node ino) none _, by
    simp only [step, loading]
    rfl, ?_⟩
  apply ok.change node rfl
  · intro n other
    simp [other]
  · simp [loading, CachePc.node]
  · simp [CachePc.node]
  · intro n other
    simp [revise, link, other]
  · intro n other bucket
    exact mem_link.trans (by simp [other])
  · exact id
  · obtain ⟨held, waiting, reclaimers, killers⟩ := moved
    simp [waits, reclaims, kills, loading, unknown.held,
      unknown.waiting, unknown.reclaimers, unknown.killers] at held waiting reclaimers killers
    have one : (sys.revise thread (sys.cache.link node ino) none _).held node = 1 :=
      Nat.add_right_cancel (held.trans (Nat.add_comm _ _))
    refine NodeOk.of_some (?_ : _ = some ⟨ino, 1, 1⟩) ⟨?_, ?_, ?_, ?_, ?_, ?_⟩
    · simp [revise, link]
    · simp [one]
    · simp [one, waiting]
    · omega
    · omega
    · intro bucket
      rw [killers]
      exact mem_link.trans (by simp [unknown.unlinked bucket])
    · omega
  · intro bucket
    by_cases same : bucket = sinHashfn ino
    · subst same
      simp only [revise, link, update_self]
      exact List.nodup_cons.mpr ⟨unknown.unlinked _, ok.nodup _⟩
    · simp only [revise, link, update_of_ne same]
      exact ok.nodup bucket
  · exact ok.locked_drop (by rw [loading]; rfl) rfl
  · exact nofun
  · intro bucket n inBucket other inBucket' inode inode' found found' sameIno
    rcases mem_link.mp inBucket with isNode | old
    · exact other isNode.1
    rcases mem_link.mp inBucket' with isNode | linkedBefore
    · obtain ⟨-, rfl⟩ := isNode
      simp only [revise, link, update_self, update_of_ne other, Option.some.injEq] at found found'
      apply ok.absent thread ino loading n old inode' found'
      rw [← sameIno, ← found]
    · exact unknown.unlinked bucket linkedBefore
  intro t isThread ino' isLoading
  -- two loading threads would both hold the lock
  have mine := (ok.locked thread).mpr (by rw [loading]; rfl)
  have theirs := (ok.locked t).mpr (by rw [isLoading]; rfl)
  rw [mine] at theirs
  exact absurd (Option.some.inj theirs).symm isThread

section

variable (ok : CacheOk sys)

include ok

theorem CacheOk.reclaimFailed (reclaiming : (sys.threads thread).pc = .reclaiming node) :
    StepOk (sys.step thread .reclaimFailed) := by
  have isReclaiming : 0 < sys.reclaimers node := tally_pos (if_pos reclaiming)
  obtain ⟨inode, found, counts⟩ := ok.found node (by omega)
  refine ⟨_, rfl, ok.keep node rfl (fun _ _ => rfl) ?_ ?_ (fun _ _ => rfl) (fun _ _ _ => Iff.rfl)
    nofun ?_ ok.nodup (ok.locked_drop (by rw [reclaiming]; rfl) rfl) nofun
    (fun _ inBucket => inBucket) (fun inode found => ⟨inode, found, rfl⟩)⟩
  · intro n other
    simpa [reclaiming, CachePc.node] using other.symm
  · simp [CachePc.node]
  obtain ⟨held, waiting, reclaimers, killers⟩ : Moved sys
      { sys.setPc thread sys.cache none .idle with ioFailed := true } _ _ node :=
    .of_update rfl node
  obtain ⟨ref, reclaim, single, quiet, linked, -⟩ := counts
  simp [waits, reclaims, kills, reclaiming] at held waiting reclaimers killers
  dsimp only
  refine NodeOk.of_some found ⟨?_, ?_, ?_, ?_, ?_, nofun⟩
  · rw [held, ref]
  · rw [held, waiting, reclaim]
  · omega
  · omega
  · rw [killers]
    exact linked

theorem CacheOk.mem_unlink (counts : sys.CountsOk node inode) (n bucket : Nat) :
    n ∈ (sys.cache.unlink node inode.ino).hashList bucket ↔
      n ∈ sys.cache.hashList bucket ∧ n ≠ node := by
  by_cases same : bucket = sinHashfn inode.ino
  · subst same
    simp only [unlink, update_self]
    rw [(ok.nodup _).mem_erase_iff, and_comm]
  simp only [unlink, update_of_ne same]
  constructor
  · intro inBucket
    refine ⟨inBucket, ?_⟩
    intro isNode
    subst isNode
    exact same ((counts.linked bucket).mp inBucket).1
  · exact And.left

theorem CacheOk.unlink (reclaiming : (sys.threads thread).pc = .reclaiming node) :
    StepOk (sys.step thread .unlink) := by
  have isReclaiming : 0 < sys.reclaimers node := tally_pos (if_pos reclaiming)
  obtain ⟨inode, found, counts⟩ := ok.found node (by omega)
  refine ⟨sys.setPc thread (sys.cache.unlink node inode.ino) none (.killing node),
    by simp only [step, reclaiming, sfsRemoveLinks_run found]; rfl, ?_⟩
  apply ok.keep node rfl
  · intro n _
    rfl
  · intro n other
    simpa [reclaiming, CachePc.node] using other.symm
  · intro n other
    simpa [CachePc.node] using other.symm
  · intro n _
    rfl
  · intro n other bucket
    exact (ok.mem_unlink counts n bucket).trans (by simp [other])
  · exact id
  · obtain ⟨held, waiting, reclaimers, killers⟩ : Moved sys
        (sys.setPc thread (sys.cache.unlink node inode.ino) none (.killing node)) _ _ node :=
      .of_update rfl node
    have memUnlink := ok.mem_unlink counts node
    obtain ⟨ref, reclaim, single, quiet, -, -⟩ := counts
    simp [waits, reclaims, kills, reclaiming] at held waiting reclaimers killers
    refine NodeOk.of_some found ⟨?_, ?_, ?_, ?_, ?_, ?_⟩
    · rw [held, ref]
    · rw [held, waiting, reclaim]
    · omega
    · omega
    · intro bucket
      rw [killers]
      exact (memUnlink bucket).trans (by simp)
    · omega
  · intro bucket
    by_cases same : bucket = sinHashfn inode.ino
    · subst same
      simp only [setPc, revise, InodeCache.unlink, update_self]
      exact (ok.nodup _).erase node
    · simp only [setPc, revise, InodeCache.unlink, update_of_ne same]
      exact ok.nodup bucket
  · exact ok.locked_drop (by rw [reclaiming]; rfl) rfl
  · exact nofun
  · intro bucket inBucket
    exact ((ok.mem_unlink counts node bucket).mp inBucket).1
  · exact fun inode' found' => ⟨inode', found', rfl⟩

theorem CacheOk.killing (killing : (sys.threads thread).pc = .killing node) :
    ∃ inode, sys.cache.nodes node = some inode ∧ inode.refCount = 0 ∧
      sys.held node = 0 ∧ sys.waiting node = 0 ∧ sys.reclaimers node = 0 ∧
      sys.killers node = 1 ∧ ∀ bucket, node ∉ sys.cache.hashList bucket := by
  have isKilling : 0 < sys.killers node := tally_pos (if_pos killing)
  obtain ⟨inode, found, counts⟩ := ok.found node (by omega)
  obtain ⟨held, waiting⟩ := counts.quiet (by omega)
  have single := counts.single
  refine ⟨inode, found, ?_, held, waiting, by omega, by omega, ?_⟩
  · rw [counts.ref, held]
    rfl
  intro bucket inBucket
  have := ((counts.linked bucket).mp inBucket).2
  omega

theorem CacheOk.kill (killing : (sys.threads thread).pc = .killing node) :
    StepOk (sys.step thread .kill) := by
  obtain ⟨inode, found, unreferenced, noneHeld, noneWaiting, noneReclaim, oneKills, unlinked⟩ :=
    ok.killing killing
  refine ⟨sys.setPc thread (sys.cache.drop node) sys.lock .idle,
    by simp only [step, killing, inodeKill_run found unreferenced]; rfl, ?_⟩
  apply ok.keep node rfl
  · intro n _
    rfl
  · intro n other
    simpa [killing, CachePc.node] using other.symm
  · simp [CachePc.node]
  · intro n other
    simp [setPc, revise, drop, other]
  · intro n _ bucket
    rfl
  · exact id
  · obtain ⟨held, waiting, reclaimers, killers⟩ : Moved sys
        (sys.setPc thread (sys.cache.drop node) sys.lock .idle) _ _ node := .of_update rfl node
    simp [waits, reclaims, kills, killing] at held waiting reclaimers killers
    apply NodeOk.of_none
    · simp [setPc, revise, drop]
    constructor
    · omega
    · omega
    · omega
    · omega
    · exact unlinked
  · exact ok.nodup
  · apply ok.locked_keep
    rw [killing]
    rfl
  · exact nofun
  · exact fun _ inBucket => inBucket
  · intro inode' found'
    simp [setPc, revise, drop] at found'

/-- Every step that a thread can take keeps the invariant, and no assertion
fails in it. -/
theorem CacheOk.step {step : CacheStep} (enabled : sys.Enabled thread step) :
    StepOk (sys.step thread step) := by
  cases step with
  | startLoad ino => exact ok.startLoad enabled
  | lookup =>
    obtain ⟨⟨ino, waits⟩, free⟩ := enabled
    exact ok.lookup waits free
  | loaded node =>
    obtain ⟨⟨ino, loading⟩, fresh⟩ := enabled
    exact ok.loaded loading fresh
  | loadFailed =>
    obtain ⟨ino, loading⟩ := enabled
    exact ok.loadFailed loading
  | refInc node => exact ok.refInc enabled.1 enabled.2
  | refDec node => exact ok.refDec enabled.1 enabled.2
  | lockReclaim =>
    obtain ⟨⟨node, waits⟩, free⟩ := enabled
    exact ok.lockReclaim waits free
  | reclaimFailed =>
    obtain ⟨node, reclaiming⟩ := enabled
    exact ok.reclaimFailed reclaiming
  | unlink =>
    obtain ⟨node, reclaiming⟩ := enabled
    exact ok.unlink reclaiming
  | kill =>
    obtain ⟨node, killing⟩ := enabled
    exact ok.kill killing

end

theorem CacheSystem.setHolds_pc (cache : InodeCache) (lock : Option (Fin N))
    (node count : Nat) (t : Fin N) :
    ((sys.setHolds thread cache lock (sys.threads thread).pc node count).threads t).pc =
      (sys.threads t).pc := by
  simp only [setHolds, revise, update_apply]
  split_ifs with isThread
  · rw [isThread]
  · rfl

theorem CacheOk.handOver (ok : CacheOk sys) (other : Fin N)
    (holds : 0 < (sys.threads thread).holds node) : CacheOk (sys.handOver thread other node) := by
  set given := sys.setHolds thread sys.cache sys.lock (sys.threads thread).pc node
    ((sys.threads thread).holds node - 1) with given_eq
  change CacheOk (given.setHolds other given.cache given.lock (given.threads other).pc node
    ((given.threads other).holds node + 1))
  have places : ∀ t, ((given.setHolds other given.cache given.lock (given.threads other).pc node
      ((given.threads other).holds node + 1)).threads t).pc = (sys.threads t).pc := by
    intro t
    rw [setHolds_pc, given_eq, setHolds_pc]
  refine ⟨?_, ok.nodup, ok.unique, ?_, ?_⟩
  · intro n
    refine (ok.nodes n).of_same rfl ?_ (fun _ => Iff.rfl) id
    have first : Moved sys given (sys.threads thread) _ n := .of_update rfl n
    have second := moved_revise given other given.cache given.lock
      ⟨(given.threads other).pc, update (given.threads other).holds node
        ((given.threads other).holds node + 1)⟩ n
    obtain ⟨held, waiting, reclaimers, killers⟩ := first
    obtain ⟨held', waiting', reclaimers', killers'⟩ := second
    simp only [waits, reclaims, kills,
      Nat.add_right_cancel_iff] at waiting waiting' reclaimers reclaimers' killers killers'
    constructor
    · change (given.revise other _ _ _).held n = _
      by_cases isNode : n = node
      · subst isNode
        simp only [update_self] at held held'
        omega
      · simp only [update_of_ne isNode] at held held'
        omega
    · exact waiting'.trans waiting
    · exact reclaimers'.trans reclaimers
    · exact killers'.trans killers
  · intro t
    rw [places]
    exact ok.locked t
  · intro t ino
    rw [places]
    exact ok.absent t ino

theorem CacheReaches.ok (reaches : CacheReaches N sys) : CacheOk sys := by
  induction reaches with
  | mount =>
    constructor
    · intro node
      apply NodeOk.of_none rfl
      constructor <;> simp [held, waiting, reclaimers, killers, waits, reclaims, kills, tally]
    · simp
    · simp
    · simp [CachePc.locks]
    · simp
  | step thread step _ enabled stepped ok =>
    obtain ⟨next, ran, nextOk⟩ := ok.step enabled
    rw [ran] at stepped
    cases stepped
    exact nextOk
  | handOver thread other node _ holds ok => exact ok.handOver other holds

theorem CacheOk.killing_alone (ok : CacheOk sys)
    (killing : (sys.threads thread).pc = .killing node) :
    (∀ t, (sys.threads t).holds node = 0) ∧
    ∀ t, t ≠ thread → (sys.threads t).pc.node ≠ some node := by
  obtain ⟨-, -, -, noneHeld, noneWaiting, noneReclaim, oneKills, -⟩ := ok.killing killing
  constructor
  · intro t
    by_contra some
    have := CacheOk.held_of_holds (Nat.pos_of_ne_zero some)
    omega
  intro t other works
  cases place : (sys.threads t).pc <;> rw [place] at works <;> cases works
  case reclaimWait.refl =>
    have : 0 < sys.waiting node := tally_pos (if_pos place)
    omega
  case reclaiming.refl =>
    have : 0 < sys.reclaimers node := tally_pos (if_pos place)
    omega
  case killing.refl =>
    have both : (sys.threads t).kills node + (sys.threads thread).kills node ≤
        sys.killers node := add_le_tally other
    simp only [kills, place, killing, if_true] at both
    omega

theorem CacheOk.pending (ok : CacheOk sys) (noFailure : sys.ioFailed = false)
    (found : sys.cache.nodes node = some inode) (unreferenced : inode.refCount = 0) :
    ∃ t, (sys.threads t).pc.node = some node := by
  have counts := ok.countsOk found
  have ref := counts.ref
  have some := counts.pending noFailure (by omega)
  by_contra nobody
  have idle := fun t => counts_eq_zero fun works => nobody ⟨t, works⟩
  have noneWaiting : sys.waiting node = 0 := tally_eq_zero fun t => (idle t).1
  have noneReclaim : sys.reclaimers node = 0 := tally_eq_zero fun t => (idle t).2.1
  have noneKills : sys.killers node = 0 := tally_eq_zero fun t => (idle t).2.2
  omega

/-- For any number of threads and in every reachable system: a hash list holds
live inodes, at most one for each inode number; a node about to be killed is
unreferenced, unlinked and known to no other thread; no assertion fails in the
next step; and, unless a write-back failed, every unreferenced inode in memory
has a pending reclaim. -/
theorem inode_cache_safe (reaches : CacheReaches N sys) :
    (∀ bucket, (sys.cache.hashList bucket).Nodup ∧ ∀ node ∈ sys.cache.hashList bucket, ∃ inode,
        sys.cache.nodes node = some inode ∧ bucket = sinHashfn inode.ino) ∧
    (∀ bucket bucket' node node' inode inode',
      node ∈ sys.cache.hashList bucket → node' ∈ sys.cache.hashList bucket' →
      sys.cache.nodes node = some inode → sys.cache.nodes node' = some inode' →
      inode.ino = inode'.ino → node = node') ∧
    (∀ thread node, (sys.threads thread).pc = .killing node →
      (∃ inode, sys.cache.nodes node = some inode ∧ inode.refCount = 0) ∧
      (∀ t, (sys.threads t).holds node = 0) ∧
      (∀ t, t ≠ thread → (sys.threads t).pc.node ≠ some node) ∧
      ∀ bucket, node ∉ sys.cache.hashList bucket) ∧
    (∀ thread step, sys.Enabled thread step → ∃ next, sys.step thread step = .ok next) ∧
    (sys.ioFailed = false → ∀ node inode, sys.cache.nodes node = some inode →
      inode.refCount = 0 → ∃ thread, (sys.threads thread).pc.node = some node) := by
  have ok := reaches.ok
  refine ⟨?_, ?_, ?_, ?_, ?_⟩
  · intro bucket
    refine ⟨ok.nodup bucket, ?_⟩
    intro node linked
    obtain ⟨inode, found⟩ := ok.live linked
    exact ⟨inode, found, (((ok.countsOk found).linked bucket).mp linked).1⟩
  · intro bucket bucket' node node' inode inode' linked linked' found found' sameIno
    have isBucket := (((ok.countsOk found).linked bucket).mp linked).1
    have isBucket' := (((ok.countsOk found').linked bucket').mp linked').1
    rw [← sameIno, ← isBucket] at isBucket'
    subst isBucket'
    exact ok.unique bucket' node linked node' linked' inode inode' found found' sameIno
  · intro thread node killing
    obtain ⟨inode, found, unreferenced, -, -, -, -, unlinked⟩ := ok.killing killing
    obtain ⟨noHolds, alone⟩ := ok.killing_alone killing
    exact ⟨⟨inode, found, unreferenced⟩, noHolds, alone, unlinked⟩
  · intro thread step enabled
    obtain ⟨next, ran, -⟩ := ok.step enabled
    exact ⟨next, ran⟩
  · intro noFailure node inode found unreferenced
    exact ok.pending noFailure found unreferenced

end Threads

/-- A node is looked up again between its last release and the reclaim, which
then gives up; the second release reclaims it. -/
theorem inode_cache_safe_resurrected : ∃ sys, CacheReaches 2 sys ∧ (sys.threads 1).pc = .killing 7 ∧
      (sys.threads 0).holds 7 = 0 ∧ (sys.threads 0).pc.node ≠ some 7 := by
  have started := (CacheReaches.mount (N := 2)).step 0 (.startLoad 5) rfl rfl
  have missed := started.step 0 .lookup ⟨⟨_, rfl⟩, rfl⟩ rfl
  have loaded := missed.step 0 (.loaded 7) ⟨⟨_, rfl⟩, rfl⟩ rfl
  have dropped := loaded.step 0 (.refDec 7) ⟨rfl, by decide⟩ rfl
  have restarted := dropped.step 1 (.startLoad 5) rfl rfl
  have hit := restarted.step 1 .lookup ⟨⟨_, rfl⟩, rfl⟩ rfl
  have gaveUp := hit.step 0 .lockReclaim ⟨⟨_, rfl⟩, rfl⟩ rfl
  have released := gaveUp.step 1 (.refDec 7) ⟨rfl, by decide⟩ rfl
  have reclaiming := released.step 1 .lockReclaim ⟨⟨_, rfl⟩, rfl⟩ rfl
  have unlinked := reclaiming.step 1 .unlink ⟨_, rfl⟩ rfl
  have safe := (inode_cache_safe unlinked).2.2.1 1 7 rfl
  exact ⟨_, unlinked, rfl, safe.2.1 0, safe.2.2.1 0 (by decide)⟩

end UcoreSmp
