import UcoreSmp.StrideSched

/-!
# The run pool as a heap of unbounded sums

Each call into the stride scheduling class is specified by the tree that the
pool draws.  Which processes are in the pool never depends on the strides.  The
order does: as long as the unbounded sums of the pool lie within one
`BIG_STRIDE` of each other, the signed 32-bit comparison of the wrapped strides
is the comparison of the sums, the pool is a heap of the sums, and its root is a
process with the smallest one.
-/

namespace UcoreSmp

open Function

/-- Two sums within one `BIG_STRIDE` of each other. -/
def Near (a b : Nat) : Prop :=
  a ≤ b + BIG_STRIDE.toNat ∧ b ≤ a + BIG_STRIDE.toNat

instance (a b : Nat) : Decidable (Near a b) :=
  inferInstanceAs (Decidable (_ ∧ _))

variable {proc proc' : Proc} {procs : Nat → Option Proc} {p a b : Nat} {tree : BinaryTree Nat}

theorem Near.refl (a : Nat) : Near a a :=
  ⟨Nat.le_add_right _ _, Nat.le_add_right _ _⟩

theorem Near.symm (near : Near a b) : Near b a :=
  ⟨near.2, near.1⟩

/-- Inside the window the wrapped difference is the difference of the sums,
whatever the common offset of the strides. -/
theorem toInt_stride_sub (base : BitVec 32) (near : Near a b) :
    ((base + BitVec.ofNat 32 a) - (base + BitVec.ofNat 32 b)).toInt = (a : Int) - b := by
  have big : BIG_STRIDE.toNat = 0x7FFFFFFF := rfl
  obtain ⟨above, below⟩ := near
  rw [add_sub_add_left_eq_sub, BitVec.toInt_sub, BitVec.toInt_ofNat',
    BitVec.toInt_ofNat', Int.bmod_sub_bmod, Int.sub_bmod_bmod]
  apply Int.bmod_eq_of_le
  · omega
  · omega

theorem smallerBy_procStrideCompF (base : BitVec 32)
    {q a b : Nat} (wrapsP : strideOf procs p = base + BitVec.ofNat 32 a)
    (wrapsQ : strideOf procs q = base + BitVec.ofNat 32 b) (near : Near a b) :
    smallerBy (procStrideCompF procs) p q = true ↔ a < b := by
  unfold smallerBy procStrideCompF
  rw [wrapsP, wrapsQ, toInt_stride_sub base near]
  by_cases larger : (a : Int) - b > 0
  · simp only [Int.reduceNeg, decide_eq_true_eq]
    omega
  rw [if_neg larger]
  by_cases equal : (a : Int) - b = 0
  · simp only [Int.reduceNeg, decide_eq_true_eq]
    omega
  rw [if_neg equal]
  simp only [Int.reduceNeg, decide_true, true_iff]
  omega

/-- The pool draws a tree of live processes, and `proc_num` counts it. -/
structure PoolShape (state : SchedState) (tree : BinaryTree Nat) : Prop where
  pool : PoolTree state.links state.rq.lab6RunPool tree
  count : state.rq.procNum = tree.numNodes
  live : ∀ p ∈ treeNodes tree, ∃ proc, state.procs p = some proc

/-- The strides in the pool are the sums up to a common offset and wrapping, the
sums lie in one window, and the tree is a heap of them. -/
structure PoolOrder (base : BitVec 32) (procs : Nat → Option Proc) (sum : Nat → Nat)
    (tree : BinaryTree Nat) : Prop where
  wraps : ∀ p ∈ treeNodes tree, strideOf procs p = base + BitVec.ofNat 32 (sum p)
  near : ∀ p ∈ treeNodes tree, ∀ q ∈ treeNodes tree, Near (sum p) (sum q)
  ordered : HeapOrdered (fun p q => sum p ≤ sum q) tree

/-- Everything of the state that no call into the scheduling class writes. -/
structure SameRest (state next : SchedState) : Prop where
  timerList : next.timerList = state.timerList
  procList : next.procList = state.procList
  current : next.current = state.current
  idleproc : next.idleproc = state.idleproc
  initproc : next.initproc = state.initproc

theorem strideOf_update_same
    (found : procs p = some proc) (same : proc'.lab6Stride = proc.lab6Stride) :
    strideOf (update procs p (some proc')) = strideOf procs := by
  funext q
  by_cases atP : q = p
  · subst atP
    simp [strideOf, found, same]
  · simp [strideOf, update_of_ne atP]

theorem chargedOf_update_same (found : procs p = some proc) (same : proc'.charged = proc.charged) :
    chargedOf (update procs p (some proc')) = chargedOf procs := by
  funext q
  by_cases atP : q = p
  · subst atP
    simp [chargedOf, found, same]
  · simp [chargedOf, update_of_ne atP]

section Order

variable {base : BitVec 32} {procs' : Nat → Option Proc} {sum sum' : Nat → Nat}

theorem PoolOrder.congr (order : PoolOrder base procs sum tree)
    (strides : ∀ p ∈ treeNodes tree, strideOf procs' p = strideOf procs p)
    (sums : ∀ p ∈ treeNodes tree, sum' p = sum p) : PoolOrder base procs' sum' tree where
  wraps := by
    intro p member
    rw [strides p member, sums p member]
    exact order.wraps p member
  near := by
    intro p member q memberQ
    rw [sums p member, sums q memberQ]
    exact order.near p member q memberQ
  ordered := by
    apply order.ordered.congr
    intro p member q memberQ below
    rwa [sums p member, sums q memberQ]

variable {left right : BinaryTree Nat}

theorem PoolOrder.subtrees (order : PoolOrder base procs sum (.node p left right)) :
    PoolOrder base procs sum left ∧ PoolOrder base procs sum right := by
  have inLeft : ∀ q ∈ treeNodes left, q ∈ treeNodes (.node p left right) := by
    intro q member
    simp [member]
  have inRight : ∀ q ∈ treeNodes right, q ∈ treeNodes (.node p left right) := by
    intro q member
    simp [member]
  exact ⟨⟨fun q member => order.wraps q (inLeft q member),
      fun q member r memberR => order.near q (inLeft q member) r (inLeft r memberR),
      order.ordered.2.1⟩,
    ⟨fun q member => order.wraps q (inRight q member),
      fun q member r memberR => order.near q (inRight q member) r (inRight r memberR),
      order.ordered.2.2⟩⟩

theorem PoolOrder.skewMerge {first second : BinaryTree Nat}
    (firstOrder : PoolOrder base procs sum first) (secondOrder : PoolOrder base procs sum second)
    (near : ∀ p ∈ treeNodes first, ∀ q ∈ treeNodes second, Near (sum p) (sum q)) :
    PoolOrder base procs sum (skewMerge (smallerBy (procStrideCompF procs)) first second) where
  wraps := by
    intro p member
    rcases (mem_skewMerge _ _ _ _).mp member with inFirst | inSecond
    · exact firstOrder.wraps p inFirst
    · exact secondOrder.wraps p inSecond
  near := by
    intro p member q memberQ
    rcases (mem_skewMerge _ _ _ _).mp member with inFirst | inSecond
    · rcases (mem_skewMerge _ _ _ _).mp memberQ with inFirstQ | inSecondQ
      · exact firstOrder.near p inFirst q inFirstQ
      · exact near p inFirst q inSecondQ
    rcases (mem_skewMerge _ _ _ _).mp memberQ with inFirstQ | inSecondQ
    · exact (near q inFirstQ p inSecond).symm
    · exact secondOrder.near p inSecond q inSecondQ
  ordered := by
    apply HeapOrdered.skewMerge _ firstOrder.ordered secondOrder.ordered
    · intro p member q memberQ
      have compares := smallerBy_procStrideCompF base (firstOrder.wraps p member)
        (secondOrder.wraps q memberQ) (near p member q memberQ)
      by_cases smaller : smallerBy (procStrideCompF procs) p q = true
      · rw [if_pos smaller]
        exact (compares.mp smaller).le
      · rw [if_neg smaller]
        exact Nat.le_of_not_lt (compares.not.mp smaller)
    · intro p q r first second
      exact first.trans second

/-- Merging the subtrees of an ordered pool keeps the order, also when the stride
of the root has changed meanwhile. -/
theorem PoolOrder.without_root (order : PoolOrder base procs sum (.node p left right))
    (strides : ∀ q ∈ treeNodes left ++ treeNodes right, strideOf procs' q = strideOf procs q) :
    PoolOrder base procs' sum
      (UcoreSmp.skewMerge (smallerBy (procStrideCompF procs')) left right) := by
  obtain ⟨leftOrder, rightOrder⟩ := order.subtrees
  apply PoolOrder.skewMerge
  · exact leftOrder.congr (fun q member => strides q (by simp [member])) fun _ _ => rfl
  · exact rightOrder.congr (fun q member => strides q (by simp [member])) fun _ _ => rfl
  · intro q member r memberR
    exact order.near q (by simp [member]) r (by simp [memberR])

end Order

variable {state : SchedState} {faulty : SchedFault → Prop}

theorem ends_derefProc {post : Proc → SchedState → Prop} (found : state.procs p = some proc) :
    Ends (derefProc p) post faulty state ↔ post proc state := by
  simp only [derefProc, ends_bind, ends_get, found, ends_pure]

theorem ends_updateProc {post : PUnit → SchedState → Prop}
    {update : Proc → Proc} (found : state.procs p = some proc) :
    Ends (updateProc p update) post faulty state ↔ post () (state.setProc p (update proc)) := by
  simp only [updateProc, ends_bind, ends_derefProc found, ends_modify]

structure Entered (state : SchedState) (p : Nat) (proc : Proc)
    (tree : BinaryTree Nat) (next : SchedState) (tree' : BinaryTree Nat) : Prop where
  shape : PoolShape next tree'
  nodes : (treeNodes tree').Perm (p :: treeNodes tree)
  procs : next.procs = update state.procs p (some (refillSlice state.rq proc))
  rest : SameRest state next
  log : next.log = .enqueue p proc.charged :: state.log
  order : ∀ base sum, PoolOrder base state.procs sum tree →
    strideOf state.procs p = base + BitVec.ofNat 32 (sum p) →
    (∀ q ∈ treeNodes tree, Near (sum p) (sum q)) →
    PoolOrder base next.procs sum tree'

theorem refillSlice_lab6Stride (rq : RunQueue) (proc : Proc) :
    (refillSlice rq proc).lab6Stride = proc.lab6Stride := by
  unfold refillSlice
  split <;> rfl

theorem refillSlice_charged (rq : RunQueue) (proc : Proc) :
    (refillSlice rq proc).charged = proc.charged := by
  unfold refillSlice
  split <;> rfl

theorem strideEnqueue_ends (shape : PoolShape state tree)
    (found : state.procs p = some proc) (fresh : p ∉ treeNodes tree) :
    Ends (strideEnqueue p) (fun _ next => ∃ tree', Entered state p proc tree next tree')
      (fun _ => False) state := by
  obtain ⟨root, links, ran, pool⟩ := skewHeapInsert_spec
    (procStrideCompF state.procs) shape.pool fresh
    (show tree.numNodes + 1 < state.rq.procNum + 2 by rw [shape.count]; omega)
  have foundThere : (state.setPool root links).procs p = some proc := found
  simp only [strideEnqueue, ends_bind, ends_get, ran, assignPool, ends_modify,
    ends_derefProc foundThere]
  have nodes : (treeNodes (skewMerge (smallerBy (procStrideCompF state.procs)) tree
      (.node p .nil .nil))).Perm (p :: treeNodes tree) :=
    (treeNodes_skewMerge_perm _ _ _).trans (List.perm_append_singleton p _)
  refine ⟨skewMerge (smallerBy (procStrideCompF state.procs)) tree (.node p .nil .nil),
    ⟨pool, ?_, ?_⟩, nodes, rfl, ⟨rfl, rfl, rfl, rfl, rfl⟩, rfl, ?_⟩
  · rw [numNodes_skewMerge]
    exact congrArg (· + 1) shape.count
  · intro q member
    by_cases isP : q = p
    · subst isP
      exact ⟨_, update_self _ _ _⟩
    have inTree := List.mem_of_ne_of_mem isP (nodes.mem_iff.mp member)
    obtain ⟨other, otherFound⟩ := shape.live q inTree
    exact ⟨other, (update_of_ne isP _ _).trans otherFound⟩
  intro base sum order wraps near
  have single : PoolOrder base state.procs sum (.node p .nil .nil) := by
    refine ⟨?_, ?_, ?_⟩
    · intro q member
      obtain rfl : q = p := by simpa using member
      exact wraps
    · intro q member r memberR
      obtain rfl : q = p := by simpa using member
      obtain rfl : r = q := by simpa using memberR
      exact Near.refl _
    · exact ⟨by simp, trivial, trivial⟩
  have merged := order.skewMerge single (by
    intro q member r memberR
    obtain rfl : r = p := by simpa using memberR
    exact (near q member).symm)
  refine merged.congr (fun q _ => ?_) fun _ _ => rfl
  exact congrFun (strideOf_update_same found (refillSlice_lab6Stride _ _)) q

/-- What `stride_pick_next` followed by `stride_dequeue` did: the root left the
pool with one pass charged to it. -/
structure Left (state : SchedState) (p : Nat) (proc : Proc)
    (tree : BinaryTree Nat) (next : SchedState) (tree' : BinaryTree Nat) : Prop where
  shape : PoolShape next tree'
  nodes : (treeNodes tree).Perm (p :: treeNodes tree')
  procs : next.procs = update state.procs p (some (chargePass proc))
  rest : SameRest state next
  log : next.log = .dequeue p :: .pick p proc.charged :: state.log
  order : ∀ base sum, PoolOrder base state.procs sum tree →
    PoolOrder base next.procs sum tree' ∧ ∀ q ∈ treeNodes tree, sum p ≤ sum q

theorem strideTakeNext_ends (shape : PoolShape state tree) : Ends strideTakeNext (fun result next =>
        (result = none ∧ tree = .nil ∧ next = state) ∨
          ∃ p proc tree', result = some p ∧ state.procs p = some proc ∧
            Left state p proc tree next tree')
      (fun _ => False) state := by
  match tree with
  | .nil =>
    have empty : state.rq.lab6RunPool = none := shape.pool.hangs
    simp [strideTakeNext, stridePickNext, empty]
  | .node p left right =>
    have atRoot : state.rq.lab6RunPool = some p := shape.pool.hangs.1
    obtain ⟨proc, found⟩ := shape.live p (by simp)
    have pool := shape.pool
    rw [atRoot] at pool
    set charged := update state.procs p (some (chargePass proc)) with isCharged
    have apart : ∀ q ∈ treeNodes left ++ treeNodes right, q ≠ p := by
      rintro q member rfl
      exact (List.nodup_cons.mp pool.nodup).1 member
    have count := shape.count
    simp only [BinaryTree.numNodes] at count
    obtain ⟨root, links, ran, removed⟩ := skewHeapRemove_root_spec (procStrideCompF charged) pool
      (show left.numNodes + right.numNodes < state.rq.procNum + 1 by omega)
    simp only [strideTakeNext, stridePickNext, strideDequeue, ends_bind, ends_get,
      atRoot, ends_derefProc found, ends_modify, SchedState.setProc,
      SchedState.record, ← isCharged, ran, assignPool, ends_pure]
    refine .inr ⟨p, proc, skewMerge (smallerBy (procStrideCompF charged)) left right,
      rfl, found, ⟨removed, ?_, ?_⟩, ?_, isCharged, ⟨rfl, rfl, rfl, rfl, rfl⟩, rfl, ?_⟩
    · rw [numNodes_skewMerge]
      exact (congrArg (· - 1) count).trans (Nat.add_sub_cancel _ 1)
    · intro q member
      rw [mem_skewMerge, ← List.mem_append] at member
      obtain ⟨other, otherFound⟩ := shape.live q (List.mem_cons_of_mem p member)
      refine ⟨other, ?_⟩
      change charged q = some other
      rw [isCharged, update_of_ne (apart q member)]
      exact otherFound
    · exact ((treeNodes_skewMerge_perm _ _ _).symm).cons p
    intro base sum order
    refine ⟨?_, order.ordered.root_below (Nat.le_refl _)⟩
    change PoolOrder base charged sum _
    apply order.without_root
    intro q member
    simp [strideOf, isCharged, update_of_ne (apart q member)]

end UcoreSmp
