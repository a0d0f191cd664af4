import UcoreSmp.StridePool
import UcoreSmp.Sched
import UcoreSmp.Tally
import Mathlib.Algebra.Order.Group.Int
import Mathlib.Algebra.Order.Group.Abs

/-!
# Proportional share in a closed system

A fixed set of runnable processes starts with equal strides, and nothing happens
but scheduling decisions.  The totals of the processes, the number of their runs
times the pass of their priority, never drift apart by more than `BIG_STRIDE`:
the process that is charged had the smallest total, and one pass is at most
`BIG_STRIDE`.  So the wrapped comparison stays inside its window for ever, and
every decision picks a process with the smallest total.
-/

namespace UcoreSmp

open Function List

def runsOf (procs : Nat → Option Proc) (p : Nat) : Nat :=
  ((procs p).map Proc.runs).getD 0

def priorityOf (procs : Nat → Option Proc) (p : Nat) : BitVec 32 :=
  ((procs p).map Proc.lab6Priority).getD 0

def passOf (procs : Nat → Option Proc) (p : Nat) : Nat :=
  BIG_STRIDE.toNat / max (priorityOf procs p).toNat 1

/-- The runs of a process since the start times its pass. -/
def total (start state : SchedState) (p : Nat) : Nat :=
  (runsOf state.procs p - runsOf start.procs p) * passOf start.procs p

/-- The runnable processes are those of a fixed set, with equal strides; all are
in the pool, except the one that may be running. -/
structure ClosedSystem (state : SchedState) (members : Finset Nat) : Prop where
  nonempty : members.Nonempty
  runnable : ∀ p ∈ members, ∃ proc, state.procs p = some proc ∧ proc.state = .runnable
  idle : state.idleproc ∉ members
  current : state.current ∈ members ∨
    state.current = state.idleproc ∧ ∃ proc, state.procs state.current = some proc
  pool : ∃ tree, PoolShape state tree ∧ ∀ p, p ∈ treeNodes tree ↔ p ∈ members ∧ p ≠ state.current
  equal : ∀ p ∈ members, ∀ q ∈ members, strideOf state.procs p = strideOf state.procs q

inductive Decided (start : SchedState) : Nat → SchedState → Prop where
  | none : Decided start 0 start
  | next {decisions : Nat} {state after : SchedState}
      (before : Decided start decisions state)
      (ran : schedule state = .ok (PUnit.unit, after)) :
      Decided start (decisions + 1) after

variable {start state next : SchedState} {members : Finset Nat} {base : BitVec 32}
  {p decisions : Nat} {tree : BinaryTree Nat} {proc proc' : Proc}

theorem stridePass_toNat {procs : Nat → Option Proc} {priority : BitVec 32}
    (same : priority = priorityOf procs p) : (stridePass priority).toNat = passOf procs p := by
  unfold stridePass passOf
  rw [← same]
  by_cases zero : priority = 0
  · rw [if_pos zero, zero]
    simp
  have positive : 1 ≤ priority.toNat := by
    by_contra small
    exact zero (BitVec.eq_of_toNat_eq (by simpa using small))
  rw [if_neg zero, BitVec.toNat_udiv, Nat.max_eq_left positive]

theorem passOf_le (procs : Nat → Option Proc) (p : Nat) : passOf procs p ≤ BIG_STRIDE.toNat :=
  Nat.div_le_self _ _

/-- What the decisions since `start` keep, with one process outside the pool: the
members stay runnable with their priorities, their strides are the common first
stride plus their totals, the totals are near each other, and the members in the
pool are a heap of totals. -/
structure ShareKept (start : SchedState) (base : BitVec 32) (members : Finset Nat)
    (out : Nat) (state : SchedState) (tree : BinaryTree Nat) : Prop where
  runnable : ∀ p ∈ members, ∃ proc, state.procs p = some proc ∧ proc.state = .runnable ∧
    proc.lab6Priority = priorityOf start.procs p ∧ runsOf start.procs p ≤ proc.runs
  idle : state.idleproc ∉ members
  shape : PoolShape state tree
  placed : ∀ p, p ∈ treeNodes tree ↔ p ∈ members ∧ p ≠ out
  wraps : ∀ p ∈ members, strideOf state.procs p = base + BitVec.ofNat 32 (total start state p)
  near : ∀ p ∈ members, ∀ q ∈ members, Near (total start state p) (total start state q)
  order : PoolOrder base state.procs (total start state) tree

/-- The process that runs is a member or the idle process. -/
def RunsMember (members : Finset Nat) (state : SchedState) : Prop :=
  state.current ∈ members ∨
    state.current = state.idleproc ∧ ∃ proc, state.procs state.current = some proc

theorem total_start (start : SchedState) (p : Nat) : total start start p = 0 := by
  simp [total]

theorem ClosedSystem.kept (closed : ClosedSystem start members) :
    ∃ base tree, ShareKept start base members start.current start tree := by
  obtain ⟨first, isMember⟩ := closed.nonempty
  obtain ⟨tree, shape, placed⟩ := closed.pool
  have wraps : ∀ p ∈ members, strideOf start.procs p =
      strideOf start.procs first + BitVec.ofNat 32 (total start start p) := by
    intro p member
    rw [total_start, closed.equal p member first isMember]
    simp
  refine ⟨strideOf start.procs first, tree, ?_, closed.idle, shape, placed, wraps, ?_, ?_, ?_, ?_⟩
  · intro p member
    obtain ⟨proc, found, runnable⟩ := closed.runnable p member
    refine ⟨proc, found, runnable, ?_, ?_⟩
    · simp [priorityOf, found]
    · simp [runsOf, found]
  · intro p _ q _
    rw [total_start, total_start]
    exact Near.refl 0
  · intro p member
    exact wraps p ((placed p).mp member).1
  · intro p _ q _
    rw [total_start, total_start]
    exact Near.refl 0
  simp only [total_start, Nat.le_refl]
  clear placed shape
  induction tree with
  | nil => trivial
  | node root left right leftOrdered rightOrdered =>
    exact ⟨fun _ _ => trivial, leftOrdered, rightOrdered⟩

/-- Two records of a process agree in all that the shares depend on. -/
structure SameShare (proc proc' : Proc) : Prop where
  state : proc'.state = proc.state
  priority : proc'.lab6Priority = proc.lab6Priority
  runs : proc'.runs = proc.runs
  stride : proc'.lab6Stride = proc.lab6Stride

/-- The members keep all that the shares depend on. -/
def SameShares (members : Finset Nat) (state next : SchedState) : Prop :=
  ∀ p ∈ members, ∀ proc, state.procs p = some proc →
    ∃ proc', next.procs p = some proc' ∧ SameShare proc proc'

theorem sameShares_update (found : state.procs p = some proc) (share : SameShare proc proc')
    (procs : next.procs = update state.procs p (some proc')) : SameShares members state next := by
  intro q _ other otherFound
  rw [procs]
  by_cases isP : q = p
  · subst isP
    obtain rfl := Option.some.inj (found.symm.trans otherFound)
    exact ⟨proc', update_self _ _ _, share⟩
  · exact ⟨other, (update_of_ne isP _ _).trans otherFound, ⟨rfl, rfl, rfl, rfl⟩⟩

theorem ShareKept.same_runs {out : Nat} (kept : ShareKept start base members out state tree)
    (same : SameShares members state next) :
    ∀ p ∈ members, runsOf next.procs p = runsOf state.procs p := by
  intro p member
  obtain ⟨proc, found, -⟩ := kept.runnable p member
  obtain ⟨proc', found', share⟩ := same p member proc found
  simp [runsOf, found, found', share.runs]

theorem ShareKept.congr {out out' : Nat}
    {tree tree' : BinaryTree Nat} (kept : ShareKept start base members out state tree)
    (same : SameShares members state next) (idle : next.idleproc = state.idleproc)
    (shape : PoolShape next tree') (placed : ∀ p, p ∈ treeNodes tree' ↔ p ∈ members ∧ p ≠ out')
    (order : PoolOrder base next.procs (total start state) tree') :
    ShareKept start base members out' next tree' := by
  have totals : ∀ p ∈ members, total start next p = total start state p := by
    intro p member
    rw [total, total, kept.same_runs same p member]
  refine ⟨?_, ?_, shape, placed, ?_, ?_, ?_⟩
  · intro p member
    obtain ⟨proc, found, runnable, priority, runs⟩ := kept.runnable p member
    obtain ⟨proc', found', share⟩ := same p member proc found
    exact ⟨proc', found', share.state.trans runnable, share.priority.trans priority,
      runs.trans_eq share.runs.symm⟩
  · rw [idle]
    exact kept.idle
  · intro p member
    obtain ⟨proc, found, -⟩ := kept.runnable p member
    obtain ⟨proc', found', share⟩ := same p member proc found
    rw [totals p member, ← kept.wraps p member]
    simp [strideOf, found, found', share.stride]
  · intro p member q memberQ
    rw [totals p member, totals q memberQ]
    exact kept.near p member q memberQ
  · exact order.congr (fun _ _ => rfl) fun p member =>
      totals p ((placed p).mp member).1

theorem ShareKept.clearResched {out : Nat} {proc : Proc}
    (kept : ShareKept start base members out state tree) (found : state.procs p = some proc) :
    ShareKept start base members out (state.setProc p proc.clearResched) tree := by
  have share : SameShare proc proc.clearResched := ⟨rfl, rfl, rfl, rfl⟩
  have shares : SameShares members state (state.setProc p proc.clearResched) :=
    sameShares_update found share rfl
  refine kept.congr shares rfl ⟨kept.shape.pool, kept.shape.count, ?_⟩ kept.placed ?_
  · intro q member
    obtain ⟨isMember, -⟩ := (kept.placed q).mp member
    obtain ⟨other, otherFound⟩ := kept.shape.live q member
    obtain ⟨other', otherFound', -⟩ := shares q isMember other otherFound
    exact ⟨other', otherFound'⟩
  · refine kept.order.congr (fun q _ => ?_) fun _ _ => rfl
    exact congrFun (strideOf_update_same found share.stride) q

theorem share_enqueueCurrent (kept : ShareKept start base members state.current state tree)
    (runs : RunsMember members state) :
    Ends enqueueCurrent
      (fun _ next => (∃ tree', ShareKept start base members next.idleproc next tree') ∧
        SameShares members state next ∧ next.idleproc = state.idleproc)
      (fun _ => False) state := by
  have unchanged : SameShares members state state := fun p _ proc found =>
    ⟨proc, found, rfl, rfl, rfl, rfl⟩
  rcases runs with isMember | ⟨isIdle, proc, found⟩
  · obtain ⟨proc, found, runnable, -⟩ := kept.runnable state.current isMember
    have notIdle : state.current ≠ state.idleproc := fun same =>
      kept.idle (same ▸ isMember)
    have outside : state.current ∉ treeNodes tree := fun member =>
      ((kept.placed state.current).mp member).2 rfl
    simp only [enqueueCurrent, schedClassEnqueue, ends_bind, ends_get,
      ends_derefProc found, ends_ite]
    refine ⟨fun _ => ⟨fun _ => ?_, fun idle => absurd notIdle idle⟩,
      fun asleep => absurd runnable asleep⟩
    refine (strideEnqueue_ends kept.shape found outside).weaken ?_
    rintro _ next ⟨tree', entered⟩
    have shares : SameShares members state next := by
      refine sameShares_update found ⟨?_, ?_, ?_, ?_⟩ entered.procs
      · unfold refillSlice
        split <;> rfl
      · unfold refillSlice
        split <;> rfl
      · unfold refillSlice
        split <;> rfl
      · exact refillSlice_lab6Stride _ _
    have order := entered.order base _ kept.order (kept.wraps _ isMember) fun q member =>
      kept.near _ isMember q ((kept.placed q).mp member).1
    refine ⟨⟨tree', kept.congr shares entered.rest.idleproc entered.shape ?_ order⟩,
      shares, entered.rest.idleproc⟩
    intro p
    rw [entered.nodes.mem_iff, mem_cons, kept.placed p, entered.rest.idleproc]
    by_cases isCurrent : p = state.current
    · subst isCurrent
      simp [isMember, notIdle]
    have apart : p ∈ members → p ≠ state.idleproc := fun member same =>
      kept.idle (same ▸ member)
    simp only [isCurrent, ne_eq, not_false_eq_true, and_true, false_or]
    exact ⟨fun member => ⟨member, apart member⟩, And.left⟩
  simp only [enqueueCurrent, schedClassEnqueue, ends_bind, ends_get,
    ends_derefProc found, ends_ite, ends_pure]
  rw [isIdle] at kept
  refine ⟨fun _ => ⟨fun notIdle => absurd isIdle notIdle, fun _ => ?_⟩, fun _ => ?_⟩
  · exact ⟨⟨tree, kept⟩, unchanged, trivial⟩
  · exact ⟨⟨tree, kept⟩, unchanged, trivial⟩

/-- The runs of all members together. -/
def runsTotal (members : Finset Nat) (state : SchedState) : Nat :=
  ∑ p ∈ members, runsOf state.procs p

theorem share_takeNext {idle : Nat} (kept : ShareKept start base members state.idleproc state tree)
    (nonempty : members.Nonempty) :
    Ends (do let picked ← strideTakeNext; runNext (picked.getD idle))
      (fun _ next => ((∃ tree', ShareKept start base members next.current next tree') ∧
          runsTotal members next = runsTotal members state + 1) ∧ next.current ∈ members ∧
        ∀ q ∈ members, total start state next.current ≤ total start state q)
      (fun _ => False) state := by
  have inPool : ∀ p, p ∈ treeNodes tree ↔ p ∈ members := by
    intro p
    rw [kept.placed p]
    refine ⟨And.left, fun member => ⟨member, ?_⟩⟩
    rintro rfl
    exact kept.idle member
  rw [ends_bind]
  refine (strideTakeNext_ends kept.shape).weaken ?_
  rintro picked taken (⟨-, rfl, -⟩ | ⟨p, proc, tree', rfl, found, left⟩)
  · obtain ⟨first, isMember⟩ := nonempty
    exact absurd ((inPool first).mpr isMember) (by simp)
  obtain ⟨order, smallest⟩ := left.order base _ kept.order
  have isMember : p ∈ members := (inPool p).mp (left.nodes.mem_iff.mpr (by simp))
  have chargedFound : taken.procs p = some (chargePass proc) := by
    rw [left.procs]
    exact update_self _ _ _
  set after : SchedState := { taken.setProc p (chargePass proc).countRun with current := p }
  have afterP : after.procs p = some (chargePass proc).countRun := taken.setProc_self p _
  have afterOther : ∀ q, q ≠ p → after.procs q = state.procs q := by
    intro q other
    refine (taken.setProc_other _ other).trans ?_
    rw [left.procs]
    exact update_of_ne other _ _
  obtain ⟨before, beforeFound, runnable, priority, counted⟩ := kept.runnable p isMember
  obtain rfl := Option.some.inj (found.symm.trans beforeFound)
  have runsBefore : runsOf state.procs p = proc.runs := by
    rw [runsOf, found]
    rfl
  have runsAfter : runsOf after.procs p = proc.runs + 1 := by
    rw [runsOf, afterP]
    rfl
  have runsOther : ∀ q, q ≠ p → runsOf after.procs q = runsOf state.procs q := by
    intro q other
    rw [runsOf, runsOf, afterOther q other]
  have counts : runsTotal members after = runsTotal members state + 1 := by
    have changed := sum_change isMember fun q _ => runsOther q
    unfold runsTotal
    omega
  have totalP : total start after p = total start state p + passOf start.procs p := by
    rw [total, total, runsAfter, runsBefore, Nat.sub_add_comm counted, Nat.succ_mul]
  have totalOther : ∀ q, q ≠ p → total start after q = total start state q := by
    intro q other
    rw [total, total, runsOther q other]
  have strideP : strideOf after.procs p =
      strideOf state.procs p + stridePass proc.lab6Priority := by
    simp only [strideOf, afterP, found, Option.map_some, Option.getD_some]
    rfl
  have strideOther : ∀ q, q ≠ p → strideOf after.procs q = strideOf state.procs q := by
    intro q other
    simp only [strideOf, afterOther q other]
  have apart : ∀ q ∈ treeNodes tree', q ≠ p := by
    rintro q inRest rfl
    have nodup := left.nodes.nodup_iff.mp kept.shape.pool.nodup
    exact (nodup_cons.mp nodup).1 inRest
  have near : ∀ q ∈ members,
      Near (total start state p + passOf start.procs p) (total start state q) := by
    intro q memberQ
    have below := smallest q ((inPool q).mpr memberQ)
    have window := kept.near p isMember q memberQ
    have pass := passOf_le start.procs p
    exact ⟨by omega, by have := window.2; omega⟩
  have done : ShareKept start base members p after tree' := by
    refine ⟨?_, ?_, ⟨?_, ?_, ?_⟩, ?_, ?_, ?_, ?_⟩
    · intro q memberQ
      by_cases isP : q = p
      · subst isP
        exact ⟨_, afterP, runnable, priority, Nat.le_succ_of_le counted⟩
      · rw [afterOther q isP]
        exact kept.runnable q memberQ
    · exact left.rest.idleproc ▸ kept.idle
    · exact left.shape.pool
    · exact left.shape.count
    · intro q member
      rw [afterOther q (apart q member)]
      exact kept.shape.live q (left.nodes.mem_iff.mpr (by simp [member]))
    · intro q
      rw [← inPool q, left.nodes.mem_iff, mem_cons]
      constructor
      · intro member
        exact ⟨.inr member, apart q member⟩
      rintro ⟨isP | member, notP⟩
      · exact absurd isP notP
      · exact member
    · intro q memberQ
      by_cases isP : q = p
      · subst isP
        rw [strideP, totalP, kept.wraps q memberQ, BitVec.ofNat_add,
          ← stridePass_toNat priority, BitVec.ofNat_toNat, BitVec.setWidth_eq, add_assoc]
      · rw [strideOther q isP, totalOther q isP]
        exact kept.wraps q memberQ
    · intro q memberQ r memberR
      by_cases isP : q = p
      · by_cases isPR : r = p
        · rw [isP, isPR]
          exact Near.refl _
        · rw [isP, totalP, totalOther r isPR]
          exact near r memberR
      by_cases isPR : r = p
      · rw [isPR, totalP, totalOther q isP]
        exact (near q memberQ).symm
      · rw [totalOther q isP, totalOther r isPR]
        exact kept.near q memberQ r memberR
    refine order.congr (fun q member => ?_) fun q member => ?_
    · rw [strideOther q (apart q member), left.procs, strideOf,
        strideOf, update_of_ne (apart q member)]
    · exact totalOther q (apart q member)
  rw [runNext, ends_bind, Option.getD_some, ends_updateProc chargedFound, procRun, ends_modify]
  exact ⟨⟨⟨tree', done⟩, counts⟩, isMember, fun q memberQ => smallest q ((inPool q).mpr memberQ)⟩

theorem share_schedule (kept : ShareKept start base members state.current state tree)
    (runs : RunsMember members state) (nonempty : members.Nonempty) :
    Ends schedule (fun _ next => ((∃ tree', ShareKept start base members next.current next tree') ∧
          runsTotal members next = runsTotal members state + 1) ∧ next.current ∈ members ∧
        ∀ q ∈ members, total start state next.current ≤ total start state q)
      (fun _ => False) state := by
  obtain ⟨proc, found⟩ : ∃ proc, state.procs state.current = some proc := by
    rcases runs with isMember | ⟨-, live⟩
    · obtain ⟨proc, found, -⟩ := kept.runnable state.current isMember
      exact ⟨proc, found⟩
    · exact live
  set cleared := state.setProc state.current proc.clearResched with isCleared
  have clearedKept : ShareKept start base members cleared.current cleared tree :=
    kept.clearResched found
  have clearedRuns : RunsMember members cleared := by
    refine runs.imp id fun isIdle => ⟨isIdle.1, ?_⟩
    exact ⟨_, state.setProc_self state.current _⟩
  have share : SameShare proc proc.clearResched := ⟨rfl, rfl, rfl, rfl⟩
  have clearedShares : SameShares members state cleared :=
    sameShares_update found share rfl
  rw [schedule, ends_bind, ends_get, ends_bind, ends_updateProc found, ← isCleared, ends_bind]
  refine (share_enqueueCurrent clearedKept clearedRuns).weaken ?_
  rintro _ full ⟨⟨pooled, fullKept⟩, fullShares, -⟩
  refine (share_takeNext fullKept nonempty).weaken ?_
  rintro _ next ⟨⟨nextKept, counted⟩, isMember, smallest⟩
  have same : ∀ p ∈ members, runsOf full.procs p = runsOf state.procs p := fun p member =>
    (clearedKept.same_runs fullShares p member).trans (kept.same_runs clearedShares p member)
  refine ⟨⟨nextKept, counted.trans (by rw [runsTotal, Finset.sum_congr rfl same, runsTotal])⟩,
    isMember, fun q memberQ => ?_⟩
  rw [total, total, ← same _ isMember, ← same q memberQ]
  exact smallest q memberQ

theorem Decided.kept (closed : ClosedSystem start members)
    (decided : Decided start decisions state) : RunsMember members state ∧
      ∃ base tree, ShareKept start base members state.current state tree := by
  induction decided with
  | none => exact ⟨closed.current, closed.kept⟩
  | next before ran ih =>
    obtain ⟨runs, base, tree, kept⟩ := ih
    have step := share_schedule kept runs closed.nonempty
    rw [Ends, ran] at step
    obtain ⟨⟨⟨tree', kept'⟩, -⟩, isMember, -⟩ := step
    exact ⟨.inl isMember, base, tree', kept'⟩

theorem Decided.goes_on (closed : ClosedSystem start members)
    (decided : Decided start decisions state) (more : Nat) :
    ∃ next, Decided start (decisions + more) next ∧
      runsTotal members next = runsTotal members state + more := by
  induction more with
  | zero => exact ⟨state, decided, rfl⟩
  | succ more ih =>
    obtain ⟨middle, before, counted⟩ := ih
    obtain ⟨runs, base, tree, kept⟩ := before.kept closed
    obtain ⟨_, next, ran, ⟨-, one⟩, -⟩ := (share_schedule kept runs closed.nonempty).returns
    exact ⟨next, before.next ran, one.trans (congrArg (· + 1) counted)⟩

/-- After any number of decisions the totals of the members differ by at most
`BIG_STRIDE`, and the next decision is made and picks a member with the smallest
total. -/
theorem stride_proportional_share (closed : ClosedSystem start members) {state : SchedState}
    (decided : Decided start decisions state) :
    (∀ i ∈ members, ∀ j ∈ members,
      |(total start state i : Int) - total start state j| ≤ BIG_STRIDE.toNat) ∧
    ∃ next, schedule state = .ok (PUnit.unit, next) ∧ next.current ∈ members ∧
      ∀ j ∈ members, total start state next.current ≤ total start state j := by
  obtain ⟨runs, base, tree, kept⟩ := decided.kept closed
  refine ⟨?_, ?_⟩
  · intro i memberI j memberJ
    obtain ⟨above, below⟩ := kept.near i memberI j memberJ
    rw [abs_le]
    omega
  · obtain ⟨_, next, ran, -, isMember, smallest⟩ :=
      (share_schedule kept runs closed.nonempty).returns
    exact ⟨next, ran, isMember, smallest⟩

/-- Two runnable processes with priorities 1 and 3, while the idle process runs. -/
def pairStart : SchedState where
  procs
    | 0 => some bootProc
    | 1 => some { allocProc with state := .runnable, lab6Priority := 1 }
    | 2 => some { allocProc with state := .runnable, lab6Priority := 3 }
    | _ => none
  links :=
    { parent := fun p => if p = 2 then some 1 else none
      left := fun p => if p = 1 then some 2 else none
      right := fun _ => none }
  rq := { procNum := 2, maxTimeSlice := 5, lab6RunPool := some 1 }
  timerList := []
  procList := [2, 1]
  current := 0
  idleproc := 0
  initproc := 1
  log := []

theorem pairStart_closed : ClosedSystem pairStart {1, 2} where
  nonempty := ⟨1, by simp⟩
  runnable := by
    intro p member
    rcases Finset.mem_insert.mp member with rfl | isTwo
    · exact ⟨_, rfl, rfl⟩
    · obtain rfl := Finset.mem_singleton.mp isTwo
      exact ⟨_, rfl, rfl⟩
  idle := by decide
  current := .inr ⟨rfl, _, rfl⟩
  pool := by
    refine ⟨.node 1 (.node 2 .nil .nil) .nil, ⟨⟨?_, by decide, ?_⟩, rfl, ?_⟩, ?_⟩
    · simp [TreeLinks.Hangs, TreeLinks.Backed, pairStart]
    · intro p isRoot
      obtain rfl := Option.some.inj isRoot
      rfl
    · intro p member
      simp only [treeNodes_node, treeNodes_nil, append_nil, mem_cons,
        not_mem_nil, or_false] at member
      rcases member with rfl | rfl
      · exact ⟨_, rfl⟩
      · exact ⟨_, rfl⟩
    intro p
    simp only [treeNodes_node, treeNodes_nil, append_nil, mem_cons,
      not_mem_nil, or_false, Finset.mem_insert, Finset.mem_singleton, pairStart]
    omega
  equal := by
    intro p member q memberQ
    simp only [Finset.mem_insert, Finset.mem_singleton] at member memberQ
    rcases member with rfl | rfl
    · rcases memberQ with rfl | rfl
      · rfl
      · rfl
    rcases memberQ with rfl | rfl
    · rfl
    · rfl

/-- After three decisions the first process has run once and the second twice. -/
theorem stride_proportional_share_pair :
    ∃ state, Decided pairStart 3 state ∧ total pairStart state 1 = 0x7FFFFFFF ∧
      total pairStart state 2 = 2 * 0x2AAAAAAA ∧
      |(total pairStart state 1 : Int) - total pairStart state 2| ≤ BIG_STRIDE.toNat := by
  have start : Decided pairStart 0 pairStart := .none
  have first := start.next rfl
  have second := first.next rfl
  have third := second.next rfl
  refine ⟨_, third, rfl, rfl, ?_⟩
  exact (stride_proportional_share pairStart_closed third).1 1 (by decide) 2 (by decide)

/-- Nobody starves: the next `wait` decisions are made and every member runs in them, if they
are more than all members can make within two windows of strides. -/
theorem stride_no_starvation {wait : Nat} (closed : ClosedSystem start members)
    (before : Decided start decisions state)
    (positive : ∀ p ∈ members, 0 < passOf start.procs p)
    (long : ∑ p ∈ members, 2 * BIG_STRIDE.toNat / passOf start.procs p < wait) :
    ∃ next, Decided start (decisions + wait) next ∧
      ∀ p ∈ members, runsOf state.procs p < runsOf next.procs p := by
  obtain ⟨next, after, ran⟩ := before.goes_on closed wait
  refine ⟨next, after, fun p member => ?_⟩
  by_contra stalled
  obtain ⟨-, _, _, kept⟩ := before.kept closed
  obtain ⟨-, _, _, kept'⟩ := after.kept closed
  have stays : total start next p ≤ total start state p :=
    Nat.mul_le_mul_right _ (Nat.sub_le_sub_right (not_lt.mp stalled) _)
  have share : ∀ q ∈ members, runsOf next.procs q ≤
      runsOf state.procs q + 2 * BIG_STRIDE.toNat / passOf start.procs q := by
    intro q memberQ
    have above := (kept'.near q memberQ p member).1
    have below := (kept.near q memberQ p member).2
    have bounded : total start next q ≤ total start state q + 2 * BIG_STRIDE.toNat := by omega
    rw [total, total, ← Nat.sub_le_iff_le_add', ← Nat.sub_mul,
      ← Nat.le_div_iff_mul_le (positive q memberQ)] at bounded
    obtain ⟨proc, found, -, -, started⟩ := kept.runnable q memberQ
    have runs : runsOf state.procs q = proc.runs := by simp [runsOf, found]
    omega
  have counted := Finset.sum_le_sum share
  rw [Finset.sum_add_distrib, ← runsTotal, ← runsTotal, ran] at counted
  omega

theorem stride_no_starvation_pair : ∃ next, Decided pairStart (0 + 9) next ∧
    ∀ p ∈ ({1, 2} : Finset Nat), runsOf pairStart.procs p < runsOf next.procs p :=
  stride_no_starvation pairStart_closed .none (by decide) (by decide)

end UcoreSmp
