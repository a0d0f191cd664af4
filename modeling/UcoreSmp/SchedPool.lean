import UcoreSmp.Sched
import UcoreSmp.StridePool

/-!
# What the scheduler keeps

The history of calls determines which processes should be in the pool and with
which sums they entered.  `PoolLogged` ties the pool to the history, and
`Placed` ties it to the states of the processes: the pool holds exactly the
runnable processes that are neither current nor idle.  The second holds between
critical sections only; inside `schedule` the current process is on its way.
-/

namespace UcoreSmp

open Function List

/-- The processes in the pool after a history, with the sums they entered
with. -/
def inside : List PoolEvent → List (Nat × Nat)
  | [] => []
  | .enqueue p charged :: before => (p, charged) :: inside before
  | .pick _ _ :: before => inside before
  | .dequeue p :: before => (inside before).filter fun entry => entry.1 ≠ p

/-- No process is put into the pool while it is there or taken out while it is
not. -/
def NeverTwice : List PoolEvent → Prop
  | [] => True
  | .enqueue p _ :: before => p ∉ (inside before).map Prod.fst ∧ NeverTwice before
  | .pick _ _ :: before => NeverTwice before
  | .dequeue p :: before => p ∈ (inside before).map Prod.fst ∧ NeverTwice before

/-- Every process entered the pool with a sum near those already there. -/
def EntersNear : List PoolEvent → Prop
  | [] => True
  | .enqueue _ charged :: before =>
    (∀ entry ∈ inside before, Near charged entry.2) ∧ EntersNear before
  | .pick _ _ :: before => EntersNear before
  | .dequeue _ :: before => EntersNear before

/-- Every process picked was in the pool and had the smallest sum there. -/
def PicksMinimal : List PoolEvent → Prop
  | [] => True
  | .enqueue _ _ :: before => PicksMinimal before
  | .pick p charged :: before =>
    ((p, charged) ∈ inside before ∧ ∀ entry ∈ inside before, charged ≤ entry.2) ∧
      PicksMinimal before
  | .dequeue _ :: before => PicksMinimal before

/-- The pool is the one of the history, and a heap of sums if all processes
entered near the others. -/
structure PoolLogged (state : SchedState) (tree : BinaryTree Nat) : Prop where
  shape : PoolShape state tree
  wraps : ∀ p proc, state.procs p = some proc → proc.lab6Stride = BitVec.ofNat 32 proc.charged
  once : NeverTwice state.log
  logged : (inside state.log).Perm ((treeNodes tree).map fun p => (p, chargedOf state.procs p))
  ordered : EntersNear state.log →
    PoolOrder 0 state.procs (chargedOf state.procs) tree ∧ PicksMinimal state.log

/-- A process that should be in the pool. -/
def SchedState.Waits (state : SchedState) (p : Nat) : Prop :=
  (∃ proc, state.procs p = some proc ∧ proc.state = .runnable) ∧
    p ≠ state.current ∧ p ≠ state.idleproc

/-- The pool holds exactly the processes that should be there. -/
def Placed (state : SchedState) (tree : BinaryTree Nat) : Prop :=
  ∀ p, p ∈ treeNodes tree ↔ state.Waits p

/-- The state between critical sections. -/
structure SchedKept (state : SchedState) (tree : BinaryTree Nat) : Prop where
  logged : PoolLogged state tree
  placed : Placed state tree

variable {p : Nat} {tree tree' : BinaryTree Nat} {proc proc' : Proc} {state next : SchedState}

section

variable (kept : PoolLogged state tree)

include kept

theorem PoolLogged.mem_inside (p : Nat) :
    p ∈ (inside state.log).map Prod.fst ↔ p ∈ treeNodes tree := by
  rw [(kept.logged.map Prod.fst).mem_iff, map_map]
  simp

theorem PoolLogged.inside_sum {entry : Nat × Nat} (member : entry ∈ inside state.log) :
    entry.1 ∈ treeNodes tree ∧ entry.2 = chargedOf state.procs entry.1 := by
  rw [kept.logged.mem_iff, mem_map] at member
  obtain ⟨p, inTree, rfl⟩ := member
  exact ⟨inTree, rfl⟩

theorem PoolLogged.sum_inside (member : p ∈ treeNodes tree) :
    (p, chargedOf state.procs p) ∈ inside state.log := by
  rw [kept.logged.mem_iff, mem_map]
  exact ⟨p, member, rfl⟩

variable (found : state.procs p = some proc)

include found

theorem PoolLogged.entered (fresh : p ∉ treeNodes tree)
    (entered : Entered state p proc tree next tree') : PoolLogged next tree' := by
  have sums : chargedOf next.procs = chargedOf state.procs := by
    rw [entered.procs]
    exact chargedOf_update_same found (refillSlice_charged _ _)
  have atP : chargedOf state.procs p = proc.charged := by
    simp [chargedOf, found]
  refine ⟨entered.shape, ?_, ?_, ?_, ?_⟩
  · intro q other otherFound
    rw [entered.procs] at otherFound
    by_cases isP : q = p
    · subst isP
      rw [update_self, Option.some.injEq] at otherFound
      rw [← otherFound, refillSlice_lab6Stride, refillSlice_charged]
      exact kept.wraps q proc found
    · rw [update_of_ne isP] at otherFound
      exact kept.wraps q other otherFound
  · rw [entered.log]
    exact ⟨(kept.mem_inside p).not.mpr fresh, kept.once⟩
  · rw [entered.log, sums]
    refine List.Perm.trans ?_ ((entered.nodes.map _).symm)
    rw [map_cons, atP]
    exact kept.logged.cons _
  rw [entered.log]
  rintro ⟨near, before⟩
  obtain ⟨order, minimal⟩ := kept.ordered before
  rw [sums]
  refine ⟨entered.order 0 _ order ?_ ?_, minimal⟩
  · rw [atP, zero_add, strideOf, found]
    exact kept.wraps p proc found
  intro q member
  rw [atP]
  exact near _ (kept.sum_inside member)

theorem PoolLogged.left (left : Left state p proc tree next tree') : PoolLogged next tree' := by
  have member : p ∈ treeNodes tree := left.nodes.mem_iff.mpr (by simp)
  have apart : ∀ q ∈ treeNodes tree', q ≠ p := by
    rintro q inRest rfl
    have nodup := left.nodes.nodup_iff.mp kept.shape.pool.nodup
    exact (nodup_cons.mp nodup).1 inRest
  have sums : ∀ q ∈ treeNodes tree', chargedOf next.procs q = chargedOf state.procs q := by
    intro q inRest
    simp [chargedOf, left.procs, update_of_ne (apart q inRest)]
  have atP : chargedOf state.procs p = proc.charged := by
    simp [chargedOf, found]
  refine ⟨left.shape, ?_, ?_, ?_, ?_⟩
  · intro q other otherFound
    rw [left.procs] at otherFound
    by_cases isP : q = p
    · subst isP
      rw [update_self, Option.some.injEq] at otherFound
      subst otherFound
      change proc.lab6Stride + _ = BitVec.ofNat 32 (proc.charged + _)
      rw [BitVec.ofNat_add, BitVec.ofNat_toNat, BitVec.setWidth_eq, kept.wraps q proc found]
    · rw [update_of_ne isP] at otherFound
      exact kept.wraps q other otherFound
  · rw [left.log]
    exact ⟨(kept.mem_inside p).mpr member, kept.once⟩
  · rw [left.log]
    have logged := (kept.logged.trans (left.nodes.map _)).filter fun entry => entry.1 ≠ p
    refine logged.trans ?_
    rw [map_cons, filter_cons_of_neg (by simp), filter_eq_self.mpr]
    · rw [map_congr_left fun q inRest => by rw [← sums q inRest]]
    intro entry inRest
    obtain ⟨q, inTree, rfl⟩ := mem_map.mp inRest
    simpa using apart q inTree
  rw [left.log]
  intro near
  obtain ⟨order, minimal⟩ := kept.ordered near
  obtain ⟨nextOrder, smallest⟩ := left.order 0 _ order
  refine ⟨nextOrder.congr (fun _ _ => rfl) sums, ⟨?_, ?_⟩, minimal⟩
  · rw [← atP]
    exact kept.sum_inside member
  intro entry inPool
  obtain ⟨inTree, isSum⟩ := kept.inside_sum inPool
  rw [isSum, ← atP]
  exact smallest entry.1 inTree

theorem PoolLogged.setProc (stride : proc'.lab6Stride = proc.lab6Stride)
    (charged : proc'.charged = proc.charged) : PoolLogged (state.setProc p proc') tree := by
  have strides := strideOf_update_same found stride
  have sums := chargedOf_update_same found charged
  refine ⟨⟨kept.shape.pool, kept.shape.count, ?_⟩, ?_, kept.once, ?_, ?_⟩
  · intro q member
    by_cases isP : q = p
    · subst isP
      exact ⟨proc', state.setProc_self q proc'⟩
    · obtain ⟨other, otherFound⟩ := kept.shape.live q member
      exact ⟨other, (state.setProc_other proc' isP).trans otherFound⟩
  · intro q other otherFound
    by_cases isP : q = p
    · subst isP
      obtain rfl := Option.some.inj ((state.setProc_self q proc').symm.trans otherFound)
      rw [stride, charged]
      exact kept.wraps q proc found
    · exact kept.wraps q other ((state.setProc_other proc' isP).symm.trans otherFound)
  · change (inside state.log).Perm ((treeNodes tree).map fun q =>
      (q, chargedOf (update state.procs p (some proc')) q))
    rw [sums]
    exact kept.logged
  intro near
  obtain ⟨order, minimal⟩ := kept.ordered near
  refine ⟨order.congr ?_ ?_, minimal⟩
  · exact fun q _ => congrFun strides q
  · exact fun q _ => congrFun sums q

end

theorem SchedState.waits_setProc (found : state.procs p = some proc)
    (same : p ≠ state.current → p ≠ state.idleproc →
      (proc'.state = .runnable ↔ proc.state = .runnable)) (q : Nat) :
    (state.setProc p proc').Waits q ↔ state.Waits q := by
  unfold Waits
  by_cases isP : q = p
  · subst isP
    have here := state.setProc_self q proc'
    constructor
    · rintro ⟨⟨other, otherFound, runnable⟩, notCurrent, notIdle⟩
      obtain rfl := Option.some.inj (here.symm.trans otherFound)
      exact ⟨⟨proc, found, (same notCurrent notIdle).mp runnable⟩, notCurrent, notIdle⟩
    rintro ⟨⟨other, otherFound, runnable⟩, notCurrent, notIdle⟩
    obtain rfl := Option.some.inj (found.symm.trans otherFound)
    exact ⟨⟨proc', here, (same notCurrent notIdle).mpr runnable⟩, notCurrent, notIdle⟩
  · rw [state.setProc_other proc' isP]
    exact Iff.rfl

/-- Writing a process keeps the pool, unless it makes a process runnable or
stops one that is not the current one. -/
theorem SchedKept.setProc (kept : SchedKept state tree) (found : state.procs p = some proc)
    (stride : proc'.lab6Stride = proc.lab6Stride) (charged : proc'.charged = proc.charged)
    (same : p ≠ state.current → p ≠ state.idleproc →
      (proc'.state = .runnable ↔ proc.state = .runnable)) :
    SchedKept (state.setProc p proc') tree where
  logged := kept.logged.setProc found stride charged
  placed q := (kept.placed q).trans (SchedState.waits_setProc found same q).symm

def Kept (state : SchedState) : Prop :=
  ∃ tree, SchedKept state tree

/-- The same processes are current and idle. -/
structure Stays (state next : SchedState) : Prop where
  current : next.current = state.current
  idleproc : next.idleproc = state.idleproc

theorem Stays.refl (state : SchedState) : Stays state state :=
  ⟨rfl, rfl⟩

theorem Stays.trans {first second third : SchedState} (start : Stays first second)
    (rest : Stays second third) : Stays first third :=
  ⟨rest.current.trans start.current, rest.idleproc.trans start.idleproc⟩

/-- A part of a critical section that leaves the pool as it should be. -/
def Keeps {α : Type} (routine : SchedM α) : Prop :=
  ∀ state, Kept state →
    Ends routine (fun _ next => Kept next ∧ Stays state next) (fun _ => True) state

section Keeps

variable {α β : Type} {update : Proc → Proc}

theorem keeps_pure (value : α) : Keeps (pure value : SchedM α) :=
  fun state kept => ⟨kept, Stays.refl state⟩

theorem keeps_throw (fault : SchedFault) : Keeps (throw fault : SchedM α) :=
  fun _ _ => trivial

theorem keeps_check (condition : Prop) [Decidable condition] (fault : SchedFault) :
    Keeps (check condition fault) := by
  intro state kept
  rw [ends_check]
  exact ⟨fun _ => ⟨kept, Stays.refl state⟩, fun _ => trivial⟩

theorem Keeps.bind {first : SchedM β} {rest : β → SchedM α} (start : Keeps first)
    (then_ : ∀ value, Keeps (rest value)) : Keeps (first >>= rest) := by
  intro state kept
  rw [ends_bind]
  refine (start state kept).mono ?_ fun _ _ => trivial
  rintro value middle ⟨middleKept, stays⟩
  refine (then_ value middle middleKept).weaken ?_
  rintro _ next ⟨nextKept, nextStays⟩
  exact ⟨nextKept, stays.trans nextStays⟩

theorem keeps_get_bind {rest : SchedState → SchedM α} (then_ : ∀ state, Kept state →
      Ends (rest state) (fun _ next => Kept next ∧ Stays state next) (fun _ => True) state) :
    Keeps (get >>= rest) := by
  intro state kept
  exact then_ state kept

theorem Keeps.ite {condition : Prop} [Decidable condition] {yes no : SchedM α}
    (whenYes : condition → Keeps yes) (whenNo : ¬ condition → Keeps no) :
    Keeps (if condition then yes else no) := by
  by_cases holds : condition
  · rw [if_pos holds]
    exact whenYes holds
  · rw [if_neg holds]
    exact whenNo holds

theorem ends_derefProc_of {post : Proc → SchedState → Prop}
    (live : ∀ proc, state.procs p = some proc → post proc state) :
    Ends (derefProc p) post (fun _ => True) state := by
  cases found : state.procs p with
  | none => simp [derefProc, found]
  | some proc =>
    rw [ends_derefProc found]
    exact live proc found

theorem keeps_derefProc (p : Nat) : Keeps (derefProc p) :=
  fun state kept => ends_derefProc_of fun _ _ => ⟨kept, Stays.refl state⟩

theorem keeps_updateProc (minor : ∀ proc, (update proc).lab6Stride = proc.lab6Stride ∧
      (update proc).charged = proc.charged ∧ (update proc).state = proc.state) :
    Keeps (updateProc p update) := by
  rintro state ⟨tree, kept⟩
  rw [updateProc, ends_bind]
  apply ends_derefProc_of
  intro proc found
  obtain ⟨stride, charged, same⟩ := minor proc
  refine ⟨⟨tree, kept.setProc found stride charged ?_⟩, rfl, rfl⟩
  intro _ _
  rw [same]

theorem ends_updateCurrent (kept : Kept state)
    (stride : ∀ proc, (update proc).lab6Stride = proc.lab6Stride)
    (charged : ∀ proc, (update proc).charged = proc.charged) :
    Ends (updateProc state.current update)
      (fun _ next => Kept next ∧ Stays state next) (fun _ => True) state := by
  obtain ⟨tree, kept⟩ := kept
  rw [updateProc, ends_bind]
  apply ends_derefProc_of
  intro proc found
  refine ⟨⟨tree, kept.setProc found (stride proc) (charged proc) ?_⟩, rfl, rfl⟩
  intro notCurrent
  exact absurd rfl notCurrent

end Keeps

/-- A runnable process other than the idle one. -/
def SchedState.Ready (state : SchedState) (p : Nat) : Prop :=
  (∃ proc, state.procs p = some proc ∧ proc.state = .runnable) ∧ p ≠ state.idleproc

theorem SchedState.waits_iff (state : SchedState) (p : Nat) :
    state.Waits p ↔ state.Ready p ∧ p ≠ state.current := by
  unfold Waits Ready
  tauto

theorem Entered.mem_iff (entered : Entered state p proc tree next tree') (q : Nat) :
    q ∈ treeNodes tree' ↔ q = p ∨ q ∈ treeNodes tree := by
  rw [entered.nodes.mem_iff, mem_cons]

theorem refillSlice_state (rq : RunQueue) (proc : Proc) :
    (refillSlice rq proc).state = proc.state := by
  unfold refillSlice
  split <;> rfl

theorem Entered.ready_iff (entered : Entered state p proc tree next tree')
    (found : state.procs p = some proc) (q : Nat) : next.Ready q ↔ state.Ready q := by
  unfold SchedState.Ready
  rw [entered.procs, entered.rest.idleproc]
  by_cases isP : q = p
  · subst isP
    rw [update_self, found]
    simp [refillSlice_state]
  · rw [update_of_ne isP]

theorem keeps_wakeupProc (p : Nat) : Keeps (wakeupProc p) := by
  rintro state ⟨tree, kept⟩
  rw [wakeupProc, ends_bind]
  apply ends_derefProc_of
  intro proc found
  rw [ends_bind, ends_check]
  refine ⟨fun _ => ?_, fun _ => trivial⟩
  rw [ends_ite]
  refine ⟨fun asleep => ?_, fun _ => ⟨⟨tree, kept⟩, Stays.refl state⟩⟩
  set woken := state.setProc p proc.woken with isWoken
  have wokenFound : woken.procs p = some proc.woken := state.setProc_self p proc.woken
  have stays : Stays state woken := ⟨rfl, rfl⟩
  have logged : PoolLogged woken tree := kept.logged.setProc found rfl rfl
  have notInPool : p ∉ treeNodes tree := by
    intro member
    obtain ⟨⟨other, otherFound, runnable⟩, -⟩ := (kept.placed p).mp member
    obtain rfl := Option.some.inj (found.symm.trans otherFound)
    exact asleep runnable
  -- A process that stays outside the pool is the current or the idle one.
  have outside : p = state.current ∨ p = state.idleproc → Kept woken := by
    intro excused
    refine ⟨tree, kept.setProc found rfl rfl fun notCurrent notIdle => ?_⟩
    exact (excused.elim notCurrent notIdle).elim
  simp only [ends_bind, ends_updateProc found, ← isWoken, enqueueWoken,
    schedClassEnqueue, ends_get, ends_ite, ends_pure]
  refine ⟨fun notCurrent => ⟨fun notIdle => ?_, fun idle => ?_⟩, fun current => ?_⟩
  · refine (strideEnqueue_ends logged.shape wokenFound notInPool).mono ?_ fun _ _ => trivial
    rintro _ next ⟨tree', entered⟩
    refine ⟨⟨tree', logged.entered wokenFound notInPool entered, ?_⟩, ?_⟩
    · intro q
      rw [entered.mem_iff, SchedState.waits_iff, entered.ready_iff wokenFound,
        entered.rest.current, stays.current]
      by_cases isP : q = p
      · subst isP
        have ready : woken.Ready q := ⟨⟨proc.woken, wokenFound, rfl⟩, notIdle⟩
        rw [stays.current] at notCurrent
        simp [ready, notCurrent]
      have same : woken.Ready q ↔ state.Ready q := by
        unfold SchedState.Ready
        rw [isWoken, state.setProc_other proc.woken isP]
        exact Iff.rfl
      rw [same, ← state.waits_iff, ← kept.placed q]
      simp [isP]
    · exact ⟨entered.rest.current.trans stays.current, entered.rest.idleproc.trans stays.idleproc⟩
  · rw [not_not, stays.idleproc] at idle
    exact ⟨outside (.inr idle), stays⟩
  · rw [not_not, stays.current] at current
    exact ⟨outside (.inl current), stays⟩

/-- The pool inside `schedule`, once the current process is back in it. -/
structure AllPooled (state : SchedState) (tree : BinaryTree Nat) : Prop where
  logged : PoolLogged state tree
  placed : ∀ p, p ∈ treeNodes tree ↔ state.Ready p

theorem enqueueCurrent_ends (kept : SchedKept state tree) : Ends enqueueCurrent
      (fun _ next => (∃ tree', AllPooled next tree') ∧ Stays state next)
      (fun _ => True) state := by
  simp only [enqueueCurrent, ends_bind, ends_get]
  apply ends_derefProc_of
  intro proc found
  -- Unless the current process is ready, the pool already holds all that are.
  have complete : ¬ state.Ready state.current → AllPooled state tree := by
    intro notReady
    refine ⟨kept.logged, fun p => ?_⟩
    rw [kept.placed p, state.waits_iff]
    refine ⟨And.left, fun ready => ⟨ready, ?_⟩⟩
    rintro rfl
    exact notReady ready
  simp only [schedClassEnqueue, ends_ite, ends_bind, ends_get, ends_pure]
  refine ⟨fun runnable => ⟨fun notIdle => ?_, fun idle => ?_⟩, fun asleep => ?_⟩
  · have notInPool : state.current ∉ treeNodes tree := fun member =>
      ((kept.placed state.current).mp member).2.1 rfl
    refine (strideEnqueue_ends kept.logged.shape found notInPool).mono ?_ fun _ _ => trivial
    rintro _ next ⟨tree', entered⟩
    refine ⟨⟨tree', kept.logged.entered found notInPool entered, fun p => ?_⟩,
      entered.rest.current, entered.rest.idleproc⟩
    rw [entered.mem_iff, entered.ready_iff found, kept.placed p, state.waits_iff]
    by_cases isCurrent : p = state.current
    · subst isCurrent
      simp [SchedState.Ready, found, runnable, notIdle]
    · simp [isCurrent]
  · refine ⟨⟨tree, complete fun ready => ready.2 (not_not.mp idle)⟩, Stays.refl state⟩
  refine ⟨⟨tree, complete ?_⟩, Stays.refl state⟩
  rintro ⟨⟨other, otherFound, runnable⟩, -⟩
  obtain rfl := Option.some.inj (found.symm.trans otherFound)
  exact asleep runnable

theorem Left.ready_iff (left : Left state p proc tree next tree')
    (found : state.procs p = some proc) (q : Nat) : next.Ready q ↔ state.Ready q := by
  unfold SchedState.Ready
  rw [left.procs, left.rest.idleproc]
  by_cases isP : q = p
  · subst isP
    rw [update_self, found]
    simp [chargePass]
  · rw [update_of_ne isP]

theorem runNext_ends {next : Nat}
    (logged : PoolLogged state tree) (placed : ∀ p, p ∈ treeNodes tree ↔ state.Ready p ∧ p ≠ next) :
    Ends (runNext next)
      (fun _ after => SchedKept after tree ∧ after.current = next ∧ after.idleproc = state.idleproc)
      (fun _ => True) state := by
  rw [runNext, ends_bind, updateProc, ends_bind]
  apply ends_derefProc_of
  intro proc found
  have counted : PoolLogged (state.setProc next proc.countRun) tree :=
    logged.setProc found rfl rfl
  have ready : ∀ p, (state.setProc next proc.countRun).Ready p ↔ state.Ready p := by
    intro p
    unfold SchedState.Ready
    by_cases isNext : p = next
    · subst isNext
      rw [state.setProc_self p proc.countRun, found]
      simp only [Option.some.injEq, exists_eq_left']
      exact Iff.rfl
    · rw [state.setProc_other proc.countRun isNext]
      exact Iff.rfl
  refine ⟨⟨⟨⟨counted.shape.pool, counted.shape.count, counted.shape.live⟩,
    counted.wraps, counted.once, counted.logged, counted.ordered⟩, fun p => ?_⟩, rfl, rfl⟩
  rw [placed p, ← ready p, SchedState.waits_iff]
  exact Iff.rfl

/-- `schedule` keeps the pool, and runs the idle process only if the pool is
empty. -/
theorem schedule_ends (kept : Kept state) : Ends schedule
      (fun _ next => Kept next ∧ next.idleproc = state.idleproc ∧
        (next.current = next.idleproc → next.rq.lab6RunPool = none))
      (fun _ => True) state := by
  simp only [schedule, ends_bind, ends_get]
  have cleared : Ends (updateProc state.current Proc.clearResched)
      (fun _ next => Kept next ∧ Stays state next) (fun _ => True) state :=
    ends_updateCurrent kept (fun _ => rfl) (fun _ => rfl)
  refine cleared.mono ?_ fun _ _ => trivial
  rintro _ reset ⟨⟨tree, resetKept⟩, resetStays⟩
  refine (enqueueCurrent_ends resetKept).mono ?_ fun _ _ => trivial
  rintro _ full ⟨⟨pooled, allPooled⟩, fullStays⟩
  have idleSame : full.idleproc = state.idleproc :=
    fullStays.idleproc.trans resetStays.idleproc
  refine (strideTakeNext_ends allPooled.logged.shape).mono ?_ fun _ _ => trivial
  rintro picked taken (⟨rfl, rfl, rfl⟩ | ⟨p, proc, rest, rfl, found, left⟩)
  · refine (runNext_ends allPooled.logged ?_).weaken ?_
    · intro q
      rw [allPooled.placed q]
      refine ⟨fun ready => ⟨ready, ?_⟩, And.left⟩
      rw [Option.getD_none, ← idleSame]
      exact ready.2
    · rintro _ next ⟨nextKept, isNext, nextIdle⟩
      exact ⟨⟨_, nextKept⟩, nextIdle.trans idleSame, fun _ => nextKept.logged.shape.pool.hangs⟩
  have logged := allPooled.logged.left found left
  have member : p ∈ treeNodes pooled := left.nodes.mem_iff.mpr (by simp)
  refine (runNext_ends logged ?_).weaken ?_
  · intro q
    rw [left.ready_iff found, ← allPooled.placed q, left.nodes.mem_iff, mem_cons, Option.getD_some]
    have nodup := left.nodes.nodup_iff.mp allPooled.logged.shape.pool.nodup
    have fresh := (nodup_cons.mp nodup).1
    constructor
    · intro inRest
      refine ⟨.inr inRest, ?_⟩
      rintro rfl
      exact fresh inRest
    · rintro ⟨isP | inRest, notP⟩
      · exact absurd isP notP
      · exact inRest
  rintro _ next ⟨nextKept, isNext, nextIdle⟩
  have sameIdle : next.idleproc = state.idleproc :=
    nextIdle.trans (left.rest.idleproc.trans idleSame)
  refine ⟨⟨_, nextKept⟩, sameIdle, fun isIdle => ?_⟩
  exfalso
  have ready := (allPooled.placed p).mp member
  rw [isNext, Option.getD_some, sameIdle, ← idleSame] at isIdle
  exact ready.2 isIdle

end UcoreSmp
