import UcoreSmp.Monitor

/-!
# One token in the monitor

The invariant of the monitor names the place of the token: `Owned state token`.
Every step passes it on or leaves it, `Passed` says how.  Mutual exclusion, the
handover of `cond_signal` to the thread it wakes and the meaning of the counters
follow.
-/

namespace UcoreSmp

namespace Monitor

open Semaphores SemState
open Function

/-- Where the token is. -/
inductive Token where
  /-- in the value of a semaphore -/
  | free (sem : Nat)
  /-- on its way to a thread that has been woken -/
  | handed (sem t : Nat)
  /-- with the thread inside the monitor -/
  | inside (t : Nat)
  deriving DecidableEq, Repr

variable {δ : Type*}

/-- The token is at this place and nowhere else. -/
structure Owned (state : MonitorState δ) (token : Token) : Prop where
  orderly : Orderly state.sem
  values : ∀ sem, (state.sem.sems sem).value = if token = .free sem then 1 else 0
  handed : ∀ sem t, (state.sem.threads t).Handed sem ↔ token = .handed sem t
  inside : ∀ t, (state.point t).Inside ↔ token = .inside t
  blocked : ∀ t sem, (state.sem.threads t).place = .down sem ↔
    ∃ done, (state.point t).blockedOn = some (sem, done)

/-- How a step passes the token on. -/
inductive Passed (state after : MonitorState δ) : Token → Token → Prop where
  | kept {token : Token}
      (data : (∀ t, token ≠ .inside t) → after.shared.data = state.shared.data) :
      Passed state after token token
  | put {t sem : Nat} {point : Point} {token : Token}
      (call : (state.point t).raises = some (sem, point))
      (place : token = .free sem ∨ ∃ u, token = .handed sem u) :
      Passed state after (.inside t) token
  | taken {t sem : Nat} {blocked done : Point}
      (call : (state.point t).lowers = some (sem, blocked, done))
      (arrived : after.point t = done) (data : after.shared.data = state.shared.data) :
      Passed state after (.free sem) (.inside t)
  | received {t sem : Nat} {done : Point}
      (call : (state.point t).blockedOn = some (sem, done))
      (arrived : after.point t = done) (data : after.shared.data = state.shared.data) :
      Passed state after (.handed sem t) (.inside t)

/-! ## The code points of the calls -/

variable {sem t u cv : Nat} {blocked p q : Point} {token : Token} {sems : SemState}
  {woken : Option Nat} {shared shared' : Shared δ} {after state later : MonitorState δ}

theorem raises_points (call : p.raises = some (sem, q)) : p.Inside ∧ ¬ q.Inside ∧ p.blockedOn =
      none ∧ q.blockedOn = none ∧ (∀ cv, q.Waits cv ↔ p.Waits cv) ∧ (q.Signals ↔ p.Signals) := by
  cases p <;> simp [Point.raises] at call
  all_goals
    obtain ⟨rfl, rfl⟩ := call
    simp [Point.Inside, Point.blockedOn, Point.Waits, Point.Signals]

theorem lowers_points (call : p.lowers = some (sem, blocked, q)) : ¬ p.Inside ∧ p.blockedOn = none ∧
      q.Inside ∧ q.blockedOn = none ∧ ¬ blocked.Inside ∧ blocked.blockedOn = some (sem, q) ∧
      (∀ cv, (q.Waits cv ↔ p.Waits cv) ∧ (blocked.Waits cv ↔ p.Waits cv)) ∧
      (q.Signals ↔ p.Signals) ∧ (blocked.Signals ↔ p.Signals) := by
  cases p <;> simp [Point.lowers] at call
  all_goals
    obtain ⟨rfl, rfl, rfl⟩ := call
    simp [Point.Inside, Point.blockedOn, Point.Waits, Point.Signals]

theorem blockedOn_points (call : p.blockedOn = some (sem, q)) : ¬ p.Inside ∧ q.Inside ∧
      q.blockedOn = none ∧ (∀ cv, q.Waits cv ↔ p.Waits cv) ∧ (q.Signals ↔ p.Signals) := by
  cases p <;> simp [Point.blockedOn] at call
  all_goals
    obtain ⟨rfl, rfl⟩ := call
    simp [Point.Inside, Point.blockedOn, Point.Waits, Point.Signals]

theorem LocalStep.points (step : LocalStep p shared q shared') :
    p.Inside ∧ q.Inside ∧ p.blockedOn = none ∧ q.blockedOn = none := by
  cases step <;> simp [Point.Inside, Point.blockedOn]

/-! ## Every step passes the token on -/

namespace Owned

section

variable (owned : Owned state token)

include owned

variable {done point : Point}

theorem inside_update {token' : Token} (mover : point.Inside ↔ token' = .inside t)
    (others : ∀ u, u ≠ t → (token' = .inside u ↔ token = .inside u)) (u : Nat) :
    (update state.point t point u).Inside ↔ token' = .inside u := by
  by_cases same : u = t
  · subst same
    simpa using mover
  · rw [update_of_ne same, owned.inside u, others u same]

theorem blocked_update (before : (state.point t).blockedOn = none)
    (after : point.blockedOn = none) (u sem : Nat) : (state.sem.threads u).place =
      .down sem ↔ ∃ done, (update state.point t point u).blockedOn = some (sem, done) := by
  rw [owned.blocked u sem]
  by_cases same : u = t
  · subst same
    simp [before, after]
  · simp [same]

theorem run (step : LocalStep (state.point t) state.shared point shared) :
    Owned ⟨state.sem, shared, update state.point t point⟩ token := by
  obtain ⟨before, after, unblocked, unblocked'⟩ := step.points
  have holds : token = .inside t := (owned.inside t).mp before
  exact ⟨owned.orderly, owned.values, owned.handed,
    owned.inside_update (by simp [after, holds]) (fun _ _ => Iff.rfl),
    owned.blocked_update unblocked unblocked'⟩

/-- An `up` puts the token into the semaphore or hands it to the first thread. -/
theorem up (call : (state.point t).raises = some (sem, point))
    (returns : Semaphores.up sem state.sem = .ok (woken, sems)) :
    token = .inside t ∧ Owned ⟨sems, state.shared, update state.point t point⟩ (match woken with
        | none => .free sem
        | some u => .handed sem u) := by
  obtain ⟨inside, notInside, unblocked, unblocked', -, -⟩ := raises_points call
  have holds : token = .inside t := (owned.inside t).mp inside
  subst holds
  refine ⟨rfl, ?_⟩
  obtain ⟨empty, result⟩ | ⟨u, rest, queue, result⟩ := owned.orderly.up_cases sem
  · cases returns.symm.trans result
    refine ⟨owned.orderly.raise empty, fun other => ?_, fun other u => ?_,
      owned.inside_update (by simpa using notInside) fun u distinct => ?_,
      owned.blocked_update unblocked unblocked'⟩
    · have value := owned.values other
      by_cases same : other = sem
      · subst same
        simpa [raise] using value
      · simpa [raise, same, Ne.symm same] using value
    · refine (owned.handed other u).trans ?_
      simp
    · simpa using Ne.symm distinct
  have waiting := owned.orderly.front_waiting queue
  cases returns.symm.trans result
  refine ⟨owned.orderly.handOver queue, fun other => ?_, fun other v => ?_,
    owned.inside_update (by simpa using notInside) fun u distinct => ?_,
    fun v other => ?_⟩
  · have value := owned.values other
    by_cases same : other = sem
    · subst same
      simpa [handOver] using value
    · simpa [handOver, same] using value
  · rw [handed_handOver waiting, owned.handed other v]
    simp [and_comm, eq_comm]
  · simpa using Ne.symm distinct
  refine Iff.trans ?_ (owned.blocked_update unblocked unblocked' v other)
  by_cases same : v = u
  · subst same
    simp [handOver, Thread.handedOver]
  · simp [handOver, same]

/-- A `down` that finds the token in the semaphore takes it. -/
theorem lower (call : (state.point t).lowers = some (sem, blocked, done))
    (positive : 0 < (state.sem.sems sem).value) : token = .free sem ∧
      Owned ⟨state.sem.lower sem, state.shared, update state.point t done⟩ (.inside t) := by
  obtain ⟨notInside, unblocked, inside, unblocked', -, -⟩ := lowers_points call
  have free : token = .free sem := by
    rw [owned.values sem] at positive
    by_contra elsewhere
    simp [elsewhere] at positive
  subst free
  refine ⟨rfl, owned.orderly.lower positive, fun other => ?_, fun other u => ?_,
    owned.inside_update (by simpa using inside) fun u distinct => ?_,
    owned.blocked_update unblocked unblocked'⟩
  · have value := owned.values other
    by_cases same : other = sem
    · subst same
      simp [lower] at value ⊢
      omega
    · simpa [lower, same, Ne.symm same] using value
  · refine (owned.handed other u).trans ?_
    simp
  · simpa using Ne.symm distinct

/-- A `down` that blocks leaves the token where it is. -/
theorem block (call : (state.point t).lowers = some (sem, blocked, done))
    (running : (state.sem.threads t).place = .outside)
    (exhausted : ¬ 0 < (state.sem.sems sem).value) :
    Owned ⟨state.sem.block sem t, state.shared, update state.point t blocked⟩ token := by
  obtain ⟨notInside, unblocked, -, -, notInside', blockedHere, -⟩ := lowers_points call
  refine ⟨owned.orderly.block running exhausted, fun other => ?_, fun other u => ?_,
    owned.inside_update ?_ (fun _ _ => Iff.rfl), fun u other => ?_⟩
  · have value := owned.values other
    by_cases same : other = sem
    · subst same
      simpa [block] using value
    · simpa [SemState.block, same] using value
  · rw [handed_block running, owned.handed other u]
  · rw [← owned.inside t]
    simp [notInside, notInside']
  by_cases same : u = t
  · subst same
    simp [block, Thread.blocked, blockedHere]
  · simpa [SemState.block, same] using owned.blocked u other

theorem resume (call : (state.point t).blockedOn = some (sem, done))
    (handed : (state.sem.threads t).Handed sem) : token = .handed sem t ∧
      Owned ⟨state.sem.finish t, state.shared, update state.point t done⟩ (.inside t) := by
  obtain ⟨notInside, inside, unblocked, -, -⟩ := blockedOn_points call
  have onItsWay : token = .handed sem t := (owned.handed sem t).mp handed
  subst onItsWay
  refine ⟨rfl, owned.orderly.finish handed, fun other => ?_, fun other u => ?_,
    owned.inside_update (by simpa using inside) fun u distinct => ?_, fun u other => ?_⟩
  · simpa [finish] using owned.values other
  · rw [handed_finish handed, owned.handed other u]
    simp +contextual [eq_comm]
  · simpa using Ne.symm distinct
  by_cases same : u = t
  · subst same
    simp [finish, Thread.passed, unblocked]
  · simpa [finish, same] using owned.blocked u other

theorem elsewhere {event : SemEvent} (unrelated : event.Elsewhere)
    (step : SemStep state.sem event sems) :
    Owned { state with sem := sems } token := by
  have orderly := owned.orderly
  cases step.effect orderly with
  | calm _ calm =>
    have same := orderly.calm_threads calm
    refine ⟨orderly.calm calm, owned.values, fun sem u => ?_, owned.inside, fun u sem => ?_⟩
    · exact ((same u).handed sem).trans (owned.handed sem u)
    · rw [(orderly.calm calm).down_iff, (same u).handed, (same u).waiting, ← orderly.down_iff]
      exact owned.blocked u sem
  | refuse => exact owned
  | @raise sem | @handOver sem => simpa [SemEvent.raises] using (unrelated sem).2.1
  | @tryLower sem | @lower sem | @finish sem =>
    simpa [SemEvent.completes] using (unrelated sem).1
  | @block sem => simpa [SemEvent.arrival] using (unrelated sem).2.2.1

theorem step (step : MonitorStep state after) :
    ∃ token', Owned after token' ∧ Passed state after token token' := by
  cases step with
  | @run t point shared step =>
    refine ⟨token, owned.run step, .kept fun nobody => ?_⟩
    exact absurd ((owned.inside t).mp step.points.1) (nobody t)
  | @up t sem point woken sems call returns =>
    obtain ⟨rfl, after⟩ := owned.up call returns
    refine ⟨_, after, .put call ?_⟩
    cases woken with
    | none => exact .inl rfl
    | some u => exact .inr ⟨u, rfl⟩
  | @down t sem blocked done got sems call running returns =>
    by_cases positive : 0 < (state.sem.sems sem).value
    · cases returns.symm.trans (downStart_pos positive)
      obtain ⟨rfl, after⟩ := owned.lower call positive
      exact ⟨_, after, .taken call (update_self ..) rfl⟩
    · cases returns.symm.trans (downStart_blocks positive)
      exact ⟨_, owned.block call running positive, .kept fun _ => rfl⟩
  | @resume t sem done sems call scheduled returns =>
    have handed : (state.sem.threads t).Handed sem :=
      ⟨(owned.blocked t sem).mpr ⟨done, call⟩, scheduled⟩
    cases returns.symm.trans (owned.orderly.downFinish_handed handed)
    obtain ⟨rfl, after⟩ := owned.resume call handed
    exact ⟨_, after, .received call (update_self ..) rfl⟩
  | elsewhere unrelated step =>
    exact ⟨_, owned.elsewhere unrelated step, .kept fun _ => rfl⟩

end

end Owned

/-! ## The counters -/

/-- What a thread has read of the counters is still true. -/
def Point.UpToDate (shared : Shared δ) : Point → Prop
  | .waitCount cv count => count = shared.count cv
  | .waitUncount cv count => count = shared.count cv
  | .signalLoad cv => 0 < shared.count cv
  | .signalCount cv nextCount => nextCount = shared.nextCount ∧ 0 < shared.count cv
  | .signalUp cv => 0 < shared.count cv
  | .signalUncount _ nextCount => nextCount = shared.nextCount
  | _ => True

open Point

/-- The number of threads with the property is this one. -/
def Numbers (p : Nat → Prop) (value : Int) : Prop :=
  ∃ n : Nat, Headcount p n ∧ value = n

/-- The counters count threads, and what has been read of them is up to date. -/
structure Counted (state : MonitorState δ) : Prop where
  upToDate : ∀ t, (state.point t).UpToDate state.shared
  signals : Numbers (fun t => (state.point t).Signals) state.shared.nextCount
  waits : ∀ cv, Numbers (fun t => (state.point t).Waits cv) (state.shared.count cv)

/-- A counter moves along with its threads. -/
def MovesWith (before after : Prop) (value value' : Int) : Prop :=
  (after ↔ before) ∧ value' = value ∨ ¬ before ∧ after ∧ value' = value + 1 ∨
    before ∧ ¬ after ∧ value' = value - 1

theorem Numbers.update {property : Point → Prop} {points : Nat → Point}
    {point : Point} {value value' : Int} (numbers : Numbers (fun u => property (points u)) value)
    (moves : MovesWith (property (points t)) (property point) value value') :
    Numbers (fun u => property (update points t point u)) value' := by
  obtain ⟨n, count, rfl⟩ := numbers
  obtain ⟨same, rfl⟩ | ⟨before, after, rfl⟩ | ⟨before, after, rfl⟩ := moves
  · refine ⟨n, count.congr fun u => ?_, rfl⟩
    by_cases mover : u = t
    · subst mover
      simpa using same
    · simp [mover]
  · refine ⟨n + 1, count.join before fun u => ?_, by push_cast; rfl⟩
    by_cases mover : u = t
    · subst mover
      simpa using after
    · simp [mover]
  obtain ⟨m, rfl, fewer⟩ := count.leave before
    (q := fun u => property (Function.update points t point u)) fun u => by
      by_cases mover : u = t
      · subst mover
        simpa using after
      · simp [mover]
  exact ⟨m, fewer, by push_cast; omega⟩

theorem upToDate_of_not_inside (outside : ¬ p.Inside) : p.UpToDate shared := by
  cases p <;> simp [Inside] at outside <;> trivial

/-- A thread that comes back from `down` has read nothing yet. -/
theorem lowers_upToDate (call : p.lowers = some (sem, blocked, q)) : q.UpToDate shared := by
  cases p <;> simp [lowers] at call
  all_goals
    obtain ⟨-, -, rfl⟩ := call
    trivial

theorem blockedOn_upToDate (call : p.blockedOn = some (sem, q)) : q.UpToDate shared := by
  cases p <;> simp [blockedOn] at call
  all_goals
    obtain ⟨-, rfl⟩ := call
    trivial

section

variable (step : LocalStep p shared q shared') (before : p.UpToDate shared)

include step before

theorem LocalStep.upToDate : q.UpToDate shared' := by
  cases step with
  | waitCall | waitBack | signalBack => rfl
  | signalCall _ cv waited => exact waited
  | signalLoad _ cv => exact ⟨rfl, before⟩
  | signalCount _ cv nextCount => exact before.2
  | _ => trivial

theorem LocalStep.waits (cv : Nat) :
    MovesWith (p.Waits cv) (q.Waits cv) (shared.count cv) (shared'.count cv) := by
  cases step with
  | waitCount _ other count =>
    obtain rfl : count = shared.count other := before
    by_cases same : other = cv
    · subst same
      exact .inr (.inl ⟨id, rfl, update_self ..⟩)
    · refine .inl ⟨by simp [Waits, same], update_of_ne (Ne.symm same) ..⟩
  | waitUncount _ other count =>
    obtain rfl : count = shared.count other := before
    by_cases same : other = cv
    · subst same
      exact .inr (.inr ⟨rfl, id, update_self ..⟩)
    · refine .inl ⟨by simp [Waits, same], update_of_ne (Ne.symm same) ..⟩
  | _ => exact .inl ⟨by simp [Waits], rfl⟩

theorem LocalStep.signals : MovesWith p.Signals q.Signals shared.nextCount shared'.nextCount := by
  cases step with
  | signalCount _ cv nextCount =>
    obtain rfl : nextCount = shared.nextCount := before.1
    exact .inr (.inl ⟨id, trivial, rfl⟩)
  | signalUncount _ cv nextCount =>
    obtain rfl : nextCount = shared.nextCount := before
    exact .inr (.inr ⟨trivial, id, rfl⟩)
  | _ => exact .inl ⟨by simp [Signals], rfl⟩

end

namespace Counted

theorem run (counted : Counted state) (owned : Owned state token) {point : Point}
    (step : LocalStep (state.point t) state.shared point shared) :
    Counted ⟨state.sem, shared, update state.point t point⟩ where
  upToDate := by
    intro u
    by_cases same : u = t
    · subst same
      simpa using step.upToDate (counted.upToDate u)
    -- another thread is not inside, so it has read nothing
    simp only [update_of_ne same]
    refine upToDate_of_not_inside fun inside => same ?_
    have holds := (owned.inside t).mp step.points.1
    exact Token.inside.inj (((owned.inside u).mp inside).symm.trans holds)
  signals := counted.signals.update (step.signals (counted.upToDate t))
  waits := fun cv => (counted.waits cv).update (step.waits (counted.upToDate t) cv)

theorem call (counted : Counted state) {point : Point} (upToDate : point.UpToDate state.shared)
    (waits : ∀ cv, point.Waits cv ↔ (state.point t).Waits cv)
    (signals : point.Signals ↔ (state.point t).Signals) :
    Counted ⟨sems, state.shared, update state.point t point⟩ where
  upToDate := by
    intro u
    by_cases same : u = t
    · subst same
      simpa using upToDate
    · simpa [same] using counted.upToDate u
  signals := counted.signals.update (.inl ⟨signals, rfl⟩)
  waits := fun cv => (counted.waits cv).update (.inl ⟨waits cv, rfl⟩)

theorem step (counted : Counted state) (owned : Owned state token)
    (step : MonitorStep state after) : Counted after := by
  cases step with
  | run step => exact counted.run owned step
  | up call returns =>
    obtain ⟨-, notInside, -, -, waits, signals⟩ := raises_points call
    exact counted.call (upToDate_of_not_inside notInside) waits signals
  | @down t sem blocked done got sems call running returns =>
    obtain ⟨-, -, -, -, notInside, -, waits, signals, signals'⟩ := lowers_points call
    cases got with
    | false =>
      refine counted.call ?_ (fun cv => (waits cv).2) signals'
      exact upToDate_of_not_inside notInside
    | true =>
      refine counted.call ?_ (fun cv => (waits cv).1) signals
      exact lowers_upToDate call
  | resume call scheduled returns =>
    obtain ⟨-, -, -, waits, signals⟩ := blockedOn_points call
    exact counted.call (blockedOn_upToDate call) waits signals
  | elsewhere unrelated step => exact ⟨counted.upToDate, counted.signals, counted.waits⟩

end Counted

/-! ## Reachable states -/

theorem MonitorState.Initial.owned (starts : state.Initial) : Owned state (.free mutex) where
  orderly := starts.sems.orderly
  values := by
    intro sem
    simp [starts.sems.sems sem, eq_comm]
  handed := by
    intro sem t
    simp [Thread.Handed, starts.sems.outside t]
  inside := by
    intro t
    simp [starts.idle t, Inside]
  blocked := by
    intro t sem
    simp [starts.sems.outside t, starts.idle t, blockedOn]

theorem MonitorState.Initial.counted (starts : state.Initial) : Counted state where
  upToDate := by
    intro t
    rw [starts.idle t]
    trivial
  signals := by
    refine ⟨0, Headcount.zero fun t => ?_, starts.nextCount⟩
    simp [starts.idle t, Signals]
  waits := by
    intro cv
    refine ⟨0, Headcount.zero fun t => ?_, starts.count cv⟩
    simp [starts.idle t, Waits]

theorem Reached.invariant (reached : Reached state) :
    (∃ token, Owned state token) ∧ Counted state := by
  induction reached with
  | start starts => exact ⟨⟨_, starts.owned⟩, starts.counted⟩
  | step reached step induction =>
    obtain ⟨⟨token, owned⟩, counted⟩ := induction
    obtain ⟨token', owned', -⟩ := owned.step step
    exact ⟨⟨token', owned'⟩, counted.step owned step⟩

theorem Owned.alone (owned : Owned state token)
    (first : (state.point t).Inside) (second : (state.point u).Inside) : t = u := by
  have firstHolds := (owned.inside t).mp first
  have secondHolds := (owned.inside u).mp second
  exact Token.inside.inj (firstHolds.symm.trans secondHolds)

theorem waits_outside : p.Waits cv ∧ ¬ p.Inside ↔ p.SuspendedWait cv := by
  cases p <;> simp [Waits, Inside, SuspendedWait]

theorem signals_outside : p.Signals ∧ ¬ p.Inside ↔ p.SuspendedSignal := by
  cases p <;> simp [Signals, Inside, SuspendedSignal]

/-- While a thread is inside that is not counted itself, exactly the suspended
threads are. -/
theorem Owned.suspended (owned : Owned state token)
    {counts suspends : Point → Prop} (outside : ∀ p, counts p ∧ ¬ p.Inside ↔ suspends p)
    (inside : (state.point t).Inside) (uncounted : ¬ counts (state.point t))
    (u : Nat) : suspends (state.point u) ↔ counts (state.point u) := by
  rw [← outside]
  refine ⟨And.left, fun counted => ⟨counted, fun insideToo => uncounted ?_⟩⟩
  rwa [owned.alone inside insideToo]

/-- Steps after which nobody is inside. -/
def Pending : MonitorState δ → MonitorState δ → Prop :=
  Relation.ReflTransGen fun before after =>
    MonitorStep before after ∧ ∀ u, ¬ (after.point u).Inside

theorem Owned.pending (owned : Owned state token)
    (away : ∀ t, token ≠ .inside t) (pending : Pending state later) :
    Owned later token ∧ later.shared.data = state.shared.data := by
  induction pending with
  | refl => exact ⟨owned, rfl⟩
  | tail _ last induction =>
    obtain ⟨step, nobody⟩ := last
    obtain ⟨owned, data⟩ := induction
    obtain ⟨token', owned', passed⟩ := owned.step step
    cases passed with
    | kept same => exact ⟨owned', (same away).trans data⟩
    | @put t sem point token' call place => exact absurd rfl (away t)
    | @taken t sem blocked done call arrived same =>
      exact absurd ((owned'.inside t).mpr rfl) (nobody t)
    | @received t sem done call arrived same =>
      exact absurd ((owned'.inside t).mpr rfl) (nobody t)

theorem Owned.arrives (owned : Owned state token)
    (place : token = .free (cvSem cv) ∨ ∃ w, token = .handed (cvSem cv) w)
    (step : MonitorStep state after) (inside : (after.point u).Inside) :
    (state.point u).SuspendedWait cv ∧ after.point u = .waitBack cv ∧
      (∀ w, token = .handed (cvSem cv) w → u = w) ∧
      after.shared.data = state.shared.data := by
  obtain ⟨token', owned', passed⟩ := owned.step step
  have holds := (owned'.inside u).mp inside
  subst holds
  cases passed with
  | kept | put => simp at place
  | @taken _ sem blocked done call arrived same =>
    obtain rfl : sem = cvSem cv := by simpa using place
    have here : state.point u = .waitDown cv ∧ done = .waitBack cv := by
      cases point : state.point u <;> rw [point] at call <;>
        simp [lowers, cvSem, mutex, next] at call
      obtain ⟨rfl, -, rfl⟩ := call
      exact ⟨rfl, rfl⟩
    refine ⟨.inl here.1, arrived.trans here.2, fun w other => ?_, same⟩
    cases other
  | @received _ sem done call arrived same =>
    obtain rfl : sem = cvSem cv := by
      obtain place | ⟨w, place⟩ := place
      · cases place
      · exact (Token.handed.inj place).1
    have here : state.point u = .waitBlocked cv ∧ done = .waitBack cv := by
      cases point : state.point u <;> rw [point] at call <;>
        simp [blockedOn, cvSem, mutex, next] at call
      obtain ⟨rfl, rfl⟩ := call
      exact ⟨rfl, rfl⟩
    refine ⟨.inr here.1, arrived.trans here.2, fun w other => ?_, same⟩
    exact (Token.handed.inj other).2

/-- `cond_signal` has seen a positive `count`, so a thread is suspended. -/
theorem Owned.signal_suspended (owned : Owned state token) (counted : Counted state)
    (point : state.point t = .signalUp cv) : ∃ w, (state.point w).SuspendedWait cv := by
  have positive := counted.upToDate t
  rw [point] at positive
  obtain ⟨n, count, value⟩ := counted.waits cv
  have positive : (0 : Int) < n := value ▸ positive
  obtain ⟨w, waits⟩ := count.exists_of_pos (by omega)
  refine ⟨w, waits_outside.mp ⟨waits, fun inside => ?_⟩⟩
  have signaller : (state.point t).Inside := by
    rw [point]
    trivial
  rw [owned.alone inside signaller, point] at waits
  exact waits

section

variable (owned : Owned state token) (point : state.point t = .signalUp cv)
  (returns : Semaphores.up (cvSem cv) state.sem = .ok (woken, sems))

include owned point returns

theorem Owned.signal_woken (w : Nat) (isWoken : woken = some w) :
    state.point w = .waitBlocked cv := by
  subst isWoken
  have call : (state.point t).raises = some (cvSem cv, .signalDown cv) := by
    rw [point]
    rfl
  obtain ⟨-, owned'⟩ := owned.up call returns
  have handed := (owned'.handed (cvSem cv) w).mpr rfl
  obtain ⟨done, blocked⟩ := (owned'.blocked w (cvSem cv)).mp handed.1
  by_cases same : w = t
  · subst same
    simp [blockedOn] at blocked
  simp only [update_of_ne same] at blocked
  cases place : state.point w <;> rw [place] at blocked <;>
    simp [blockedOn, cvSem, mutex, next] at blocked
  rw [blocked.1]

/-- The next thread inside after the `up` of `cond_signal`. -/
theorem Owned.signal_arrives {final : MonitorState δ}
    (pending : Pending ⟨sems, state.shared, update state.point t (.signalDown cv)⟩ later)
    (step : MonitorStep later final) (inside : (final.point u).Inside) :
    (later.point u).SuspendedWait cv ∧ final.point u = .waitBack cv ∧
      (∀ w, woken = some w → u = w) ∧ final.shared.data = state.shared.data := by
  have call : (state.point t).raises = some (cvSem cv, .signalDown cv) := by
    rw [point]
    rfl
  obtain ⟨-, owned'⟩ := owned.up call returns
  cases woken with
  | none =>
    obtain ⟨ownedLater, data⟩ := owned'.pending (by simp) pending
    obtain ⟨suspended, back, -, same⟩ := ownedLater.arrives (.inl rfl) step inside
    exact ⟨suspended, back, by simp, same.trans data⟩
  | some w =>
    obtain ⟨ownedLater, data⟩ := owned'.pending (by simp) pending
    obtain ⟨suspended, back, isWoken, same⟩ := ownedLater.arrives (.inr ⟨w, rfl⟩) step inside
    refine ⟨suspended, back, ?_, same.trans data⟩
    rintro _ ⟨rfl⟩
    exact isWoken w rfl

end

/-- In every reachable state of a monitor: at most one thread is inside; when
`cond_signal` calls `up(&(cvp->sem))`, a thread is suspended in `cond_wait`, the
next thread inside is one of these, the one that was woken, and it finds the data
as the signaller left it; `next_count` and `cv.count` count the threads between
their increment and their decrement, and while another thread is inside these are
the suspended ones. -/
theorem monitor_contract (reached : Reached state) :
    (∀ t u, (state.point t).Inside → (state.point u).Inside → t = u) ∧
    (∀ t cv woken sems, state.point t = .signalUp cv → up (cvSem cv) state.sem = .ok (woken, sems) →
      (∃ w, (state.point w).SuspendedWait cv) ∧
      (∀ w, woken = some w → state.point w = .waitBlocked cv) ∧
      ∀ later final u, Pending ⟨sems, state.shared, update state.point t (.signalDown cv)⟩ later →
        MonitorStep later final → (final.point u).Inside →
          (later.point u).SuspendedWait cv ∧ final.point u = .waitBack cv ∧
          (∀ w, woken = some w → u = w) ∧ final.shared.data = state.shared.data) ∧
    Numbers (fun t => (state.point t).Signals) state.shared.nextCount ∧
    (∀ cv, Numbers (fun t => (state.point t).Waits cv) (state.shared.count cv)) ∧
    (∀ t, (state.point t).Inside → ¬ (state.point t).Signals →
      Numbers (fun u => (state.point u).SuspendedSignal) state.shared.nextCount) ∧
    (∀ t cv, (state.point t).Inside → ¬ (state.point t).Waits cv →
      Numbers (fun u => (state.point u).SuspendedWait cv) (state.shared.count cv)) := by
  obtain ⟨⟨token, owned⟩, counted⟩ := reached.invariant
  refine ⟨fun t u => owned.alone, ?_, counted.signals, counted.waits, ?_, ?_⟩
  · intro t cv woken sems point returns
    exact ⟨owned.signal_suspended counted point, owned.signal_woken point returns,
      fun later final u => owned.signal_arrives point returns⟩
  · intro t inside uncounted
    obtain ⟨n, count, value⟩ := counted.signals
    exact ⟨n, count.congr (owned.suspended (fun _ => signals_outside) inside uncounted), value⟩
  · intro t cv inside uncounted
    obtain ⟨n, count, value⟩ := counted.waits cv
    exact ⟨n, count.congr (owned.suspended (fun _ => waits_outside) inside uncounted), value⟩

def freshMonitor : MonitorState Unit where
  sem := ⟨fun sem => ⟨if sem = mutex then 1 else 0, []⟩,
    fun _ => ⟨.runnable, 0, false, ⟨0, 0, false⟩, false, .outside⟩⟩
  shared := ⟨0, fun _ => 0, ()⟩
  point := fun _ => .idle

/-- A thread has counted itself in `cond_wait`; later it is blocked there and another
one, which has counted itself in `cond_signal`, is about to wake it. -/
theorem freshMonitor_signalled : ∃ waiting signalled : MonitorState Unit,
    (Reached waiting ∧ (waiting.point 1).Inside ∧ waiting.shared.count 0 = 1 ∧
      ∀ u, ¬ (waiting.point u).SuspendedWait 0) ∧
    (Reached signalled ∧ signalled.point 2 = .signalUp 0 ∧ signalled.shared.nextCount = 1 ∧
      (∀ u, ¬ (signalled.point u).SuspendedSignal) ∧
      ∃ sems, up (cvSem 0) signalled.sem = .ok (some 1, sems)) := by
  have starts : freshMonitor.Initial :=
    ⟨⟨fun _ => rfl, fun _ => rfl, fun _ => rfl, fun _ => rfl⟩, rfl, fun _ => rfl, fun _ => rfl⟩
  have entered := (Reached.start starts).step (.down (t := 1) rfl rfl rfl)
  have called := entered.step (.run (t := 1) (.waitCall _ 0))
  have counted := called.step (.run (t := 1) (.waitCount _ 0 _))
  have tested := counted.step (.run (t := 1) (.waitTest _ 0))
  have released := tested.step (.up (t := 1) rfl rfl)
  have blocked := released.step (.down (t := 1) rfl rfl rfl)
  have second := blocked.step (.down (t := 2) rfl rfl rfl)
  have signals := second.step (.run (t := 2) (.signalCall _ 0 (by decide)))
  have loaded := signals.step (.run (t := 2) (.signalLoad _ 0))
  have signalled := loaded.step (.run (t := 2) (.signalCount _ 0 _))
  refine ⟨_, _, ⟨counted, trivial, rfl, fun u => ?_⟩, signalled, rfl, rfl, fun u => ?_, _, rfl⟩
  · by_cases first : u = 1 <;> simp [first, SuspendedWait, freshMonitor]
  · by_cases first : u = 1 <;> by_cases second : u = 2 <;>
      simp [first, second, SuspendedSignal, freshMonitor]

theorem monitor_contract_signalled : ∃ state : MonitorState Unit, Reached state ∧
    state.point 2 = .signalUp 0 ∧ (∃ w, (state.point w).SuspendedWait 0) ∧
      state.point 1 = .waitBlocked 0 := by
  obtain ⟨-, state, -, reached, signals, -, -, sems, returns⟩ := freshMonitor_signalled
  obtain ⟨suspended, woken, -⟩ := (monitor_contract reached).2.1 2 0 _ _ signals returns
  exact ⟨state, reached, signals, suspended, woken 1 rfl⟩

/-- A thread inside the monitor may be counted itself: before it gives the monitor up in
`cond_wait` or `cond_signal` nobody is suspended there. -/
theorem counted_before_suspended :
    (∃ state : MonitorState Unit, Reached state ∧ (state.point 1).Inside ∧
      state.shared.count 0 = 1 ∧ ∀ u, ¬ (state.point u).SuspendedWait 0) ∧
    ∃ state : MonitorState Unit, Reached state ∧ (state.point 2).Inside ∧
      state.shared.nextCount = 1 ∧ ∀ u, ¬ (state.point u).SuspendedSignal := by
  obtain ⟨waiting, state, counted, reached, signals, ahead, nobody, -⟩ := freshMonitor_signalled
  exact ⟨⟨waiting, counted⟩, state, reached, signals ▸ trivial, ahead, nobody⟩

end Monitor

end UcoreSmp
