import UcoreSmp.SchedPool

/-!
# The run pool in every run of the kernel

The steps of the kernel that concern the scheduler are the critical sections
and writes of the current process, the timer interrupt, and wake-ups by other
interrupts.  Between any two of them the pool holds exactly the runnable
processes that are neither current nor idle.
-/

namespace UcoreSmp

open Keeps

variable {state : SchedState} {tree : BinaryTree Nat} {child : Nat}

theorem SchedKept.withLists
    (kept : SchedKept state tree) (timers : List (Nat × Nat)) (procList : List Nat) :
    SchedKept { state with timerList := timers, procList := procList } tree where
  logged := ⟨⟨kept.logged.shape.pool, kept.logged.shape.count, kept.logged.shape.live⟩,
    kept.logged.wraps, kept.logged.once, kept.logged.logged, kept.logged.ordered⟩
  placed := kept.placed

theorem keeps_delTimer (p : Nat) : Keeps (delTimer p) := by
  rintro state ⟨tree, kept⟩
  exact ⟨⟨tree, kept.withLists _ state.procList⟩, rfl, rfl⟩

theorem keeps_addTimer (p expires : Nat) : Keeps (addTimer p expires) := by
  apply Keeps.bind (keeps_check _ _)
  rintro _ state ⟨tree, kept⟩
  exact ⟨⟨tree, kept.withLists _ state.procList⟩, rfl, rfl⟩

theorem keeps_runExpired (timers : List (Nat × Nat)) : Keeps (runExpired timers) := by
  induction timers with
  | nil => exact keeps_pure _
  | cons timer rest ih =>
    apply Keeps.ite
    · intro _
      apply bind (keeps_derefProc _)
      intro proc
      apply Keeps.bind (keeps_check _ _)
      intro _
      apply bind (keeps_wakeupProc _)
      intro _
      apply bind (keeps_delTimer _)
      intro _
      exact ih
    · intro _
      exact keeps_pure _

theorem keeps_advanceTimers : Keeps advanceTimers := by
  apply keeps_get_bind
  rintro state ⟨tree, kept⟩
  cases atHead : state.timerList with
  | nil => exact ⟨⟨tree, kept⟩, Stays.refl state⟩
  | cons timer rest =>
    simp only [ends_bind, ends_check, ends_modify]
    refine ⟨fun _ => ?_, fun _ => trivial⟩
    refine (keeps_runExpired _ _ ⟨tree, kept.withLists _ state.procList⟩).weaken ?_
    rintro _ next ⟨nextKept, stays⟩
    exact ⟨nextKept, stays.current, stays.idleproc⟩

theorem keeps_schedClassProcTick (p : Nat) : Keeps (schedClassProcTick p) := by
  apply keeps_get_bind
  intro state kept
  refine (ite ?_ ?_ : Keeps _) state kept
  · intro _
    apply keeps_updateProc
    intro proc
    exact ⟨rfl, rfl, rfl⟩
  intro _
  apply keeps_updateProc
  intro proc
  exact ⟨rfl, rfl, rfl⟩

theorem keeps_runTimerList : Keeps runTimerList := by
  apply bind keeps_advanceTimers
  intro _
  apply keeps_get_bind
  intro state kept
  exact keeps_schedClassProcTick state.current state kept

theorem keeps_setContext (context : ProcContext) : Keeps (setContext context) := by
  apply keeps_get_bind
  intro state kept
  refine (keeps_updateProc ?_ : Keeps _) state kept
  intro proc
  exact ⟨rfl, rfl, rfl⟩

theorem keeps_wakeWaiter (p : Nat) : Keeps (wakeWaiter p) := by
  apply bind (keeps_derefProc p)
  intro proc
  apply Keeps.ite
  · intro _
    exact keeps_wakeupProc p
  · intro _
    exact keeps_pure _

/-- Giving the children to `initproc` wakes it at most. -/
theorem keeps_giveChildren (children : List Nat) : Keeps (giveChildren children) := by
  induction children with
  | nil => exact keeps_pure _
  | cons child rest ih =>
    apply keeps_get_bind
    intro state kept
    refine (bind (keeps_updateProc ?_) ?_ : Keeps _) state kept
    · intro proc
      exact ⟨rfl, rfl, rfl⟩
    intro _
    apply bind (keeps_updateProc ?_)
    · intro _
      apply bind (keeps_derefProc child)
      intro proc
      apply Keeps.ite
      · intro _
        apply bind (keeps_wakeWaiter _)
        intro _
        exact ih
      · intro _
        exact ih
    · intro proc
      exact ⟨rfl, rfl, rfl⟩

theorem keeps_exitHandOver : Keeps exitHandOver := by
  apply keeps_get_bind
  intro state kept
  refine (bind (keeps_derefProc _) ?_ : Keeps _) state kept
  intro proc
  cases proc.parent with
  | none => exact keeps_throw _
  | some parent =>
    apply bind (keeps_wakeWaiter parent)
    intro _
    apply bind (keeps_giveChildren _)
    intro _
    apply keeps_updateProc
    intro proc
    exact ⟨rfl, rfl, rfl⟩

theorem keeps_doKill (pid : Int) : Keeps (doKill pid) := by
  apply keeps_get_bind
  intro state kept
  cases state.findProc pid with
  | none => exact keeps_pure _ state kept
  | some p =>
    refine (bind (keeps_derefProc p) ?_ : Keeps _) state kept
    intro proc
    apply Keeps.ite
    · intro _
      apply bind (keeps_updateProc ?_)
      · intro _
        apply Keeps.ite
        · intro _
          exact keeps_wakeupProc p
        · intro _
          exact keeps_pure _
      · intro proc
        exact ⟨rfl, rfl, rfl⟩
    · intro _
      exact keeps_pure _

theorem keeps_lab6SetPriority (priority : BitVec 32) : Keeps (lab6SetPriority priority) := by
  apply keeps_get_bind
  intro state kept
  refine (keeps_updateProc ?_ : Keeps _) state kept
  intro proc
  exact ⟨rfl, rfl, rfl⟩

theorem keeps_forkWake (child : Nat) : Keeps (forkWake child) := by
  apply bind (keeps_setContext _)
  intro _
  exact keeps_wakeupProc child

theorem keeps_doSleep (time : Nat) : Keeps (doSleep time) := by
  apply Keeps.ite
  · intro _
    exact keeps_pure _
  intro _
  apply keeps_get_bind
  intro state kept
  rw [ends_bind]
  refine Ends.mono (ends_updateCurrent kept ?_ ?_) ?_ fun _ _ => trivial
  · intro proc
    rfl
  · intro proc
    rfl
  rintro _ asleep ⟨asleepKept, stays⟩
  refine (keeps_addTimer _ _ asleep asleepKept).weaken ?_
  rintro _ next ⟨nextKept, nextStays⟩
  exact ⟨nextKept, stays.trans nextStays⟩

theorem keeps_doExit : Keeps doExit := by
  apply keeps_get_bind
  intro state kept
  simp only [ends_bind, ends_check]
  refine ⟨fun _ => ⟨fun _ => ?_, fun _ => trivial⟩, fun _ => trivial⟩
  apply ends_updateCurrent kept
  · intro proc
    rfl
  · intro proc
    rfl

theorem SchedKept.congr {state next : SchedState} (kept : SchedKept state tree)
    (pool : PoolTree next.links next.rq.lab6RunPool tree)
    (count : next.rq.procNum = state.rq.procNum) (log : next.log = state.log)
    (same : ∀ p ∈ treeNodes tree, next.procs p = state.procs p)
    (wraps : ∀ p proc, next.procs p = some proc → proc.lab6Stride = BitVec.ofNat 32 proc.charged)
    (waits : ∀ p, next.Waits p ↔ state.Waits p) :
    SchedKept next tree := by
  have strides : ∀ p ∈ treeNodes tree, strideOf next.procs p = strideOf state.procs p := by
    intro p member
    rw [strideOf, same p member, strideOf]
  have sums : ∀ p ∈ treeNodes tree, chargedOf next.procs p = chargedOf state.procs p := by
    intro p member
    rw [chargedOf, same p member, chargedOf]
  refine ⟨⟨⟨pool, count.trans kept.logged.shape.count, ?_⟩, wraps, ?_, ?_, ?_⟩, ?_⟩
  · intro p member
    rw [same p member]
    exact kept.logged.shape.live p member
  · rw [log]
    exact kept.logged.once
  · rw [log, List.map_congr_left fun p member => by rw [sums p member]]
    exact kept.logged.logged
  · rw [log]
    intro near
    obtain ⟨order, minimal⟩ := kept.logged.ordered near
    exact ⟨order.congr strides sums, minimal⟩
  · intro p
    rw [kept.placed p, waits p]

theorem SchedKept.linkChild (kept : SchedKept state tree) (fresh : state.procs child = none)
    (pid : Int) : SchedKept (state.linkChild child pid) tree := by
  have outside : child ∉ treeNodes tree := by
    intro member
    obtain ⟨proc, found⟩ := kept.logged.shape.live child member
    rw [fresh] at found
    exact absurd found (by simp)
  have linked : (state.linkChild child pid).procs child = some (childProc state.current pid) :=
    Function.update_self _ _ _
  have others : ∀ p, p ≠ child →
      (state.linkChild child pid).procs p = state.procs p := fun p other =>
    Function.update_of_ne other _ _
  refine SchedKept.congr kept ?_ ?_ ?_ ?_ ?_ ?_
  · exact kept.logged.shape.pool.init outside
  · rfl
  · rfl
  · intro p member
    exact others p fun same => outside (same ▸ member)
  · intro p proc found
    by_cases isChild : p = child
    · subst isChild
      obtain rfl := Option.some.inj (linked.symm.trans found)
      rfl
    · exact kept.logged.wraps p proc ((others p isChild).symm.trans found)
  intro p
  unfold SchedState.Waits
  by_cases isChild : p = child
  · subst isChild
    rw [linked, fresh]
    simp [childProc, allocProc]
  · rw [others p isChild]
    exact Iff.rfl

theorem SchedKept.freeProc {p : Nat} {proc : Proc} (kept : SchedKept state tree)
    (found : state.procs p = some proc) (stopped : proc.state ≠ .runnable) :
    SchedKept (state.freeProc p) tree := by
  have notWaits : ¬ state.Waits p := by
    rintro ⟨⟨other, otherFound, runnable⟩, -⟩
    obtain rfl := Option.some.inj (found.symm.trans otherFound)
    exact stopped runnable
  have outside : p ∉ treeNodes tree := (kept.placed p).not.mpr notWaits
  have freed : (state.freeProc p).procs p = none := Function.update_self _ _ _
  have others : ∀ q, q ≠ p → (state.freeProc p).procs q = state.procs q :=
    fun q other => Function.update_of_ne other _ _
  refine SchedKept.congr kept ?_ ?_ ?_ ?_ ?_ ?_
  · exact kept.logged.shape.pool
  · rfl
  · rfl
  · intro q member
    exact others q fun same => outside (same ▸ member)
  · intro q other otherFound
    by_cases isP : q = p
    · subst isP
      rw [freed] at otherFound
      exact absurd otherFound (by simp)
    · exact kept.logged.wraps q other ((others q isP).symm.trans otherFound)
  intro q
  unfold SchedState.Waits
  by_cases isP : q = p
  · subst isP
    refine iff_of_false ?_ notWaits
    rw [freed]
    simp
  · rw [others q isP]
    exact Iff.rfl

theorem doFork_ends (kept : Kept state) (fresh : state.procs child = none) (pid : Int) :
    Ends (doFork child pid) (fun _ next => Kept next ∧ Stays state next) (fun _ => True) state := by
  obtain ⟨tree, kept⟩ := kept
  simp only [doFork, ends_bind, ends_get]
  apply ends_derefProc_of
  intro proc found
  simp only [ends_check, ends_modify]
  refine ⟨fun _ => ?_, fun _ => trivial⟩
  have linked : Kept (state.linkChild child pid) := ⟨tree, kept.linkChild fresh pid⟩
  refine Ends.weaken ((keeps_updateProc ?_ : Keeps _) _ linked) ?_
  · intro proc
    exact ⟨rfl, rfl, rfl⟩
  · rintro _ next ⟨nextKept, stays⟩
    exact ⟨nextKept, stays.current, stays.idleproc⟩

theorem updateProc_stopped {p q : Nat} {update : Proc → Proc} (kept : Kept state)
    (stopped : ∃ proc, state.procs q = some proc ∧ proc.state ≠ .runnable)
    (minor : ∀ proc, (update proc).lab6Stride = proc.lab6Stride ∧
      (update proc).charged = proc.charged ∧ (update proc).state = proc.state) :
    Ends (updateProc p update) (fun _ next => (Kept next ∧ Stays state next) ∧
        ∃ proc, next.procs q = some proc ∧ proc.state ≠ .runnable)
      (fun _ => True) state := by
  obtain ⟨tree, kept⟩ := kept
  obtain ⟨target, targetFound, targetStopped⟩ := stopped
  rw [updateProc, ends_bind]
  apply ends_derefProc_of
  intro proc found
  obtain ⟨stride, charged, same⟩ := minor proc
  refine ⟨⟨⟨tree, kept.setProc found stride charged fun _ _ => by rw [same]⟩, rfl, rfl⟩, ?_⟩
  by_cases isP : q = p
  · subst isP
    obtain rfl := Option.some.inj (found.symm.trans targetFound)
    refine ⟨update proc, state.setProc_self q _, ?_⟩
    rw [same]
    exact targetStopped
  · exact ⟨target, (state.setProc_other _ isP).trans targetFound, targetStopped⟩

theorem reapChild_ends (kept : Kept state)
    (stopped : ∃ proc, state.procs child = some proc ∧ proc.state ≠ .runnable) :
    Ends (reapChild child) (fun _ next => Kept next ∧ Stays state next) (fun _ => True) state := by
  rw [reapChild, ends_bind]
  apply ends_derefProc_of
  intro zombie found
  cases zombie.parent with
  | none => exact trivial
  | some parent =>
    rw [ends_bind]
    refine Ends.mono (updateProc_stopped kept stopped ?_) ?_ fun _ _ => trivial
    · intro proc
      exact ⟨rfl, rfl, rfl⟩
    · rintro _ next ⟨⟨⟨tree, nextKept⟩, stays⟩, target, targetFound, targetStopped⟩
      exact ⟨⟨tree, nextKept.freeProc targetFound targetStopped⟩, stays.current, stays.idleproc⟩

theorem keeps_doWait (pid : Int) : Keeps (doWait pid) := by
  apply keeps_get_bind
  intro state kept
  rw [ends_bind]
  apply ends_derefProc_of
  intro proc found
  cases search : (state.waitedFor pid proc).find? state.isZombie with
  | some child =>
    have zombie : ∃ proc, state.procs child = some proc ∧ proc.state ≠ .runnable := by
      have isZombie := List.find?_some search
      rw [SchedState.isZombie, decide_eq_true_eq, Option.map_eq_some_iff] at isZombie
      obtain ⟨proc, found, state⟩ := isZombie
      exact ⟨proc, found, by rw [state]; decide⟩
    simp only [ends_bind, ends_check, setContext, ends_get]
    refine ⟨fun _ => ?_, fun _ => trivial⟩
    refine Ends.mono (updateProc_stopped kept zombie ?_) ?_ fun _ _ => trivial
    · intro proc
      exact ⟨rfl, rfl, rfl⟩
    rintro _ next ⟨⟨nextKept, stays⟩, stopped⟩
    refine (reapChild_ends nextKept stopped).weaken ?_
    rintro _ after ⟨afterKept, afterStays⟩
    exact ⟨afterKept, stays.trans afterStays⟩
  | none =>
    rw [ends_ite]
    refine ⟨fun _ => keeps_setContext _ state kept, fun _ => ?_⟩
    apply ends_updateCurrent kept
    · intro proc
      rfl
    · intro proc
      rfl

/-- What every step keeps, and what it may switch to. -/
def Stepped (state next : SchedState) : Prop :=
  Kept next ∧ next.idleproc = state.idleproc ∧
    (next.current ≠ state.current → next.current = next.idleproc → next.rq.lab6RunPool = none)

theorem Keeps.stepped {routine : SchedM PUnit} (keeps : Keeps routine) (kept : Kept state) :
    Ends routine (fun _ next => Stepped state next) (fun _ => True) state := by
  refine (keeps state kept).weaken ?_
  rintro _ next ⟨nextKept, stays⟩
  exact ⟨nextKept, stays.idleproc, fun switched => absurd stays.current switched⟩

/-- Writing the context and calling `schedule`. -/
theorem scheduleFrom_stepped (context : ProcContext) (kept : Kept state) :
    Ends (do setContext context; schedule) (fun _ next => Stepped state next)
      (fun _ => True) state := by
  rw [ends_bind]
  refine (keeps_setContext context state kept).mono ?_ fun _ _ => trivial
  rintro _ middle ⟨middleKept, stays⟩
  refine (schedule_ends middleKept).weaken ?_
  rintro _ next ⟨nextKept, sameIdle, onlyEmpty⟩
  exact ⟨nextKept, sameIdle.trans stays.idleproc, fun _ isIdle => onlyEmpty isIdle⟩

theorem resumeCurrent_stepped (kept : Kept state) :
    Ends resumeCurrent (fun _ next => Stepped state next) (fun _ => True) state := by
  simp only [resumeCurrent, ends_bind, ends_get]
  apply ends_derefProc_of
  intro proc found
  cases proc.context with
  | running => exact (keeps_pure _).stepped kept
  | forkLinked child => exact (keeps_forkWake child).stepped kept
  | waitAsleep pid =>
    refine stepped (keeps_updateProc ?_) kept
    intro proc
    exact ⟨rfl, rfl, rfl⟩
  | waitMarked | sleepArmed | exitLast => exact scheduleFrom_stepped _ kept
  | waitReturned pid =>
    refine stepped (ite ?_ ?_) kept
    · intro _
      exact keeps_doExit
    · intro _
      exact keeps_doWait pid
  | sleepReturned =>
    refine stepped (bind (keeps_delTimer _) ?_) kept
    intro _
    exact keeps_setContext _
  | exitZombie => exact keeps_exitHandOver.stepped kept
  | exited => exact trivial

theorem SchedAct.run_stepped (kept : Kept state) (act : SchedAct) (enabled : act.Enabled state) :
    Ends act.run (fun _ next => Stepped state next) (fun _ => True) state := by
  cases act with
  | timerInterrupt => exact keeps_runTimerList.stepped kept
  | wakeup p => exact (keeps_wakeupProc p).stepped kept
  | schedule =>
    refine (schedule_ends kept).weaken ?_
    rintro _ next ⟨nextKept, sameIdle, onlyEmpty⟩
    exact ⟨nextKept, sameIdle, fun _ isIdle => onlyEmpty isIdle⟩
  | fork child pid =>
    refine (doFork_ends kept enabled.2 pid).weaken ?_
    rintro _ next ⟨nextKept, stays⟩
    exact ⟨nextKept, stays.idleproc, fun switched => absurd stays.current switched⟩
  | sleep time => exact (keeps_doSleep time).stepped kept
  | wait pid => exact (keeps_doWait pid).stepped kept
  | exit => exact keeps_doExit.stepped kept
  | kill pid => exact (keeps_doKill pid).stepped kept
  | setPriority priority => exact (keeps_lab6SetPriority priority).stepped kept
  | resume => exact resumeCurrent_stepped kept

theorem schedBoot_kept (idle init : Nat) : SchedKept (schedBoot idle init) .nil := by
  have atIdle : (schedBoot idle init).procs idle = some bootProc := by
    simp [schedBoot]
  have others : ∀ p, p ≠ idle → (schedBoot idle init).procs p = none := by
    intro p other
    simp [schedBoot, other]
  refine ⟨⟨⟨⟨rfl, List.nodup_nil, ?_⟩, rfl, ?_⟩, ?_, trivial, List.Perm.nil, ?_⟩, ?_⟩
  · intro p isRoot
    exact absurd isRoot (by simp [schedBoot])
  · intro p member
    exact absurd member (by simp)
  · intro p proc found
    by_cases isIdle : p = idle
    · subst isIdle
      obtain rfl := Option.some.inj (atIdle.symm.trans found)
      rfl
    · rw [others p isIdle] at found
      exact absurd found (by simp)
  · intro _
    exact ⟨⟨by simp, by simp, trivial⟩, trivial⟩
  intro p
  refine iff_of_false (by simp) ?_
  rintro ⟨⟨proc, found, -⟩, -, notIdle⟩
  rw [others p notIdle] at found
  exact absurd found (by simp)

theorem SchedReaches.kept {idle init : Nat}
    (reached : SchedReaches idle init state) : Kept state := by
  induction reached with
  | boot => exact ⟨.nil, schedBoot_kept idle init⟩
  | step act reached enabled ran ih =>
    have stepped := act.run_stepped ih enabled
    rw [Ends, ran] at stepped
    exact stepped.1

/-- Between critical sections the pool holds every process once that is runnable
and neither current nor idle, and no other; `proc_num` counts it; no process was
ever put in twice; and the next step switches to the idle process only if the
pool is empty. -/
theorem run_pool_membership {idle init : Nat} (reached : SchedReaches idle init state) :
    (∃ tree, PoolTree state.links state.rq.lab6RunPool tree ∧
      (∀ p, (state.Waits p → (treeNodes tree).count p = 1) ∧
        (¬ state.Waits p → (treeNodes tree).count p = 0)) ∧
      state.rq.procNum = (treeNodes tree).length) ∧
    NeverTwice state.log ∧
    ∀ (act : SchedAct) (next : SchedState), act.Enabled state →
      act.run state = .ok (PUnit.unit, next) → next.current ≠ state.current →
      next.current = next.idleproc → next.rq.lab6RunPool = none := by
  obtain ⟨tree, kept⟩ := reached.kept
  refine ⟨⟨tree, kept.logged.shape.pool, fun p => ⟨?_, ?_⟩, ?_⟩, kept.logged.once, ?_⟩
  · intro waits
    exact List.count_eq_one_of_mem kept.logged.shape.pool.nodup ((kept.placed p).mpr waits)
  · intro outside
    exact List.count_eq_zero_of_not_mem ((kept.placed p).not.mpr outside)
  · rw [length_treeNodes]
    exact kept.logged.shape.count
  intro act next enabled ran
  have stepped := act.run_stepped ⟨tree, kept⟩ enabled
  rw [Ends, ran] at stepped
  exact stepped.2.2

/-- The idle process has forked and woken two processes and lets the second of them run, which has
forked a third. -/
theorem run_pool_membership_three_processes : ∃ state, SchedReaches 0 1 state ∧
    state.current = 2 ∧ ∃ tree, PoolTree state.links state.rq.lab6RunPool tree ∧
      (treeNodes tree).count 1 = 1 ∧ (treeNodes tree).count 2 = 0 ∧ (treeNodes tree).count 3 = 1 ∧
      state.rq.procNum = (treeNodes tree).length := by
  have start : SchedReaches 0 1 (schedBoot 0 1) := .boot
  have first := (start.step (.fork 1 1) ⟨rfl, rfl⟩ rfl).step .resume trivial rfl
  have second := (first.step (.fork 2 2) ⟨rfl, rfl⟩ rfl).step .resume trivial rfl
  have runs := second.step .schedule rfl rfl
  have third := (runs.step (.fork 3 3) ⟨rfl, rfl⟩ rfl).step .resume trivial rfl
  obtain ⟨⟨tree, pool, counts, length⟩, -⟩ := run_pool_membership third
  refine ⟨_, third, rfl, tree, pool, (counts 1).1 ?_, (counts 2).2 ?_, (counts 3).1 ?_, length⟩
  · exact ⟨⟨_, rfl, rfl⟩, by decide, by decide⟩
  · exact fun waits => waits.2.1 rfl
  · exact ⟨⟨_, rfl, rfl⟩, by decide, by decide⟩

end UcoreSmp
