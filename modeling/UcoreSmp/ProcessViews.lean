import UcoreSmp.FamilyLinks
import UcoreSmp.Semaphore
import UcoreSmp.StridePool
import UcoreSmp.TimerRing

/-!
# One process in several models

The scheduler, the timers, the family and the semaphores are modelled with the fields
of a process that they need, so `wakeup_proc`, `do_kill` and `do_fork` stand in several
models.  Seen through the fields that the models share, they do the same in each.
-/

namespace UcoreSmp

open Function

/-- What the models share of a process. -/
structure ProcView where
  state : ProcState
  waitState : BitVec 32
  exiting : Bool

def ProcView.wakeup (proc : ProcView) : Option ProcView :=
  if proc.state = .zombie then none
  else if proc.state = .runnable then some proc
  else some { proc with state := .runnable, waitState := 0 }

def ProcView.kill (proc : ProcView) : Option ProcView :=
  if proc.exiting then some proc
  else if proc.waitState &&& WT_INTERRUPTED ≠ 0 then wakeup { proc with exiting := true }
  else some { proc with exiting := true }

section ActsAs

variable {ε ε' σ τ α β : Type} {view : σ → Nat → Option ProcView}
  {view' : τ → Nat → Option ProcView} {step : ProcView → Option ProcView}

/-- One process has taken the step, and the others are as they were. -/
def Acted (view : σ → Nat → Option ProcView) (step : ProcView → Option ProcView) (p : Nat)
    (state next : σ) : Prop :=
  ∃ proc after, view state p = some proc ∧ step proc = some after ∧
    view next = update (view state) p (some after)

/-- The routine does to one process what `step` does to its view, and leaves the others; it stops
with the fault only where `step` has no result. -/
def ActsAs (view : σ → Nat → Option ProcView) (step : ProcView → Option ProcView) (zombie : ε)
    (p : Nat) (routine : Routine ε σ α) (state : σ) : Prop :=
  Ends routine (fun _ next => Acted view step p state next)
    (fun fault => fault = zombie → (view state p).bind step = none) state

/-- Two routines that act as the same step agree on what they make of a process. -/
theorem ActsAs.agree {zombie : ε} {zombie' : ε'} {p q : Nat} {routine : Routine ε σ α}
    {routine' : Routine ε' τ β} {state next : σ} {state' next' : τ} {value : α} {value' : β}
    (acts : ActsAs view step zombie p routine state)
    (acts' : ActsAs view' step zombie' q routine' state') (same : view state p = view' state' q)
    (returns : routine state = .ok (value, next))
    (returns' : routine' state' = .ok (value', next')) : view next p = view' next' q := by
  unfold ActsAs Ends at acts acts'
  rw [returns] at acts
  rw [returns'] at acts'
  obtain ⟨proc, after, found, stepped, changed⟩ := acts
  obtain ⟨proc', after', found', stepped', changed'⟩ := acts'
  obtain rfl : proc = proc' := Option.some.inj (found.symm.trans (same.trans found'))
  rw [changed, changed', update_self, update_self, ← stepped, ← stepped']

section Rules

variable {zombie : ε} {p : Nat} {state other : σ} {proc : ProcView}
  (seen : view state p = some proc)

include seen

theorem acted_wakeup (woken : view other =
      update (view state) p (some { proc with state := .runnable, waitState := 0 })) :
    (proc.state ≠ .zombie → (proc.state ≠ .runnable → Acted view ProcView.wakeup p state other) ∧
      (¬ proc.state ≠ .runnable → Acted view ProcView.wakeup p state state)) ∧
    (¬ proc.state ≠ .zombie → (view state p).bind ProcView.wakeup = none) := by
  refine ⟨fun alive => ⟨fun asleep => ?_, fun awake => ?_⟩, fun dead => ?_⟩
  · exact ⟨proc, _, seen, by rw [ProcView.wakeup, if_neg alive, if_neg asleep], woken⟩
  · refine ⟨proc, proc, seen, ?_, by rw [← seen, update_eq_self]⟩
    rw [ProcView.wakeup, if_neg alive, if_pos (not_not.mp awake)]
  · rw [seen, Option.bind_some, ProcView.wakeup, if_pos (not_not.mp dead)]

theorem acted_kill {wake : Routine ε σ α}
    (marked : view other = update (view state) p (some { proc with exiting := true }))
    (acts : ActsAs view ProcView.wakeup zombie p wake other) :
    (proc.exiting → Acted view ProcView.kill p state state) ∧ (¬ proc.exiting →
      (proc.waitState &&& WT_INTERRUPTED ≠ 0 →
        Ends wake (fun _ next => Acted view ProcView.kill p state next)
          (fun fault => fault = zombie → (view state p).bind ProcView.kill = none) other) ∧
      (¬ proc.waitState &&& WT_INTERRUPTED ≠ 0 → Acted view ProcView.kill p state other)) := by
  have isMarked : view other p = some { proc with exiting := true } := by
    rw [marked, update_self]
  refine ⟨fun exits => ?_, fun stays => ⟨fun wakes => ?_, fun sleeps => ?_⟩⟩
  · exact ⟨proc, proc, seen, by rw [ProcView.kill, if_pos exits], by rw [← seen, update_eq_self]⟩
  · have isKill : proc.kill = ProcView.wakeup { proc with exiting := true } := by
      rw [ProcView.kill, if_neg stays, if_pos wakes]
    refine acts.mono ?_ fun fault dead same => ?_
    · rintro _ next ⟨proc', after, found, woken, changed⟩
      cases isMarked.symm.trans found
      refine ⟨proc, after, seen, isKill.trans woken, ?_⟩
      rw [changed, marked, update_idem]
    · rw [seen, Option.bind_some, isKill, ← dead same, isMarked, Option.bind_some]
  · exact ⟨proc, _, seen, by rw [ProcView.kill, if_neg stays, if_neg sleeps], marked⟩

end Rules

/-- A parent that waits for nothing has made a process that is ready to run, and the others are as
they were. -/
def Forked (view : σ → Nat → Option ProcView) (parent child : Nat) (state next : σ) : Prop :=
  (view state parent).map ProcView.waitState = some 0 ∧
    view next = update (view state) child (some ⟨.runnable, 0, false⟩)

theorem Forked.of_acted {parent child : Nat} {state mid next : σ}
    (idle : (view state parent).map ProcView.waitState = some 0)
    (made : view mid = update (view state) child (some ⟨.uninit, 0, false⟩))
    (acted : Acted view ProcView.wakeup child mid next) : Forked view parent child state next := by
  obtain ⟨proc, after, found, woken, changed⟩ := acted
  rw [made, update_self] at found
  cases found
  cases woken
  exact ⟨idle, by rw [changed, made, update_idem]⟩

end ActsAs

/-! ## The views -/

variable {p : Nat}

def Proc.view (proc : Proc) : ProcView :=
  ⟨proc.state, proc.waitState, proc.flags &&& PF_EXITING ≠ 0⟩

def SchedState.view (state : SchedState) (p : Nat) : Option ProcView :=
  (state.procs p).map Proc.view

def TimerRing.TimerState.view (state : TimerState) (p : Nat) : Option ProcView :=
  some ⟨(state.proc p).state, (state.proc p).waitState, false⟩

def Family.Member.view (member : Member) : ProcView :=
  ⟨member.state, member.waitState, member.exiting⟩

def Family.FamilyState.view (state : FamilyState) (p : Nat) : Option ProcView :=
  some (state.procs p).view

def Semaphores.Thread.view (thread : Thread) : ProcView :=
  ⟨thread.state, thread.waitState, thread.exiting⟩

def Semaphores.SemState.view (state : SemState) (t : Nat) : Option ProcView :=
  some (state.threads t).view

section Scheduler

variable {state : SchedState}

theorem SchedState.view_setProc (proc : Proc) :
    (state.setProc p proc).view = update state.view p (some proc.view) := by
  funext q
  by_cases same : q = p <;> simp [view, same, setProc]

theorem SchedState.view_of {proc : Proc} (found : state.procs p = some proc) :
    state.view p = some proc.view := by
  rw [view, found, Option.map_some]

theorem SchedState.view_setProc_same {proc : Proc} (found : state.procs p = some proc)
    {after : Proc} (same : after.view = proc.view) : (state.setProc p after).view = state.view := by
  rw [view_setProc, same, ← view_of found, update_eq_self]

/-- The scheduling class writes no field of the view. -/
theorem enqueueWoken_view (p : Nat) : Ends (enqueueWoken p)
    (fun _ next => next.view = state.view) (fun fault => fault ≠ .zombieWoken) state := by
  simp only [enqueueWoken, schedClassEnqueue, ends_bind, ends_get, ends_ite, ends_pure,
    implies_true, and_true]
  intro _ _
  rw [strideEnqueue, ends_bind, ends_get, ends_bind]
  cases skewHeapInsert (procStrideCompF state.procs) (state.rq.procNum + 2) state.rq.lab6RunPool p
      state.links with
  | none => simp [assignPool]
  | some pool =>
    rw [assignPool, ends_modify, ends_bind, derefProc, ends_bind, ends_get]
    cases found : (state.setPool pool.1 pool.2).procs p with
    | none => simp
    | some proc =>
      simp only [ends_pure, ends_bind, ends_modify]
      refine (SchedState.view_setProc_same found ?_).trans rfl
      unfold refillSlice
      split_ifs <;> rfl

theorem wakeupProc_acts : ActsAs SchedState.view ProcView.wakeup .zombieWoken p (wakeupProc p)
    state := by
  rw [ActsAs, wakeupProc, ends_bind, derefProc, ends_bind, ends_get]
  cases found : state.procs p with
  | none => simp
  | some proc =>
    simp only [ends_pure, ends_bind, ends_check, ends_ite, ends_updateProc found]
    have acted := acted_wakeup (SchedState.view_of found) (SchedState.view_setProc proc.woken)
    refine ⟨fun alive => ⟨fun asleep => ?_, (acted.1 alive).2⟩, fun dead _ => acted.2 dead⟩
    refine (enqueueWoken_view p).mono (fun _ next same => ?_) fun fault other same =>
      absurd same other
    rw [Acted, same]
    exact (acted.1 alive).1 asleep

theorem doKill_acts {pid : Int} (found : state.findProc pid = some p) :
    ActsAs SchedState.view ProcView.kill .zombieWoken p (doKill pid) state := by
  rw [ActsAs, doKill, ends_bind, ends_get, found, ends_bind, derefProc, ends_bind, ends_get]
  cases isProc : state.procs p with
  | none => simp
  | some proc =>
    simp only [ends_pure, ends_bind, ends_ite, ends_updateProc isProc]
    have isSet : (proc.flags ||| PF_EXITING) &&& PF_EXITING ≠ 0 := by
      intro zero
      have bit := congrArg (BitVec.getLsbD · 0) zero
      simp [PF_EXITING] at bit
    have marked : (state.setProc p { proc with flags := proc.flags ||| PF_EXITING }).view =
        update state.view p (some { proc.view with exiting := true }) := by
      rw [SchedState.view_setProc, Proc.view, decide_eq_true isSet]
      rfl
    obtain ⟨exits, stays⟩ := acted_kill (SchedState.view_of isProc) marked wakeupProc_acts
    exact ⟨fun clear => stays (by simp [Proc.view, clear]),
      fun isExiting => exits (by simpa [Proc.view] using isExiting)⟩

theorem updateProc_view {change : Proc → Proc} (same : ∀ proc, (change proc).view = proc.view) :
    Ends (updateProc p change) (fun _ next => next.view = state.view) (fun _ => True) state := by
  rw [updateProc, ends_bind, derefProc, ends_bind, ends_get]
  cases found : state.procs p with
  | none => trivial
  | some proc => exact SchedState.view_setProc_same found (same proc)

theorem doFork_forks (child : Nat) (pid : Int) :
    Ends (do doFork child pid; forkWake child)
      (fun _ next => Forked SchedState.view state.current child state next) (fun _ => True)
      state := by
  simp only [doFork, forkWake, setContext, derefProc, ends_bind, ends_get]
  cases found : state.procs state.current with
  | none => trivial
  | some proc =>
    simp only [ends_pure, ends_check, ends_modify]
    refine ⟨fun idle => ?_, fun _ => trivial⟩
    apply (updateProc_view (by exact fun _ => rfl)).weaken
    intro _ linked same
    apply (updateProc_view (by exact fun _ => rfl)).weaken
    intro _ ready same'
    refine wakeupProc_acts.mono (fun _ next acted => ?_) fun _ _ => trivial
    refine Forked.of_acted ?_ (same'.trans (same.trans ?_)) acted
    · rw [SchedState.view_of found]
      exact congrArg some idle
    · funext q
      by_cases isChild : q = child <;>
        simp [SchedState.view, SchedState.linkChild, isChild, Proc.view, childProc, allocProc]

end Scheduler

namespace Family

variable {state : FamilyState} {child : Nat}

theorem view_change (change : Member → Member) :
    (state.change p change).view = update state.view p (some (change (state.procs p)).view) := by
  funext q
  by_cases same : q = p <;> simp [FamilyState.view, FamilyState.change, same]

theorem view_change_same {change : Member → Member}
    (same : (change (state.procs p)).view = (state.procs p).view) :
    (state.change p change).view = state.view := by
  rw [view_change, same]
  exact update_eq_self _ _

theorem view_setLinks (state : FamilyState) (parent p : Nat) :
    (state.setLinks parent p).view = state.view := by
  funext q
  have kept := congrArg Member.view (state.setLinks_unlinked parent p q)
  exact congrArg some kept

theorem wakeupProc_acts :
    ActsAs FamilyState.view ProcView.wakeup .zombieWoken p (wakeupProc p) state := by
  simp only [ActsAs, wakeupProc, updateMember, ends_bind, ends_get, ends_check, ends_ite,
    ends_modify, ends_pure, forall_const]
  exact acted_wakeup (show state.view p = some _ from rfl) (view_change _)

theorem doKill_acts {pid : Int} (found : state.findProc pid = some p) :
    ActsAs FamilyState.view ProcView.kill .zombieWoken p (doKill pid) state := by
  simp only [ActsAs, doKill, ends_bind, ends_get, found, updateMember, ends_ite, ends_modify,
    ends_pure]
  exact acted_kill (show state.view p = some _ from rfl) (view_change _) wakeupProc_acts

/-- Linking a new process and giving it a pid changes no view. -/
theorem forkLink_acts : Ends (forkLink p child)
    (fun _ next => Acted FamilyState.view ProcView.wakeup child state next) (fun _ => True)
    state := by
  rw [forkLink, assignPid, ends_bind, ends_bind, ends_get]
  cases getPid state.pidList state.pids with
  | none => trivial
  | some pids =>
    simp only [ends_set, ends_bind, ends_modify, derefParent, ends_get, updateMember]
    split
    · trivial
    refine wakeupProc_acts.mono (fun _ next acted => ?_) fun _ _ => trivial
    have numbered := @view_change_same child state
      (fun proc => { proc with pid := pids.lastPid, serial := state.born }) rfl
    rw [Acted, view_setLinks] at acted
    rw [Acted, view_change_same rfl, ← numbered]
    exact acted

theorem fork_forks (room : state.nrProcess < MAX_PROCESS) :
    Ends (do forkBegin p child; forkLink p child)
      (fun _ next => Forked FamilyState.view p child state next) (fun _ => True) state := by
  simp only [forkBegin, updateMember, ends_bind, ends_get, ends_ite, ends_modify, ends_check]
  refine ⟨fun full => absurd room (not_lt.mpr full), fun _ => ⟨fun idle => ?_, fun _ => trivial⟩⟩
  refine forkLink_acts.weaken fun _ next acted => Forked.of_acted (congrArg some idle) ?_ acted
  rw [view_change_same rfl, view_change]
  rfl

end Family

namespace Semaphores

variable {state : SemState}

theorem view_setThread (thread : Thread) :
    (state.setThread p thread).view = update state.view p (some thread.view) := by
  funext t
  by_cases same : t = p <;> simp [SemState.view, same]

theorem wakeupProc_acts :
    ActsAs SemState.view ProcView.wakeup .wakingZombie p (wakeupProc p) state := by
  simp only [ActsAs, wakeupProc, updateThread, ends_bind, ends_get, ends_check, ends_ite,
    ends_modify, ends_pure, forall_const]
  exact acted_wakeup (show state.view p = some _ from rfl) (view_setThread _)

theorem doKill_acts : ActsAs SemState.view ProcView.kill .wakingZombie p (doKill p) state := by
  simp only [ActsAs, doKill, updateThread, ends_bind, ends_get, ends_ite, ends_modify, ends_pure]
  exact acted_kill (show state.view p = some _ from rfl) (view_setThread _) wakeupProc_acts

end Semaphores

namespace TimerRing

variable {state : TimerState}

theorem wakeupProc_acts : ActsAs TimerState.view ProcView.wakeup TimerFault.wakeupZombie p (do
      check ((state.proc p).state ≠ .zombie) .wakeupZombie
      modify fun state => state.wakeupProc p) state := by
  have woken : TimerState.view { state with proc := update state.proc p ⟨.runnable, 0⟩ } =
      update state.view p (some ⟨.runnable, 0, false⟩) := by
    funext q
    by_cases same : q = p <;> simp [TimerState.view, same]
  have acted := acted_wakeup (show state.view p = some _ from rfl) woken
  simp only [ActsAs, ends_bind, ends_check, ends_modify, TimerState.wakeupProc]
  refine ⟨fun alive => ?_, fun dead _ => acted.2 dead⟩
  split_ifs with asleep
  · exact (acted.1 alive).1 asleep
  · exact (acted.1 alive).2 asleep

end TimerRing

end UcoreSmp
