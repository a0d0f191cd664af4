import UcoreSmp.FamilyExit
import UcoreSmp.FamilyFork
import UcoreSmp.FamilyReap

/-!
# Runs of the process family

Processes fork, exit, wait and kill in any order, and other processes run
between the pieces of a call.  In every state that is reached the lists of
processes are right, pids tell processes apart, and each process that exits is
reaped once, by its parent, with the code it set.
-/

namespace UcoreSmp

namespace Family

open List

/-- The state after `proc_init`: `idleproc` has forked `initproc`. -/
structure FamilyState.Booted (state : FamilyState) : Prop where
  apart : state.idleproc ≠ state.initproc
  idle : (state.procs state.idleproc).waitState = 0 ∧
    (state.procs state.idleproc).state = .runnable ∧
    (state.procs state.idleproc).cptr = some state.initproc
  init : (state.procs state.initproc).Awake ∧ (state.procs state.initproc).pid = 1 ∧
    (state.procs state.initproc).parent = some state.idleproc ∧
    (state.procs state.initproc).cptr = none ∧ (state.procs state.initproc).yptr = none ∧
    (state.procs state.initproc).optr = none ∧ (state.procs state.initproc).place = .outside ∧
    (state.procs state.initproc).serial = 0
  procList : state.procList = [state.initproc]
  hashList : state.hashList = Function.update (fun _ => []) (pidHashfn 1) [state.initproc]
  pids : state.pids = ⟨1, MAX_PID⟩
  nrProcess : state.nrProcess = 2
  born : state.born = 1
  exits : state.exits = []
  reaps : state.reaps = []

/-- The first call of `get_pid` leaves its static variables like this. -/
example : getPid [] ⟨MAX_PID, MAX_PID⟩ = some ⟨1, MAX_PID⟩ := by decide +kernel

inductive FamilyStep : FamilyState → FamilyState → Prop where
  | forkBegin {state next : FamilyState} {p child : Nat} (listed : p ∈ state.procList)
      (place : (state.procs p).place = .outside) (unused : state.Unused child)
      (returns : forkBegin p child state = .ok (PUnit.unit, next)) : FamilyStep state next
  | forkFail {state next : FamilyState} {p child : Nat} (listed : p ∈ state.procList)
      (place : (state.procs p).place = .forking child)
      (returns : forkFail p state = .ok (PUnit.unit, next)) : FamilyStep state next
  | forkLink {state next : FamilyState} {p child : Nat} (listed : p ∈ state.procList)
      (place : (state.procs p).place = .forking child)
      (returns : forkLink p child state = .ok (PUnit.unit, next)) : FamilyStep state next
  | exit {state next : FamilyState} {p : Nat} {code : Int} (listed : p ∈ state.procList)
      (place : (state.procs p).place = .outside ∨
        ((state.procs p).place = .killed ∧ code = -E_KILLED))
      (returns : doExit p code state = .ok (PUnit.unit, next)) : FamilyStep state next
  | waitCall {state : FamilyState} {p : Nat} (pid : Int) (store : Bool)
      (listed : p ∈ state.procList) (place : (state.procs p).place = .outside) :
      FamilyStep state (state.change p fun proc => { proc with place := .scanning pid store })
  | waitScan {state next : FamilyState} {p : Nat} {pid : Int} {store : Bool}
      (listed : p ∈ state.procList) (place : (state.procs p).place = .scanning pid store)
      (returns : waitScan p pid store state = .ok (PUnit.unit, next)) : FamilyStep state next
  | waitResume {state next : FamilyState} {p : Nat} {pid : Int} {store : Bool}
      (listed : p ∈ state.procList) (place : (state.procs p).place = .asleep pid store)
      (runnable : (state.procs p).state = .runnable)
      (returns : waitResume p pid store state = .ok (PUnit.unit, next)) : FamilyStep state next
  | waitReap {state next : FamilyState} {p child : Nat} {store : Bool}
      (listed : p ∈ state.procList) (place : (state.procs p).place = .reaping child store)
      (returns : waitReap p child store state = .ok (PUnit.unit, next)) : FamilyStep state next
  | kill {state next : FamilyState} {pid : Int}
      (returns : doKill pid state = .ok (PUnit.unit, next)) : FamilyStep state next

inductive FamilyRun : FamilyState → Prop where
  | start {state : FamilyState} (booted : state.Booted) : FamilyRun state
  | step {state next : FamilyState} (run : FamilyRun state) (step : FamilyStep state next) :
      FamilyRun next

section Run

variable {state next : FamilyState} {children : Nat → List Nat} {p : Nat}

theorem ends_of_returns {routine : FamilyM PUnit} {post : PUnit → FamilyState → Prop}
    {faulty : FamilyFault → Prop} (ends : Ends routine post faulty state)
    (returns : routine state = .ok ((), next)) : post () next := by
  rwa [Ends, returns] at ends

theorem sound_booted (booted : state.Booted) :
    Sound state (fun p => if p = state.idleproc then [state.initproc] else []) := by
  obtain ⟨apart, idle, init, procList, hashList, pids, nrProcess, born, exits, reaps⟩ := booted
  obtain ⟨awake, pid, parent, cptr, yptr, optr, place, serial⟩ := init
  have only : ∀ c ∈ state.procList, c = state.initproc := by simp [procList]
  have pidList : state.pidList = [1] := by simp [FamilyState.pidList, procList, pid]
  have notZombie : ¬ state.Zombie state.initproc := by
    rw [FamilyState.Zombie, awake.1]
    simp
  refine ⟨⟨⟨?_, ?_, ?_, ?_, ?_, ?_, ?_, ?_, ?_, ?_⟩, ⟨?_, ?_, ?_, ?_⟩⟩,
    ⟨⟨?_, ?_, ?_, ?_, ?_, ?_, ?_⟩, ?_⟩, ⟨?_, ?_, ?_, ?_, ?_, ?_, ?_, ?_, ?_, ?_⟩⟩
  · simpa [procList] using apart
  · simp [procList]
  · simp [procList]
  · intro c listed
    obtain rfl := only c listed
    exact ⟨state.idleproc, .inl rfl, parent⟩
  · simp [procList, nrProcess]
  · intro bucket c
    rw [hashList, procList, Function.update_apply, mem_singleton]
    by_cases isInit : c = state.initproc
    · subst isInit
      rw [pid]
      by_cases sameBucket : bucket = pidHashfn 1
      · simp [sameBucket]
      · have other : pidHashfn 1 ≠ bucket := fun same => sameBucket same.symm
        simp [sameBucket, other]
    · split <;> simp [isInit]
  · intro bucket
    rw [hashList, Function.update_apply]
    split <;> simp
  · rw [pidList, pids]
    exact ⟨by simp, by decide, by simp, by simp⟩
  · simp [pidList]
  · rw [pidList]
    intro pid member
    obtain rfl : pid = 1 := by simpa using member
    decide
  · intro p live
    by_cases isIdle : p = state.idleproc
    · simp [isIdle, idle.2.2]
    · have isInit := only p (live.resolve_left isIdle)
      simp [isInit, apart.symm, cptr]
  · intro p _
    by_cases isIdle : p = state.idleproc
    · simp [isIdle, Siblings, yptr, optr]
    · simp [isIdle, Siblings]
  · intro p _
    by_cases isIdle : p = state.idleproc
    · simp [isIdle]
    · simp [isIdle]
  · intro p c _
    by_cases isIdle : p = state.idleproc
    · subst isIdle
      simp only [if_true, mem_singleton, procList]
      constructor
      · rintro rfl
        exact ⟨rfl, parent⟩
      · exact fun both => both.1
    simp only [isIdle, if_false, not_mem_nil, false_iff, procList, mem_singleton]
    rintro ⟨rfl, isParent⟩
    rw [parent] at isParent
    exact isIdle (Option.some.inj isParent).symm
  · intro q listed
    obtain rfl := only q listed
    exact (placed_outside place).mpr awake
  · exact fun q listed r listed' _ _ _ => (only q listed).trans (only r listed').symm
  · intro c listed isOwn
    obtain rfl := only c listed
    rw [parent] at isOwn
    exact apart (Option.some.inj isOwn)
  · exact parent
  · simp [place]
  · exact idle.1
  · simp [procList, place, Place.isForking]
  · intro c listed q isParent isZombie
    obtain rfl := only c listed
    rw [parent] at isParent
    obtain rfl : state.idleproc = q := Option.some.inj isParent
    rw [FamilyState.Zombie, idle.2.1] at isZombie
    simp at isZombie
  · intro c listed
    obtain rfl := only c listed
    simp [serial, born]
  · exact fun c listed d listed' _ => (only c listed).trans (only d listed').symm
  · simp [exits]
  · simp [exits]
  · intro c listed
    obtain rfl := only c listed
    simpa [exits] using notZombie
  · intro c listed isZombie
    obtain rfl := only c listed
    exact absurd isZombie notZombie
  · simp [reaps]
  · simp [reaps]
  · simp [reaps]
  · intro number linked _
    refine ⟨state.initproc, by simp [procList], ?_⟩
    omega

theorem Sound.exiting (sound : Sound state children) (listed : p ∈ state.procList)
    (notInit : p ≠ state.initproc) {code : Int} (place : (state.procs p).place = .outside ∨
      ((state.procs p).place = .killed ∧ code = -E_KILLED)) :
    ∃ q, Exiting state children p q := by
  obtain ⟨q, -, parent⟩ := sound.house.parents p listed
  have placed := sound.conduct.placed p listed
  rcases place with outside | ⟨killed, -⟩
  · exact ⟨q, sound, listed, notInit, (placed_outside outside).mp placed,
      by simp [outside, Place.isForking], by simp [outside], parent⟩
  · exact ⟨q, sound, listed, notInit, (placed_killed killed).mp placed,
      by simp [killed, Place.isForking], by simp [killed], parent⟩

theorem doExit_init_ends (isInit : p = state.initproc) (notIdle : p ≠ state.idleproc) (code : Int) :
    Ends (doExit p code) (fun _ _ => False) (fun fault => fault = .initExit) state := by
  simp only [doExit, ends_bind, ends_get, ends_check]
  exact ⟨fun _ => ⟨fun notInit => absurd isInit notInit, fun _ => trivial⟩,
    fun isIdle => absurd notIdle isIdle⟩

theorem Sound.step (sound : Sound state children) (step : FamilyStep state next) :
    ∃ children', Sound next children' := by
  cases step with
  | forkBegin listed place unused returns =>
    exact ⟨_, ends_of_returns (sound.forkBegin_ends listed place unused) returns⟩
  | forkFail listed place returns =>
    exact ⟨_, ends_of_returns (sound.forkFail_ends listed place) returns⟩
  | forkLink listed place returns =>
    exact ends_of_returns (sound.forkLink_ends listed place) returns
  | @exit _ p code listed place returns =>
    by_cases isInit : p = state.initproc
    · have stopped := doExit_init_ends isInit (sound.house.live_ne_idle listed) code
      exact (ends_of_returns stopped returns).elim
    · obtain ⟨q, here⟩ := sound.exiting listed isInit place
      exact ends_of_returns here.doExit_ends returns
  | waitCall pid store listed place =>
    have awake := (placed_outside place).mp (sound.conduct.placed _ listed)
    refine ⟨_, sound.move listed rfl ?_ (by simp)⟩
    unfold Placed
    simpa [Member.Awake] using awake
  | waitScan listed place returns =>
    exact ⟨_, (ends_of_returns (sound.waitScan_ends listed place) returns).1⟩
  | waitResume listed place runnable returns =>
    exact ⟨_, ends_of_returns (sound.waitResume_ends listed place runnable) returns⟩
  | waitReap listed place returns =>
    exact (ends_of_returns (sound.waitReap_ends listed place) returns).2
  | kill returns => exact ⟨_, ends_of_returns (sound.doKill_ends _) returns⟩

theorem FamilyRun.sound (run : FamilyRun state) : ∃ children, Sound state children := by
  induction run with
  | start booted => exact ⟨_, sound_booted booted⟩
  | step _ step ih =>
    obtain ⟨children, sound⟩ := ih
    exact sound.step step

/-- In every state reached by forks, exits, waits and kills, `get_pid` returns a
pid in range that no process has, and `find_proc` finds the one process with a
given pid. -/
theorem get_pid_fresh (run : FamilyRun state) :
    (∃ pids, getPid state.pidList state.pids = some pids ∧ 1 ≤ pids.lastPid ∧
        pids.lastPid < MAX_PID ∧ ∀ c ∈ state.procList, (state.procs c).pid ≠ pids.lastPid) ∧
      (∀ c ∈ state.procList, ∀ d ∈ state.procList,
        (state.procs c).pid = (state.procs d).pid → c = d) ∧
      ∀ pid c, state.findProc pid = some c ↔ c ∈ state.procList ∧ (state.procs c).pid = pid := by
  obtain ⟨children, sound⟩ := run.sound
  refine ⟨?_, ?_, ?_⟩
  · obtain ⟨pids, got, low, high, fresh, -⟩ := sound.getPid
    refine ⟨pids, got, low, high, ?_⟩
    intro c listed same
    exact fresh (mem_map.mpr ⟨c, listed, same⟩)
  · intro c listed d listed' same
    exact inj_on_of_nodup_map sound.house.pidNodup listed listed' same
  · exact fun pid c => sound.house.findProc_iff

def FamilyState.WellLinked (state : FamilyState) (p : Nat) (children : List Nat) : Prop :=
  (state.procs p).cptr = children.head? ∧
    Siblings (fun c => (state.procs c).optr) (fun c => (state.procs c).yptr) none none children ∧
    children.Nodup ∧ ∀ c, c ∈ children ↔ c ∈ state.procList ∧ (state.procs c).parent = some p

/-- In every state that is reached: the children of each process are well linked;
`proc_list` and the hash lists hold exactly the processes that have been linked
and not reaped, `nr_process` counts them and `idleproc`; each process is reaped at
most once, after it has exited, by its parent, which stores the code it set; a
zombie that is not reaped is on the list of its parent, which does not sleep if
that is what it waits for, and finds it when it looks. -/
theorem family_and_reaping (run : FamilyRun state) :
    (∀ p, state.Live p → ∃ children, state.WellLinked p children) ∧
      (state.idleproc ∉ state.procList ∧ state.procList.Nodup ∧
        (∀ serial, (∃ c ∈ state.procList, (state.procs c).serial = serial) ↔
          serial < state.born ∧ serial ∉ state.reaps.map Reap.child) ∧
        (∀ c ∈ state.procList, ∀ d ∈ state.procList,
          (state.procs c).serial = (state.procs d).serial → c = d)) ∧
      (∀ bucket c, c ∈ state.hashList bucket ↔
        c ∈ state.procList ∧ pidHashfn (state.procs c).pid = bucket) ∧
      state.nrProcess = state.procList.length + 1 ∧
      ((state.exits.map Prod.fst).Nodup ∧ (state.reaps.map Reap.child).Nodup ∧
        ∀ reap ∈ state.reaps, reap.parent = some reap.waiter ∧
          ∃ code, (reap.child, code) ∈ state.exits ∧
            ∀ stored, reap.stored = some stored → stored = code) ∧
      (∀ exit ∈ state.exits, exit.1 ∈ state.reaps.map Reap.child ∨
        ∃ c ∈ state.procList, (state.procs c).serial = exit.1 ∧ state.Zombie c ∧
          (state.procs c).exitCode = exit.2 ∧
          ∃ p, state.Live p ∧ ¬ state.Zombie p ∧ (state.procs c).parent = some p) ∧
      (∀ p ∈ state.procList, ∀ pid store, (state.procs p).place = .asleep pid store →
        (state.procs p).state = .sleeping → state.NothingToReap p pid) ∧
      ∀ p ∈ state.procList, ∀ pid store, (state.procs p).place = .scanning pid store →
        ∃ next, waitScan p pid store state = .ok (PUnit.unit, next) ∧
          (¬ state.NothingToReap p pid → ∃ child, (next.procs p).place = .reaping child store ∧
            (pid ≠ 0 → (state.procs child).pid = pid)) := by
  obtain ⟨children, sound⟩ := run.sound
  obtain ⟨house, conduct, ledger⟩ := sound
  refine ⟨?_, ⟨house.idle, house.nodup, ?_, ledger.serial_inj⟩, house.hashed, house.count,
    ⟨ledger.exits_nodup, ledger.reaps_nodup, ledger.reaped⟩, ?_, ?_, ?_⟩
  · intro p live
    exact ⟨children p, house.kin.head p live, house.kin.linked p live, house.kin.nodup p live,
      fun c => house.kin.mem p c live⟩
  · intro serial
    constructor
    · rintro ⟨c, listed, rfl⟩
      exact ⟨ledger.serial_lt c listed, ledger.unreaped c listed⟩
    · rintro ⟨linked, unreaped⟩
      exact ledger.present serial linked unreaped
  · intro exit member
    by_cases reaped : exit.1 ∈ state.reaps.map Reap.child
    · exact .inl reaped
    right
    obtain ⟨c, listed, same⟩ := ledger.present exit.1 (ledger.exits_lt exit member) reaped
    have isZombie : state.Zombie c := by
      rw [ledger.zombie_iff c listed, same]
      exact mem_map_of_mem member
    have recorded := ledger.exitCode c listed isZombie
    rw [same] at recorded
    have sameExit : (exit.1, (state.procs c).exitCode) = exit :=
      inj_on_of_nodup_map ledger.exits_nodup recorded member rfl
    obtain ⟨p, live, parent⟩ := house.parents c listed
    exact ⟨c, listed, same, isZombie, congrArg Prod.snd sameExit, p, live,
      conduct.heirs c listed p parent, parent⟩
  · intro p listed pid store place sleeping
    rcases (placed_asleep place).mp (conduct.placed p listed) with awake | ⟨-, -, nothing⟩
    · rw [awake.1] at sleeping
      simp at sleeping
    · exact nothing
  intro p listed pid store place
  have ends := Sound.waitScan_ends ⟨house, conduct, ledger⟩ listed place
  obtain ⟨⟨⟩, next, returns, -, found⟩ := ends.returns
  exact ⟨next, returns, found⟩

end Run

/-- A small system after `proc_init`. -/
def bootFamily : FamilyState where
  procs p :=
    if p = 0 then
      { state := .runnable, waitState := 0, pid := 0, parent := none, cptr := some 1, yptr := none,
        optr := none, exitCode := 0, exiting := false, place := .outside, serial := 0 }
    else
      { state := .runnable, waitState := 0, pid := 1, parent := some 0, cptr := none, yptr := none,
        optr := none, exitCode := 0, exiting := false, place := .outside, serial := 0 }
  procList := [1]
  hashList := Function.update (fun _ => []) (pidHashfn 1) [1]
  pids := ⟨1, MAX_PID⟩
  nrProcess := 2
  idleproc := 0
  initproc := 1
  born := 1
  exits := []
  reaps := []

theorem bootFamily_booted : bootFamily.Booted where
  apart := by decide
  idle := ⟨rfl, rfl, rfl⟩
  init := ⟨⟨rfl, rfl⟩, rfl, rfl, rfl, rfl, rfl, rfl, rfl⟩
  procList := rfl
  hashList := rfl
  pids := rfl
  nrProcess := rfl
  born := rfl
  exits := rfl
  reaps := rfl

theorem bootFamily_unused : bootFamily.Unused 2 where
  notLive := by
    rintro (isIdle | listed)
    · cases isIdle
    · exact absurd listed (by decide)
  noDraft := by decide

/-- `initproc` has forked a child. -/
def forkedFamily : FamilyState :=
  match (do forkBegin 1 2; forkLink 1 2 : FamilyM PUnit) bootFamily with
  | .ok (_, state) => state
  | .error _ => bootFamily

theorem forkedFamily_run : FamilyRun forkedFamily := by
  have begun := (FamilyRun.start bootFamily_booted).step
    (.forkBegin (p := 1) (by decide) rfl bootFamily_unused rfl)
  exact begun.step (.forkLink (p := 1) (by decide) rfl rfl)

/-- After a fork the next pid is not that of the child. -/
theorem get_pid_fresh_after_fork : forkedFamily.procList = [2, 1] ∧ (forkedFamily.procs 2).pid = 2 ∧
    ∃ pids, getPid forkedFamily.pidList forkedFamily.pids = some pids ∧ 1 ≤ pids.lastPid ∧
      pids.lastPid ≠ 1 ∧ pids.lastPid ≠ 2 := by
  obtain ⟨pids, got, low, -, fresh⟩ := (get_pid_fresh forkedFamily_run).1
  exact ⟨rfl, rfl, pids, got, low, (fresh 1 (by decide)).symm, (fresh 2 (by decide)).symm⟩

/-- `initproc` waits, the child exits with code 7, and `initproc` reaps it. -/
theorem family_and_reaping_waited : ∃ state, FamilyRun state ∧ state.exits = [(1, 7)] ∧
    ∃ reap ∈ state.reaps, reap.waiter = 1 ∧ reap.parent = some 1 ∧ reap.stored = some 7 ∧
      state.nrProcess = state.procList.length + 1 := by
  have called := forkedFamily_run.step (.waitCall (p := 1) 0 true (by decide) rfl)
  have slept := called.step (.waitScan (p := 1) (by decide) rfl rfl)
  have exited := slept.step (.exit (p := 2) (by decide) (.inl rfl) (show doExit 2 7 _ = _ from rfl))
  have resumed := exited.step (.waitResume (p := 1) (by decide) rfl rfl rfl)
  have scanned := resumed.step (.waitScan (p := 1) (by decide) rfl rfl)
  have reaped := scanned.step (.waitReap (p := 1) (by decide) rfl rfl)
  have family := family_and_reaping reaped
  obtain ⟨parent, code, exit, stored⟩ := family.2.2.2.2.1.2.2 _ (mem_singleton_self _)
  obtain rfl : code = 7 := congrArg Prod.snd (mem_singleton.mp exit)
  exact ⟨_, reaped, rfl, _, mem_singleton_self _, rfl, parent,
    congrArg some (stored _ rfl), family.2.2.2.1⟩

/-- The number of processes on `proc_list` is not `nr_process`: `idleproc` has a
child and is not on the list.  And a child that has exited is reaped by nobody as
long as its parent does not wait. -/
theorem idleproc_counted_and_zombie_left :
    (∃ state, FamilyRun state ∧ (state.procs state.idleproc).cptr = some state.initproc ∧
      state.idleproc ∉ state.procList ∧ state.nrProcess ≠ state.procList.length) ∧
    ∃ state, FamilyRun state ∧ state.exits = [(1, 7)] ∧ state.Zombie 2 ∧
      (state.procs 2).parent = some 1 ∧ (state.procs 1).place = .outside ∧ state.reaps = [] := by
  refine ⟨⟨bootFamily, .start bootFamily_booted, rfl, by decide, by decide⟩, ?_⟩
  have exited := forkedFamily_run.step
    (.exit (p := 2) (by decide) (.inl rfl) (show doExit 2 7 _ = _ from rfl))
  exact ⟨_, exited, rfl, rfl, rfl, rfl, rfl⟩

end Family

end UcoreSmp
