import UcoreSmp.TimerRing

/-!
# Timers fire on time

Runs of the timer list: timers are added and deleted, processes change, and
ticks arrive, in any order.  A timer that was added fires in the tick that its
own time names, whatever happens to the other timers in between.  The invariant
relates the list of differences on the ring to the additions in the history of
the run.
-/

namespace UcoreSmp

namespace TimerRing

open List

inductive TimerEvent where
  | add (timer proc expires : Nat)
  | del (timer : Nat)
  | tick
  /-- a process goes to sleep or wakes up for another reason -/
  | change (p : Nat) (proc : Sleeper)
  deriving DecidableEq, Repr

/-- The event adds or deletes the timer. -/
def TimerEvent.Concerns (timer : Nat) : TimerEvent → Prop
  | .add other _ _ => other = timer
  | .del other => other = timer
  | .tick => False
  | .change _ _ => False

/-- A call that returns; its loops take some number of iterations. -/
inductive TimerStep : TimerState → TimerEvent → TimerState → Prop where
  | add {state next : TimerState} {timer proc expires : Nat} (fuel : Nat)
      (alone : state.ListEmpty timer) (positive : 0 < expires) (inRange : expires < 2 ^ 32)
      (returns : (do timerInit timer proc expires; addTimer fuel timer : TimerM PUnit) state =
        .ok (PUnit.unit, next)) :
      TimerStep state (.add timer proc expires) next
  | del {state next : TimerState} {timer : Nat}
      (returns : delTimer timer state = .ok (PUnit.unit, next)) :
      TimerStep state (.del timer) next
  | tick {state next : TimerState} (fuel : Nat)
      (returns : runTimerList fuel state = .ok (PUnit.unit, next)) :
      TimerStep state .tick next
  | change {state : TimerState} (p : Nat) (proc : Sleeper) :
      TimerStep state (.change p proc) { state with proc := Function.update state.proc p proc }

/-- No timer has been added and every link is as `list_init` leaves it. -/
def TimerState.Initial (state : TimerState) : Prop :=
  state.links = ⟨id, id⟩ ∧ state.woken = []

/-- A run from an initial state, with its events from the last to the first. -/
inductive TimerRun : List TimerEvent → TimerState → Prop where
  | start {state : TimerState} (initial : state.Initial) : TimerRun [] state
  | step {history : List TimerEvent} {state next : TimerState} {event : TimerEvent}
      (run : TimerRun history state) (step : TimerStep state event next) :
      TimerRun (event :: history) next

def ticks : List TimerEvent → Nat
  | [] => 0
  | .tick :: earlier => ticks earlier + 1
  | _ :: earlier => ticks earlier

/-- The timer was last added after `position` events, to wake `proc` in the tick
`deadline`, and has not been deleted since. -/
def Appointed (history : List TimerEvent) (timer proc deadline position : Nat) : Prop :=
  ∃ later expires earlier, history = later ++ .add timer proc expires :: earlier ∧
    (∀ event ∈ later, ¬ event.Concerns timer) ∧
    deadline = ticks earlier + expires ∧ position = earlier.length

variable {history : List TimerEvent} {event : TimerEvent} {timer : Nat}

section Appointments

variable {proc deadline position : Nat}

theorem appointed_cons (unconcerned : ¬ event.Concerns timer) :
    Appointed (event :: history) timer proc deadline position ↔
      Appointed history timer proc deadline position := by
  constructor
  · rintro ⟨later, expires, earlier, historyEq, untouched, deadlineEq, positionEq⟩
    cases later with
    | nil =>
      obtain ⟨rfl, -⟩ := cons.inj historyEq
      exact absurd rfl unconcerned
    | cons last later =>
      obtain ⟨-, rfl⟩ := cons.inj historyEq
      exact ⟨later, expires, earlier, rfl, fun event member =>
        untouched event (mem_cons_of_mem _ member), deadlineEq, positionEq⟩
  rintro ⟨later, expires, earlier, rfl, untouched, deadlineEq, positionEq⟩
  refine ⟨event :: later, expires, earlier, rfl, ?_, deadlineEq, positionEq⟩
  intro other member
  rcases mem_cons.mp member with rfl | inLater
  · exact unconcerned
  · exact untouched other inLater

theorem not_appointed_del : ¬ Appointed (.del timer :: history) timer proc deadline position := by
  rintro ⟨later, expires, earlier, historyEq, untouched, -, -⟩
  cases later with
  | nil => exact absurd (cons.inj historyEq).1 (by simp)
  | cons last later =>
    obtain ⟨rfl, -⟩ := cons.inj historyEq
    exact untouched (.del timer) mem_cons_self rfl

theorem appointed_add {owner expires : Nat} :
    Appointed (.add timer owner expires :: history) timer proc deadline position ↔
      proc = owner ∧ deadline = ticks history + expires ∧ position = history.length := by
  constructor
  · rintro ⟨later, waiting, earlier, historyEq, untouched, deadlineEq, positionEq⟩
    cases later with
    | nil =>
      obtain ⟨sameEvent, rfl⟩ := cons.inj historyEq
      injection sameEvent with _ sameOwner sameExpires
      exact ⟨sameOwner.symm, by rw [deadlineEq, sameExpires], positionEq⟩
    | cons last later =>
      obtain ⟨rfl, -⟩ := cons.inj historyEq
      exact (untouched (.add timer owner expires) mem_cons_self rfl).elim
  · rintro ⟨rfl, rfl, rfl⟩
    exact ⟨[], expires, history, rfl, by simp, rfl, rfl⟩

theorem Appointed.position_lt (appointed : Appointed history timer proc deadline position) :
    position < history.length := by
  obtain ⟨later, expires, earlier, rfl, -, -, rfl⟩ := appointed
  simp
  omega

end Appointments

def AddedBefore (history : List TimerEvent) (first second : Nat) : Prop :=
  ∀ proc deadline position proc' deadline' position',
    Appointed history first proc deadline position →
      Appointed history second proc' deadline' position' → position < position'

def FiresBefore (history : List TimerEvent) (first second : Nat × Nat) : Prop :=
  first.2 < second.2 ∨ (first.2 = second.2 ∧ AddedBefore history first.1 second.1)

/-- The ring holds the timers that are still to fire, each with the deadline
that its addition gave it. -/
structure OnSchedule (history : List TimerEvent) (state : TimerState)
    (list : List (Nat × Nat)) : Prop where
  queued : Queued state list
  bounded : Bounded list
  due : ∀ timer deadline, (timer, deadline) ∈ deadlines (ticks history) list ↔
    ticks history < deadline ∧ ∃ proc position, Appointed history timer proc deadline position
  ordered : (deadlines (ticks history) list).Pairwise (FiresBefore history)
  owner : ∀ timer proc deadline position,
    Appointed history timer proc deadline position → (state.timer timer).proc = proc

section Steps

variable {state next : TimerState} {list : List (Nat × Nat)}

/-- The order of other timers does not depend on an event that does not concern
them. -/
theorem FiresBefore.cons {first second : Nat × Nat}
    (before : FiresBefore history first second) (apartFirst : ¬ event.Concerns first.1)
    (apartSecond : ¬ event.Concerns second.1) : FiresBefore (event :: history) first second := by
  rcases before with earlier | ⟨together, added⟩
  · exact .inl earlier
  refine .inr ⟨together, ?_⟩
  intro proc deadline position proc' deadline' position' appointed appointed'
  rw [appointed_cons apartFirst] at appointed
  rw [appointed_cons apartSecond] at appointed'
  exact added _ _ _ _ _ _ appointed appointed'

theorem onSchedule_initial (initial : state.Initial) : OnSchedule [] state [] := by
  have noAppointment : ∀ timer proc deadline position,
      ¬ Appointed [] timer proc deadline position := by
    rintro timer proc deadline position ⟨later, expires, earlier, historyEq, -⟩
    simp at historyEq
  refine ⟨⟨?_, by simp, ?_⟩, by simp [Bounded, deadlines], ?_, by simp [deadlines], ?_⟩
  · rw [initial.1]
    simp [Links.IsRing, linksOf, Links.Joined]
  · intro timer _
    simp [TimerState.ListEmpty, listNext, initial.1]
  · simp [deadlines, noAppointment]
  · intro timer proc deadline position appointed
    exact absurd appointed (noAppointment _ _ _ _)

theorem Queued.timerInit (queued : Queued state list)
    (absent : timer ∉ list.map Prod.fst) (proc expires : Nat) :
    Queued { state with
      timer := Function.update state.timer timer ⟨expires, proc⟩
      links := listInit state.links (some timer) } list := by
  refine ⟨?_, ?_, ?_⟩
  · apply isRing_listInit_of_notMem queued.ring
    simpa using absent
  · intro entry member
    have apart : entry.1 ≠ timer := by
      rintro rfl
      exact absent (mem_map_of_mem member)
    simpa [apart] using queued.waits entry member
  intro other notListed
  by_cases isTimer : other = timer
  · simp [TimerState.ListEmpty, listNext, listInit, isTimer]
  · have alone := queued.unlinked other notListed
    simpa [TimerState.ListEmpty, listNext, listInit, isTimer] using alone

section

variable (schedule : OnSchedule history state list)

include schedule

theorem OnSchedule.waits : HeadWaits list := by
  rw [headWaits_iff (ticks history)]
  intro entry member
  exact ((schedule.due entry.1 entry.2).mp member).1

theorem OnSchedule.sorted :
    (deadlines (ticks history) list).Pairwise fun first second => first.2 ≤ second.2 := by
  apply schedule.ordered.imp
  rintro first second (earlier | ⟨together, -⟩)
  · exact earlier.le
  · exact together.le

theorem OnSchedule.change (p : Nat) (proc : Sleeper) : OnSchedule (.change p proc :: history)
      { state with proc := Function.update state.proc p proc } list := by
  have unconcerned : ∀ timer, ¬ (TimerEvent.change p proc).Concerns timer := fun _ => id
  have sameTicks : ticks (.change p proc :: history) = ticks history := rfl
  refine ⟨schedule.queued.of_same rfl rfl, schedule.bounded, ?_, ?_, ?_⟩
  · intro timer deadline
    simp only [sameTicks, appointed_cons (unconcerned timer)]
    exact schedule.due timer deadline
  · exact schedule.ordered.imp fun before => before.cons (unconcerned _) (unconcerned _)
  · intro timer owner deadline position appointed
    rw [appointed_cons (unconcerned timer)] at appointed
    exact schedule.owner _ _ _ _ appointed

theorem OnSchedule.del (queued : Queued next (removeDelta timer list))
    (owners : ∀ timer, (next.timer timer).proc = (state.timer timer).proc) :
    OnSchedule (.del timer :: history) next (removeDelta timer list) := by
  have unconcerned : ∀ other, other ≠ timer → ¬ (TimerEvent.del timer).Concerns other :=
    fun other apart same => apart same.symm
  have sameTicks : ticks (.del timer :: history) = ticks history := rfl
  have kept := fun now => deadlines_removeDelta now timer schedule.queued.nodup
  refine ⟨queued, ?_, ?_, ?_, ?_⟩
  · intro entry member
    rw [kept, mem_filter] at member
    exact schedule.bounded entry member.1
  · intro other deadline
    rw [sameTicks, kept, mem_filter, schedule.due]
    by_cases isTimer : other = timer
    · simp [isTimer, not_appointed_del]
    · simp [isTimer, appointed_cons (unconcerned other isTimer)]
  · rw [sameTicks, kept]
    apply (List.Pairwise.and_mem.mp (schedule.ordered.filter _)).imp
    rintro first second ⟨firstMem, secondMem, before⟩
    have apartFirst : first.1 ≠ timer := by simpa using (mem_filter.mp firstMem).2
    have apartSecond : second.1 ≠ timer := by simpa using (mem_filter.mp secondMem).2
    exact before.cons (unconcerned _ apartFirst) (unconcerned _ apartSecond)
  intro other owner deadline position appointed
  by_cases isTimer : other = timer
  · subst isTimer
    exact absurd appointed not_appointed_del
  rw [appointed_cons (unconcerned other isTimer)] at appointed
  rw [owners]
  exact schedule.owner _ _ _ _ appointed

theorem OnSchedule.add {proc expires : Nat} (absent : timer ∉ list.map Prod.fst)
    (positive : 0 < expires) (inRange : expires < 2 ^ 32)
    (queued : Queued next (insertDelta timer expires list)) (own : (next.timer timer).proc = proc)
    (owners : ∀ other, other ≠ timer → (next.timer other).proc = (state.timer other).proc) :
    OnSchedule (.add timer proc expires :: history) next (insertDelta timer expires list) := by
  have unconcerned : ∀ other, other ≠ timer →
      ¬ (TimerEvent.add timer proc expires).Concerns other :=
    fun other apart same => apart same.symm
  have sameTicks : ticks (.add timer proc expires :: history) = ticks history := rfl
  have inserted := deadlines_insertDelta (ticks history) expires timer list
  have apart : ∀ entry ∈ deadlines (ticks history) list, entry.1 ≠ timer := by
    intro entry member same
    have listed : entry.1 ∈ (deadlines (ticks history) list).map Prod.fst :=
      mem_map_of_mem member
    rw [map_fst_deadlines, same] at listed
    exact absent listed
  refine ⟨queued, ?_, ?_, ?_, ?_⟩
  · rw [bounded_iff (ticks history), inserted]
    intro entry member
    rcases mem_insertDeadline.mp member with rfl | old
    · simpa using inRange
    · exact (bounded_iff _).mp schedule.bounded entry old
  · intro other deadline
    rw [sameTicks, inserted, mem_insertDeadline]
    by_cases isTimer : other = timer
    · subst isTimer
      have notOld : (other, deadline) ∉ deadlines (ticks history) list :=
        fun member => apart _ member rfl
      simp only [notOld, or_false, appointed_add, Prod.mk.injEq, true_and]
      constructor
      · rintro rfl
        exact ⟨by omega, proc, history.length, rfl, rfl, rfl⟩
      · rintro ⟨-, -, -, -, deadlineEq, -⟩
        exact deadlineEq
    · simp only [appointed_cons (unconcerned other isTimer), Prod.mk.injEq, isTimer, false_and,
        false_or]
      exact schedule.due other deadline
  · rw [sameTicks, inserted]
    apply pairwise_insertDeadline
    · apply (List.Pairwise.and_mem.mp schedule.ordered).imp
      rintro first second ⟨firstMem, secondMem, before⟩
      exact before.cons (unconcerned _ (apart _ firstMem)) (unconcerned _ (apart _ secondMem))
    · exact schedule.sorted
    · intro entry member notLater
      rcases Nat.lt_or_eq_of_le notLater with earlier | together
      · exact .inl earlier
      refine .inr ⟨together, ?_⟩
      intro proc₁ deadline₁ position₁ proc₂ deadline₂ position₂ old new
      rw [appointed_cons (unconcerned _ (apart _ member))] at old
      rw [(appointed_add.mp new).2.2]
      exact old.position_lt
    · intro entry _ later
      exact .inl later
  intro other owner deadline position appointed
  by_cases isTimer : other = timer
  · subst isTimer
    rw [own, (appointed_add.mp appointed).1]
  rw [appointed_cons (unconcerned other isTimer)] at appointed
  rw [owners other isTimer]
  exact schedule.owner _ _ _ _ appointed

theorem OnSchedule.tick (queued : Queued next (unexpired (countDown list)))
    (owners : ∀ timer, (next.timer timer).proc = (state.timer timer).proc) :
    OnSchedule (.tick :: history) next (unexpired (countDown list)) := by
  have unconcerned : ∀ timer, ¬ TimerEvent.tick.Concerns timer := fun _ => id
  have nextTick : ticks (.tick :: history) = ticks history + 1 := rfl
  have kept : deadlines (ticks history + 1) (unexpired (countDown list)) =
      (deadlines (ticks history) list).filter fun entry => ticks history + 1 < entry.2 := by
    rw [deadlines_unexpired, deadlines_countDown schedule.waits]
  refine ⟨queued, ?_, ?_, ?_, ?_⟩
  · rw [bounded_iff (ticks history + 1), kept]
    intro entry member
    have inRange := (bounded_iff _).mp schedule.bounded entry (mem_filter.mp member).1
    omega
  · intro timer deadline
    simp only [nextTick, kept, mem_filter, schedule.due, appointed_cons (unconcerned timer),
      decide_eq_true_eq]
    constructor
    · rintro ⟨⟨-, appointed⟩, later⟩
      exact ⟨later, appointed⟩
    · rintro ⟨later, appointed⟩
      exact ⟨⟨by omega, appointed⟩, later⟩
  · rw [nextTick, kept]
    exact (schedule.ordered.filter _).imp fun before =>
      before.cons (unconcerned _) (unconcerned _)
  intro timer owner deadline position appointed
  rw [appointed_cons (unconcerned timer)] at appointed
  rw [owners]
  exact schedule.owner _ _ _ _ appointed

theorem OnSchedule.mem_expired : timer ∈ expiredItems (countDown list) ↔
      ∃ proc position, Appointed history timer proc (ticks history + 1) position := by
  rw [mem_expiredItems, deadlines_countDown schedule.waits, schedule.due]
  simp

theorem OnSchedule.expired_ordered :
    (expiredItems (countDown list)).Pairwise (AddedBefore history) := by
  rw [expiredItems_eq_filter (ticks history + 1), deadlines_countDown schedule.waits, pairwise_map]
  apply (List.Pairwise.and_mem.mp (schedule.ordered.filter _)).imp
  rintro first second ⟨firstMem, secondMem, earlier | ⟨-, added⟩⟩
  · have firstDue : first.2 = ticks history + 1 := by simpa using (mem_filter.mp firstMem).2
    have secondDue : second.2 = ticks history + 1 := by simpa using (mem_filter.mp secondMem).2
    omega
  · exact added

/-- What one event does to the timers: it fires `fired`. -/
structure Fired (history : List TimerEvent) (state : TimerState) (event : TimerEvent)
    (next : TimerState) (fired : List Nat) : Prop where
  woken : next.woken = state.woken ++ fired
  due : ∀ timer, timer ∈ fired ↔ event = .tick ∧
    ∃ proc position, Appointed history timer proc (ticks history + 1) position
  ordered : fired.Pairwise (AddedBefore history)
  awake : ∀ timer ∈ fired, ∀ proc position,
    Appointed history timer proc (ticks history + 1) position → (next.proc proc).state = .runnable

omit schedule in
theorem fired_nil (notTick : event ≠ .tick)
    (woken : next.woken = state.woken) : Fired history state event next [] :=
  ⟨by simpa using woken, by simp [notTick], List.Pairwise.nil, by simp⟩

theorem OnSchedule.add_ends {expires : Nat} (alone : state.ListEmpty timer) (positive : 0 < expires)
    (inRange : expires < 2 ^ 32) (proc fuel : Nat) :
    Ends (do TimerRing.timerInit timer proc expires; addTimer fuel timer : TimerM PUnit)
      (fun _ next => (∃ list', OnSchedule (.add timer proc expires :: history) next list') ∧
        next.woken = state.woken)
      (fun fault => fault = .unfinished ∧ fuel ≤ list.length) state := by
  have absent := schedule.queued.listEmpty_iff.mp alone
  refine (addTimer_ends (schedule.queued.timerInit absent proc expires) absent
    (by simp) positive).mono ?_ fun _ stopped => stopped
  rintro _ next ⟨queued, -, woken, owners⟩
  refine ⟨⟨_, schedule.add absent positive inRange queued ?_ ?_⟩, woken⟩
  · rw [owners]
    simp
  intro other apart
  rw [owners]
  simp [apart]

theorem OnSchedule.step (step : TimerStep state event next) :
    (∃ list', OnSchedule (event :: history) next list') ∧
      ∃ fired, Fired history state event next fired := by
  cases step with
  | @add _ timer proc expires fuel alone positive inRange returns =>
    have ends := schedule.add_ends alone positive inRange proc fuel
    rw [Ends, returns] at ends
    exact ⟨ends.1, [], fired_nil (by simp) ends.2⟩
  | @del _ timer returns =>
    have ends := delTimer_ends timer schedule.queued schedule.bounded
    rw [Ends, returns] at ends
    obtain ⟨queued, -, woken, owners⟩ := ends
    exact ⟨⟨_, schedule.del queued owners⟩, [], fired_nil (by simp) woken⟩
  | tick fuel returns =>
    have ends := runTimerList_ends fuel schedule.queued schedule.bounded schedule.waits
    rw [Ends, returns] at ends
    obtain ⟨queued, awakened⟩ := ends
    refine ⟨⟨_, schedule.tick queued awakened.owner⟩, _, awakened.woken, ?_,
      schedule.expired_ordered, ?_⟩
    · intro timer
      simpa using schedule.mem_expired
    intro timer member proc position appointed
    rw [← schedule.owner _ _ _ _ appointed]
    exact awakened.runnable timer member
  | change p proc => exact ⟨⟨list, schedule.change p proc⟩, [], fired_nil (by simp) rfl⟩

end

theorem TimerRun.onSchedule (run : TimerRun history state) :
    ∃ list, OnSchedule history state list := by
  induction run with
  | start initial => exact ⟨[], onSchedule_initial initial⟩
  | step _ step ih =>
    obtain ⟨list, schedule⟩ := ih
    exact (schedule.step step).1

/-- In every run, the head of the list has time left, every event fires exactly
the timers whose appointment is in the tick it brings, in the order in which they
were added, and no call hangs; a tick is refused only for a timer whose process
waits uninterruptibly or is a zombie. -/
theorem timers_fire_on_time (run : TimerRun history state) :
    (∀ timer, listNext state.links none = some timer → 0 < (state.timer timer).expires) ∧
      (∀ event next, TimerStep state event next → ∃ fired, Fired history state event next fired) ∧
      (∀ timer proc expires, state.ListEmpty timer → 0 < expires → expires < 2 ^ 32 →
        ∃ next, TimerStep state (.add timer proc expires) next) ∧
      (∀ timer, ∃ next, TimerStep state (.del timer) next) ∧
      ((∀ timer proc position, Appointed history timer proc (ticks history + 1) position →
          ¬ (state.proc proc).Uninterruptible ∧ (state.proc proc).state ≠ .zombie) →
        ∃ next, TimerStep state .tick next) := by
  obtain ⟨list, schedule⟩ := run.onSchedule
  refine ⟨?_, ?_, ?_, ?_, ?_⟩
  · intro timer leads
    rw [schedule.queued.next_header] at leads
    have waits := schedule.waits
    cases list with
    | nil => simp [headLink] at leads
    | cons first rest =>
      obtain rfl : first.1 = timer := by simpa [headLink] using leads
      rw [schedule.queued.waits first (by simp)]
      exact waits
  · intro event next step
    exact (schedule.step step).2
  · intro timer proc expires alone positive inRange
    have ends := schedule.add_ends alone positive inRange proc (list.length + 1)
    obtain ⟨⟨⟩, next, returns, -⟩ := (ends.mono (fun _ _ => id) fun _ cut => by omega).returns
    exact ⟨next, .add _ alone positive inRange returns⟩
  · intro timer
    obtain ⟨⟨⟩, next, returns, -⟩ := (delTimer_ends timer schedule.queued schedule.bounded).returns
    exact ⟨next, .del returns⟩
  intro wakeable
  have ends := runTimerList_ends ((expiredItems (countDown list)).length + 1)
    schedule.queued schedule.bounded schedule.waits
  have notRefused : ∀ fault, ¬ Refused ((expiredItems (countDown list)).length + 1)
      (expiredItems (countDown list)) state fault := by
    rintro fault (⟨-, cut⟩ | ⟨timer, expired, stuck⟩)
    · omega
    obtain ⟨proc, position, appointed⟩ := schedule.mem_expired.mp expired
    rw [schedule.owner _ _ _ _ appointed] at stuck
    obtain ⟨interruptible, alive⟩ := wakeable _ _ _ appointed
    cases fault with
    | timerUninterruptible => exact interruptible stuck
    | wakeupZombie => exact alive stuck
    | timerNull => exact stuck
    | timerLinked => exact stuck
    | timerExpired => exact stuck
    | unfinished => exact stuck
  obtain ⟨⟨⟩, next, returns, -⟩ := (ends.mono (fun _ _ => id) notRefused).returns
  exact ⟨next, .tick _ returns⟩

end Steps

/-- No timer is set, and every process sleeps. -/
def idleTimers : TimerState where
  links := ⟨id, id⟩
  timer := fun _ => ⟨0, 0⟩
  proc := fun _ => ⟨.sleeping, WT_INTERRUPTED⟩
  woken := []

/-- The timer 6 fires in the second tick, after the timer 5 before it was deleted. -/
theorem timers_fire_on_time_after_deletion :
    ∃ state next fired, TimerRun [.tick, .del 5, .add 6 2 2, .add 5 1 1] state ∧
      TimerStep state .tick next ∧ next.woken = state.woken ++ fired ∧ 6 ∈ fired ∧ 5 ∉ fired := by
  obtain ⟨one, two, three, state, first, second, deleted, ticked, asleep⟩ :
      ∃ one two three state, TimerStep idleTimers (.add 5 1 1) one ∧
        TimerStep one (.add 6 2 2) two ∧ TimerStep two (.del 5) three ∧
        TimerStep three .tick state ∧ state.proc = idleTimers.proc :=
    ⟨_, _, _, _, .add 1 rfl (by decide) (by decide) rfl, .add 2 rfl (by decide) (by decide) rfl,
      .del rfl, .tick 1 rfl, rfl⟩
  have idle : TimerRun [] idleTimers := .start ⟨rfl, rfl⟩
  have run := (((idle.step first).step second).step deleted).step ticked
  obtain ⟨-, fires, -, -, serves⟩ := timers_fire_on_time run
  obtain ⟨next, fired⟩ := serves fun _ _ _ _ => by
    have awaits : ¬ Sleeper.Uninterruptible ⟨.sleeping, WT_INTERRUPTED⟩ :=
      fun stuck => absurd stuck.2 (by decide)
    rw [asleep]
    exact ⟨awaits, ProcState.noConfusion⟩
  obtain ⟨items, firing⟩ := fires .tick next fired
  refine ⟨state, next, items, run, fired, firing.woken, (firing.due 6).mpr ⟨rfl, 2, 1, ?_⟩, ?_⟩
  · exact ⟨[.tick, .del 5], 2, [.add 5 1 1], rfl, by simp [TimerEvent.Concerns], rfl, rfl⟩
  · intro inside
    obtain ⟨-, proc, position, appointed⟩ := (firing.due 5).mp inside
    rw [appointed_cons (by exact id)] at appointed
    exact not_appointed_del appointed

end TimerRing

end UcoreSmp
