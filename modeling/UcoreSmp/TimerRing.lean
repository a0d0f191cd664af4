import UcoreSmp.KernelList
import UcoreSmp.Sched

/-!
# The timer list

`add_timer`, `del_timer` and `run_timer_list` of `kern/schedule/sched.c` on the
ring of `timer_link` entries.  Each timer stores only the time it waits after the
timer before it; the three functions are shown to insert into, remove from and
count down the list of differences that the ring represents, which is the list in
the state of the scheduler.
-/

namespace UcoreSmp

open List

namespace TimerRing

/-- `timer_t`, without its link. -/
structure Timer where
  expires : Nat
  proc : Nat
  deriving DecidableEq, Repr

structure Sleeper where
  state : ProcState
  waitState : BitVec 32
  deriving DecidableEq, Repr

/-- The timers, their ring around `timer_list` (`none`) and the processes. -/
structure TimerState where
  links : Links (Option Nat)
  timer : Nat → Timer
  proc : Nat → Sleeper
  /-- the timers whose process `run_timer_list` has woken, in this order -/
  woken : List Nat

inductive TimerFault where
  | timerNull
  | timerLinked
  | timerExpired
  | timerUninterruptible
  | wakeupZombie
  /-- a loop that has not come to its end -/
  | unfinished
  deriving DecidableEq, Repr

abbrev TimerM := Routine TimerFault TimerState

def TimerState.ListEmpty (state : TimerState) (timer : Nat) : Prop :=
  listNext state.links (some timer) = some timer

instance (state : TimerState) (timer : Nat) : Decidable (state.ListEmpty timer) :=
  inferInstanceAs (Decidable (_ = _))

def TimerState.setExpires (state : TimerState) (timer expires : Nat) : TimerState :=
  { state with
    timer := Function.update state.timer timer { state.timer timer with expires := expires } }

def timerInit (timer proc expires : Nat) : TimerM PUnit :=
  modify fun state => { state with
    timer := Function.update state.timer timer ⟨expires, proc⟩
    links := listInit state.links (some timer) }

/-- The loop of `add_timer`; it returns the entry to insert before. -/
def addTimerLoop : Nat → Nat → Option Nat → TimerM (Option Nat)
  | 0, _, _ => throw .unfinished
  | _ + 1, _, none => pure none
  | fuel + 1, timer, some next => do
    let state ← get
    let own := (state.timer timer).expires
    let other := (state.timer next).expires
    if own < other then do
      set (state.setExpires next (other - own))
      pure (some next)
    else do
      set (state.setExpires timer (own - other))
      addTimerLoop fuel timer (listNext state.links (some next))

def addTimer (fuel timer : Nat) : TimerM PUnit := do
  let state ← get
  check ((state.timer timer).expires > 0) .timerNull
  check (state.ListEmpty timer) .timerLinked
  let le ← addTimerLoop fuel timer (listNext state.links none)
  modify fun state => { state with links := listAddBefore state.links le (some timer) }

def handOnExpires (timer : Nat) : TimerM PUnit := do
  let state ← get
  match listNext state.links (some timer) with
  | none => pure PUnit.unit
  | some next =>
    let sum := (state.timer next).expires + (state.timer timer).expires
    set (state.setExpires next (sum % 2 ^ 32))

def delTimer (timer : Nat) : TimerM PUnit := do
  let state ← get
  if state.ListEmpty timer then pure PUnit.unit
  else do
    if (state.timer timer).expires = 0 then pure PUnit.unit else handOnExpires timer
    modify fun state => { state with links := listDelInit state.links (some timer) }

/-- `wakeup_proc` of a process that is no zombie, up to the run queue. -/
def TimerState.wakeupProc (state : TimerState) (p : Nat) : TimerState :=
  if (state.proc p).state ≠ .runnable then
    { state with proc := Function.update state.proc p ⟨.runnable, 0⟩ }
  else state

/-- The loop of `run_timer_list` over the timers that have expired. -/
def runExpired : Nat → Nat → TimerM PUnit
  | 0, _ => throw .unfinished
  | fuel + 1, timer => do
    let state ← get
    if (state.timer timer).expires = 0 then do
      let le := listNext state.links (some timer)
      let p := (state.timer timer).proc
      check ((state.proc p).waitState ≠ 0 →
        (state.proc p).waitState &&& WT_INTERRUPTED ≠ 0) .timerUninterruptible
      check ((state.proc p).state ≠ .zombie) .wakeupZombie
      modify fun state => { state.wakeupProc p with woken := state.woken ++ [timer] }
      delTimer timer
      match le with
      | none => pure PUnit.unit
      | some next => runExpired fuel next
    else pure PUnit.unit

/-- `run_timer_list`, before the tick it passes to the scheduling class. -/
def runTimerList (fuel : Nat) : TimerM PUnit := do
  let state ← get
  match listNext state.links none with
  | none => pure PUnit.unit
  | some timer => do
    check ((state.timer timer).expires ≠ 0) .timerExpired
    set (state.setExpires timer ((state.timer timer).expires - 1))
    runExpired fuel timer

/-! ## What the ring represents -/

def linksOf (list : List (Nat × Nat)) : List (Option Nat) :=
  list.map fun entry => some entry.1

def headLink : List (Nat × Nat) → Option Nat
  | [] => none
  | entry :: _ => some entry.1

variable {list front back : List (Nat × Nat)} {timer wait : Nat} {state next : TimerState}
  {links : Links (Option Nat)}

@[simp]
theorem headD_linksOf (list : List (Nat × Nat)) : (linksOf list).headD none = headLink list := by
  cases list with
  | nil => rfl
  | cons entry rest => rfl

@[simp]
theorem linksOf_append (front back : List (Nat × Nat)) :
    linksOf (front ++ back) = linksOf front ++ linksOf back :=
  map_append

@[simp]
theorem linksOf_cons (entry : Nat × Nat) (rest : List (Nat × Nat)) :
    linksOf (entry :: rest) = some entry.1 :: linksOf rest :=
  rfl

@[simp]
theorem mem_linksOf : some timer ∈ linksOf list ↔ timer ∈ list.map Prod.fst := by
  simp [linksOf]

@[simp]
theorem linksOf_delayHead (wait : Nat) (list : List (Nat × Nat)) :
    linksOf (delayHead wait list) = linksOf list := by
  cases list with
  | nil => rfl
  | cons entry rest => rfl

/-- The ring represents the list of differences, and every other timer is alone
on its ring. -/
structure Queued (state : TimerState) (list : List (Nat × Nat)) : Prop where
  ring : state.links.IsRing none (linksOf list)
  waits : ∀ entry ∈ list, (state.timer entry.1).expires = entry.2
  unlinked : ∀ timer, timer ∉ list.map Prod.fst → state.ListEmpty timer

theorem nodup_of_isRing (ring : links.IsRing none (linksOf list)) : (list.map Prod.fst).Nodup := by
  have nodup := (nodup_cons.mp ring.2).2
  have regrouped : linksOf list = (list.map Prod.fst).map some := by
    simp [linksOf, Function.comp_def]
  rw [regrouped] at nodup
  exact nodup.of_map some

theorem Queued.nodup (queued : Queued state list) : (list.map Prod.fst).Nodup :=
  nodup_of_isRing queued.ring

theorem Queued.not_listEmpty (queued : Queued state list) (member : timer ∈ list.map Prod.fst) :
    ¬ state.ListEmpty timer := by
  obtain ⟨entry, listed, rfl⟩ := mem_map.mp member
  obtain ⟨front, back, rfl⟩ := append_of_mem listed
  have nodup := queued.nodup
  have ring := queued.ring
  rw [linksOf_append, linksOf_cons] at ring
  intro alone
  have leads : headLink back = some entry.1 := by
    rw [← headD_linksOf, ← ring.next_entry]
    exact alone
  cases back with
  | nil => simp [headLink] at leads
  | cons other back =>
    have same : other.1 = entry.1 := by simpa [headLink] using leads
    simp [nodup_append, same] at nodup

theorem Queued.listEmpty_iff (queued : Queued state list) :
    state.ListEmpty timer ↔ timer ∉ list.map Prod.fst :=
  ⟨fun alone member => queued.not_listEmpty member alone, queued.unlinked timer⟩

theorem Queued.next_header
    (queued : Queued state list) : listNext state.links none = headLink list := by
  rw [← headD_linksOf]
  exact queued.ring.next_header

theorem listNext_entry
    {entry : Nat × Nat} (ring : links.IsRing none (linksOf (front ++ entry :: back))) :
    listNext links (some entry.1) = headLink back := by
  rw [linksOf_append, linksOf_cons] at ring
  rw [← headD_linksOf]
  exact ring.next_entry

variable {fuel : Nat}

/-- What the loop of `add_timer` leaves untouched. -/
structure SameButExpires (state next : TimerState) : Prop where
  links : next.links = state.links
  proc : next.proc = state.proc
  woken : next.woken = state.woken
  owner : ∀ timer, (next.timer timer).proc = (state.timer timer).proc

theorem sameButExpires_setExpires (state : TimerState) (timer expires : Nat) :
    SameButExpires state (state.setExpires timer expires) := by
  refine ⟨rfl, rfl, rfl, fun other => ?_⟩
  by_cases same : other = timer
  · simp [TimerState.setExpires, same]
  · simp [TimerState.setExpires, same]

theorem SameButExpires.trans {first second third : TimerState}
    (before : SameButExpires first second) (after : SameButExpires second third) :
    SameButExpires first third :=
  ⟨after.links.trans before.links, after.proc.trans before.proc, after.woken.trans before.woken,
    fun timer => (after.owner timer).trans (before.owner timer)⟩

theorem setExpires_other {other expires : Nat} (apart : other ≠ timer) :
    ((state.setExpires timer expires).timer other).expires = (state.timer other).expires := by
  simp [TimerState.setExpires, apart]

theorem setExpires_self (state : TimerState) (timer expires : Nat) :
    ((state.setExpires timer expires).timer timer).expires = expires := by
  simp [TimerState.setExpires]

theorem waits_setExpires
    {other delta expires : Nat} (nodup : ((front ++ (other, delta) :: back).map Prod.fst).Nodup)
    (waits : ∀ entry ∈ front ++ (other, delta) :: back, (state.timer entry.1).expires = entry.2) :
    ∀ entry ∈ front ++ (other, expires) :: back,
      ((state.setExpires other expires).timer entry.1).expires = entry.2 := by
  rw [map_append, map_cons, nodup_middle, nodup_cons, ← map_append] at nodup
  have untouched : ∀ entry ∈ front ++ back,
      ((state.setExpires other expires).timer entry.1).expires = entry.2 := by
    intro entry member
    have listed : entry.1 ∈ (front ++ back).map Prod.fst := mem_map_of_mem member
    have apart : entry.1 ≠ other := fun same => nodup.1 (same ▸ listed)
    rw [setExpires_other apart]
    apply waits
    simp only [mem_append, mem_cons] at member ⊢
    tauto
  intro entry member
  simp only [mem_append, mem_cons] at member
  rcases member with before | rfl | after
  · exact untouched entry (by simp [before])
  · exact setExpires_self _ _ _
  · exact untouched entry (by simp [after])

/-- The loop has found the place of the timer in the list of differences and
adjusted the times on both sides of it. -/
def PlaceFound (timer wait : Nat) (front back : List (Nat × Nat)) (le : Option Nat)
    (next : TimerState) : Prop :=
  ∃ before rest after, front ++ insertDelta timer wait back = before ++ (timer, rest) :: after ∧
    le = headLink after ∧
    linksOf (before ++ after) = linksOf (front ++ back) ∧
    ∀ entry ∈ before ++ (timer, rest) :: after, (next.timer entry.1).expires = entry.2

theorem addTimerLoop_ends (ring : state.links.IsRing none (linksOf (front ++ back)))
    (waits : ∀ entry ∈ front ++ back, (state.timer entry.1).expires = entry.2)
    (absent : timer ∉ (front ++ back).map Prod.fst) (own : (state.timer timer).expires = wait) :
    Ends (addTimerLoop fuel timer (headLink back))
      (fun le next => SameButExpires state next ∧ PlaceFound timer wait front back le next)
      (fun fault => fault = .unfinished ∧ fuel ≤ back.length) state := by
  -- the loop has passed `front`, whose times are taken off the timer's own
  induction fuel generalizing front back wait state with
  | zero => simp [addTimerLoop]
  | succ fuel ih =>
    cases back with
    | nil =>
      refine ⟨⟨rfl, rfl, rfl, fun _ => rfl⟩, front, wait, [], rfl, rfl, rfl, ?_⟩
      intro entry member
      rcases mem_append.mp member with passed | isTimer
      · exact waits entry (by simp [passed])
      · rw [mem_singleton.mp isTimer]
        exact own
    | cons first back =>
      obtain ⟨other, delta⟩ := first
      have otherWaits : (state.timer other).expires = delta := waits (other, delta) (by simp)
      have nodup := nodup_of_isRing ring
      simp only [headLink, addTimerLoop, ends_bind, ends_get, ends_ite, ends_set, ends_pure,
        own, otherWaits]
      constructor
      · intro shorter
        refine ⟨sameButExpires_setExpires _ _ _, front, wait, (other, delta - wait) :: back,
          by simp [insertDelta, shorter], rfl, by simp, ?_⟩
        intro entry member
        simp only [mem_append, mem_cons] at member
        have changed : ∀ entry ∈ front ++ (other, delta - wait) :: back,
            ((state.setExpires other (delta - wait)).timer entry.1).expires = entry.2 :=
          waits_setExpires nodup waits
        rcases member with passed | rfl | rfl | later
        · exact changed entry (by simp [passed])
        · have apart : timer ≠ other := by
            rintro rfl
            simp at absent
          rw [setExpires_other apart]
          exact own
        · exact changed _ (by simp)
        · exact changed entry (by simp [later])
      intro longer
      have shifted : front ++ (other, delta) :: back = (front ++ [(other, delta)]) ++ back := by
        simp
      rw [listNext_entry ring]
      rw [shifted] at ring absent waits
      have stillWaits : ∀ entry ∈ front ++ [(other, delta)] ++ back,
          ((state.setExpires timer (wait - delta)).timer entry.1).expires = entry.2 := by
        intro entry member
        have apart : entry.1 ≠ timer := by
          rintro rfl
          exact absent (mem_map_of_mem member)
        rw [setExpires_other apart]
        exact waits entry member
      refine Ends.mono (ih ring stillWaits absent (setExpires_self _ _ _)) ?_ ?_
      · rintro le next ⟨same, before, rest, after, listEq, leEq, linksEq, expires⟩
        refine ⟨(sameButExpires_setExpires _ _ _).trans same, before, rest, after, ?_, leEq,
          ?_, expires⟩
        · rw [← listEq]
          simp [insertDelta, longer]
        · rw [linksEq, shifted]
      · rintro fault ⟨unfinished, short⟩
        exact ⟨unfinished, by simp; omega⟩

theorem addTimer_ends (queued : Queued state list)
    (absent : timer ∉ list.map Prod.fst) (own : (state.timer timer).expires = wait)
    (positive : 0 < wait) :
    Ends (addTimer fuel timer)
      (fun _ next => Queued next (insertDelta timer wait list) ∧ next.proc = state.proc ∧
        next.woken = state.woken ∧ ∀ timer, (next.timer timer).proc = (state.timer timer).proc)
      (fun fault => fault = .unfinished ∧ fuel ≤ list.length) state := by
  have alone := queued.unlinked timer absent
  simp only [addTimer, ends_bind, ends_get, ends_check, ends_modify, own, queued.next_header]
  refine ⟨fun _ => ⟨fun _ => ?_, fun linked => absurd alone linked⟩,
    fun notPositive => absurd positive notPositive⟩
  have ringHere : state.links.IsRing none (linksOf ([] ++ list)) := queued.ring
  refine (addTimerLoop_ends ringHere queued.waits absent own).mono ?_ fun _ stopped => stopped
  rintro le next ⟨same, before, rest, after, listEq, rfl, linksEq, expires⟩
  have placed : insertDelta timer wait list = before ++ (timer, rest) :: after := listEq
  have ring : next.links.IsRing none (linksOf before ++ linksOf after) := by
    rw [← linksOf_append, linksEq, same.links]
    exact queued.ring
  have fresh : some timer ∉ none :: (linksOf before ++ linksOf after) := by
    rw [← linksOf_append, linksEq]
    simpa using absent
  rw [placed]
  refine ⟨⟨?_, expires, ?_⟩, same.proc, same.woken, same.owner⟩
  · have added := isRing_listAddBefore ring fresh
    rw [headD_linksOf] at added
    simpa using added
  intro other notListed
  have apart : other ≠ timer := by
    rintro rfl
    simp at notListed
  have absentBefore : some other ∉ none :: (linksOf before ++ linksOf after) := by
    simp only [map_append, map_cons, mem_append, mem_cons, not_or] at notListed
    simp only [mem_cons, mem_append, mem_linksOf, not_or]
    exact ⟨by simp, notListed.1, notListed.2.2⟩
  have apartLink : some other ≠ some timer := by simpa using apart
  have kept := listNext_listAddBefore_of_notMem ring apartLink absentBefore
  rw [headD_linksOf] at kept
  have still : state.ListEmpty other := by
    apply queued.unlinked
    rw [← mem_linksOf, ← nil_append list, ← linksEq, linksOf_append]
    exact fun member => absentBefore (mem_cons_of_mem _ member)
  exact kept.trans (by rw [same.links]; exact still)

/-- Every timer is due within the range of `unsigned int`. -/
def Bounded (list : List (Nat × Nat)) : Prop :=
  ∀ entry ∈ deadlines 0 list, entry.2 < 2 ^ 32

theorem bounded_iff (now : Nat) :
    Bounded list ↔ ∀ entry ∈ deadlines now list, entry.2 < now + 2 ^ 32 := by
  have shifted := deadlines_add 0 now list
  rw [Nat.zero_add] at shifted
  rw [shifted]
  simp only [Bounded, mem_map, forall_exists_index, and_imp]
  constructor
  · rintro bounded _ entry member rfl
    have inRange := bounded entry member
    omega
  intro bounded entry member
  have inRange := bounded _ entry member rfl
  omega

theorem handOnExpires_ends
    (ring : state.links.IsRing none (linksOf (front ++ (timer, wait) :: back)))
    (waits : ∀ entry ∈ front ++ (timer, wait) :: back, (state.timer entry.1).expires = entry.2)
    (bounded : Bounded (front ++ (timer, wait) :: back)) :
    Ends (handOnExpires timer) (fun _ next => SameButExpires state next ∧
        ∀ entry ∈ front ++ delayHead wait back, (next.timer entry.1).expires = entry.2)
      (fun _ => False) state := by
  have leads : listNext state.links (some timer) = headLink back := listNext_entry ring
  cases back with
  | nil =>
    simp only [handOnExpires, ends_bind, ends_get, leads, headLink, ends_pure]
    refine ⟨⟨rfl, rfl, rfl, fun _ => rfl⟩, ?_⟩
    intro entry member
    exact waits entry (by simpa [delayHead] using Or.inl member)
  | cons first back =>
    obtain ⟨other, delta⟩ := first
    have otherWaits : (state.timer other).expires = delta := waits (other, delta) (by simp)
    have ownWaits : (state.timer timer).expires = wait := waits (timer, wait) (by simp)
    obtain ⟨deadline, later, member⟩ := exists_deadline_add 0 front back timer other wait delta
    have inRange := bounded _ member
    have noOverflow : (delta + wait) % 2 ^ 32 = delta + wait :=
      Nat.mod_eq_of_lt (by simp only at inRange; omega)
    simp only [handOnExpires, ends_bind, ends_get, leads, headLink, ends_set, otherWaits,
      ownWaits, noOverflow]
    refine ⟨sameButExpires_setExpires _ _ _, ?_⟩
    have shifted : front ++ (timer, wait) :: (other, delta) :: back =
        (front ++ [(timer, wait)]) ++ (other, delta) :: back := by simp
    have nodup := nodup_of_isRing ring
    rw [shifted] at nodup waits
    have changed : ∀ entry ∈ (front ++ [(timer, wait)]) ++ (other, delta + wait) :: back,
        ((state.setExpires other (delta + wait)).timer entry.1).expires = entry.2 :=
      waits_setExpires nodup waits
    intro entry listed
    apply changed
    simp only [delayHead, mem_append, mem_cons] at listed ⊢
    tauto

theorem Queued.taken_off
    (queued : Queued state (front ++ (timer, wait) :: back)) (same : SameButExpires state next)
    (waits : ∀ entry ∈ front ++ delayHead wait back, (next.timer entry.1).expires = entry.2) :
    Queued { next with links := listDelInit next.links (some timer) }
      (front ++ delayHead wait back) := by
  have ring : next.links.IsRing none (linksOf front ++ some timer :: linksOf back) := by
    rw [same.links]
    simpa using queued.ring
  refine ⟨?_, waits, ?_⟩
  · simpa using isRing_listDelInit ring
  intro other absent
  by_cases isTimer : other = timer
  · rw [isTimer]
    exact listNext_listDelInit_self _ _
  have outside : other ∉ (front ++ (timer, wait) :: back).map Prod.fst := by
    simp only [map_append, map_fst_delayHead, mem_append, not_or] at absent
    simp only [map_append, map_cons, mem_append, mem_cons, not_or]
    exact ⟨absent.1, isTimer, absent.2⟩
  have outsideRing : some other ∉ none :: (linksOf front ++ some timer :: linksOf back) := by
    simpa using outside
  refine (listNext_listDelInit_of_notMem ring outsideRing).trans ?_
  rw [same.links]
  exact queued.unlinked other outside

/-- `del_timer` of any timer, on the ring or not. -/
theorem delTimer_ends (timer : Nat) (queued : Queued state list) (bounded : Bounded list) :
    Ends (delTimer timer)
      (fun _ next => Queued next (removeDelta timer list) ∧ next.proc = state.proc ∧
        next.woken = state.woken ∧ ∀ timer, (next.timer timer).proc = (state.timer timer).proc)
      (fun _ => False) state := by
  unfold delTimer
  rw [ends_bind, ends_get, ends_ite, ends_pure]
  constructor
  · intro alone
    rw [removeDelta_of_notMem (queued.listEmpty_iff.mp alone)]
    exact ⟨queued, rfl, rfl, fun _ => rfl⟩
  intro linked
  have member : timer ∈ list.map Prod.fst := by
    by_contra absent
    exact linked (queued.unlinked timer absent)
  obtain ⟨entry, listed, isTimer⟩ := mem_map.mp member
  obtain ⟨front, back, rfl⟩ := append_of_mem listed
  obtain ⟨wait, rfl⟩ : ∃ wait, entry = (timer, wait) := ⟨entry.2, by rw [← isTimer]⟩
  have apartFront : timer ∉ front.map Prod.fst := by
    have nodup := queued.nodup
    rw [map_append, map_cons, nodup_middle, nodup_cons] at nodup
    exact fun inFront => nodup.1 (mem_append_left _ inFront)
  have ownWaits : (state.timer timer).expires = wait := queued.waits (timer, wait) (by simp)
  rw [removeDelta_append apartFront, removeDelta, if_pos rfl]
  simp only [ends_bind, ends_ite, ends_modify, ownWaits]
  constructor
  · intro expired
    have unchanged : ∀ entry ∈ front ++ delayHead wait back,
        (state.timer entry.1).expires = entry.2 := by
      rw [expired, delayHead_zero]
      intro entry inList
      apply queued.waits
      simp only [mem_append, mem_cons] at inList ⊢
      tauto
    refine ⟨queued.taken_off ⟨rfl, rfl, rfl, fun _ => rfl⟩ unchanged, ?_⟩
    simp
  intro _
  refine (handOnExpires_ends queued.ring queued.waits bounded).weaken ?_
  rintro _ next ⟨same, waits⟩
  exact ⟨queued.taken_off same waits, same.proc, same.woken, same.owner⟩

section RunTimerList

/-- A process that `run_timer_list` must not wake. -/
def Sleeper.Uninterruptible (proc : Sleeper) : Prop :=
  proc.waitState ≠ 0 ∧ proc.waitState &&& WT_INTERRUPTED = 0

/-- The assertion that stops `run_timer_list` at the process. -/
def Sleeper.Refuses (proc : Sleeper) : TimerFault → Prop
  | .timerUninterruptible => proc.Uninterruptible
  | .wakeupZombie => proc.state = .zombie
  | _ => False

/-- Some processes have been woken and the others left as they were. -/
structure Awakened (timers : List Nat) (state next : TimerState) : Prop where
  woken : next.woken = state.woken ++ timers
  owner : ∀ timer, (next.timer timer).proc = (state.timer timer).proc
  runnable : ∀ timer ∈ timers, (next.proc (state.timer timer).proc).state = .runnable
  others : ∀ p, next.proc p = state.proc p ∨ next.proc p = ⟨.runnable, 0⟩

variable {timers : List Nat}

theorem Awakened.refl (state : TimerState) : Awakened [] state state :=
  ⟨by simp, fun _ => rfl, by simp, fun _ => .inl rfl⟩

variable {middle : TimerState}

theorem Awakened.cons (first : Awakened [timer] state middle) (rest : Awakened timers middle next) :
    Awakened (timer :: timers) state next := by
  constructor
  · rw [rest.woken, first.woken]
    simp
  · exact fun other => (rest.owner other).trans (first.owner other)
  · intro other member
    rcases mem_cons.mp member with rfl | later
    · rcases rest.others (state.timer other).proc with same | woken
      · rw [same]
        exact first.runnable other (by simp)
      · rw [woken]
    · rw [← first.owner other]
      exact rest.runnable other later
  intro p
  rcases rest.others p with same | woken
  · rw [same]
    exact first.others p
  · exact .inr woken

theorem Awakened.refuses (awakened : Awakened timers state next) {p : Nat} {fault : TimerFault}
    (stuck : (next.proc p).Refuses fault) : (state.proc p).Refuses fault := by
  rcases awakened.others p with same | woken
  · rwa [same] at stuck
  · rw [woken] at stuck
    cases fault with
    | timerUninterruptible => exact absurd rfl stuck.1
    | wakeupZombie => cases stuck
    | timerNull => exact stuck.elim
    | timerLinked => exact stuck.elim
    | timerExpired => exact stuck.elim
    | unfinished => exact stuck.elim

theorem awakened_wakeupProc (state : TimerState) (timer : Nat) : Awakened [timer] state
      { state.wakeupProc (state.timer timer).proc with woken := state.woken ++ [timer] } := by
  by_cases asleep : (state.proc (state.timer timer).proc).state = .runnable
  · refine ⟨rfl, ?_, ?_, ?_⟩
    · simp [TimerState.wakeupProc, asleep]
    · simp [TimerState.wakeupProc, asleep]
    · simp [TimerState.wakeupProc, asleep]
  refine ⟨rfl, ?_, ?_, ?_⟩
  · simp [TimerState.wakeupProc, asleep]
  · simp [TimerState.wakeupProc, asleep]
  intro p
  by_cases isOwner : p = (state.timer timer).proc
  · right
    simp [TimerState.wakeupProc, asleep, isOwner]
  · left
    simp [TimerState.wakeupProc, asleep, isOwner]

theorem Queued.of_same (queued : Queued state list)
    (links : next.links = state.links) (timers : next.timer = state.timer) : Queued next list := by
  refine ⟨by rw [links]; exact queued.ring, by rw [timers]; exact queued.waits, ?_⟩
  intro other absent
  unfold TimerState.ListEmpty
  rw [links]
  exact queued.unlinked other absent

theorem Queued.woken (queued : Queued state list) (timer : Nat) :
    Queued { state.wakeupProc (state.timer timer).proc with woken := state.woken ++ [timer] }
      list := by
  apply queued.of_same
  · simp only [TimerState.wakeupProc]
    split <;> rfl
  · simp only [TimerState.wakeupProc]
    split <;> rfl

theorem Awakened.of_same (awakened : Awakened timers state middle)
    (procs : next.proc = middle.proc) (woken : next.woken = middle.woken)
    (owner : ∀ timer, (next.timer timer).proc = (middle.timer timer).proc) :
    Awakened timers state next :=
  ⟨woken.trans awakened.woken, fun timer => (owner timer).trans (awakened.owner timer),
    by rw [procs]; exact awakened.runnable, by rw [procs]; exact awakened.others⟩

/-- What stops `run_timer_list`: a loop cut short, or an expired timer of a
process that must not be woken. -/
def Refused (fuel : Nat) (timers : List Nat) (state : TimerState) (fault : TimerFault) : Prop :=
  (fault = .unfinished ∧ fuel ≤ timers.length) ∨
    ∃ timer ∈ timers, (state.proc (state.timer timer).proc).Refuses fault

variable {rest : List (Nat × Nat)}

theorem runExpired_ends
    (queued : Queued state ((timer, wait) :: rest)) (bounded : Bounded ((timer, wait) :: rest)) :
    Ends (runExpired fuel timer) (fun _ next => Queued next (unexpired ((timer, wait) :: rest)) ∧
        Awakened (expiredItems ((timer, wait) :: rest)) state next)
      (Refused fuel (expiredItems ((timer, wait) :: rest)) state) state := by
  induction fuel generalizing timer wait rest state with
  | zero => simp [runExpired, Refused]
  | succ fuel ih =>
    have ownWaits : (state.timer timer).expires = wait := queued.waits (timer, wait) (by simp)
    unfold runExpired
    rw [ends_bind, ends_get, ends_ite, ends_pure, ownWaits]
    constructor
    · intro expired
      subst expired
      have leads : listNext state.links (some timer) = headLink rest := by
        have ring : state.links.IsRing none (linksOf ([] ++ (timer, 0) :: rest)) := queued.ring
        exact listNext_entry ring
      have expiredEq : expiredItems ((timer, 0) :: rest) = timer :: expiredItems rest := by
        simp [expiredItems]
      have unexpiredEq : unexpired ((timer, 0) :: rest) = unexpired rest := by simp [unexpired]
      rw [expiredEq, unexpiredEq, leads, ends_bind, ends_check]
      constructor
      · intro _
        rw [ends_bind, ends_check]
        refine ⟨fun _ => ?_, fun zombie => .inr ⟨timer, mem_cons_self, not_not.mp zombie⟩⟩
        rw [ends_bind, ends_modify, ends_bind]
        refine (delTimer_ends timer (queued.woken timer) bounded).mono ?_ fun _ impossible =>
          impossible.elim
        rintro _ next ⟨stillQueued, procs, woken, owners⟩
        have removed : removeDelta timer ((timer, 0) :: rest) = rest := by simp [removeDelta]
        rw [removed] at stillQueued
        have first : Awakened [timer] state next :=
          (awakened_wakeupProc state timer).of_same procs woken owners
        cases rest with
        | nil => exact ⟨stillQueued, first⟩
        | cons second rest =>
          have restBounded : Bounded (second :: rest) := fun entry member =>
            bounded entry (by simp only [deadlines]; exact mem_cons_of_mem _ member)
          refine (ih stillQueued restBounded).mono ?_ ?_
          · rintro _ final ⟨finalQueued, later⟩
            exact ⟨finalQueued, first.cons later⟩
          rintro fault (⟨rfl, short⟩ | ⟨other, expired, stuck⟩)
          · exact .inl ⟨rfl, by simpa using short⟩
          right
          rw [first.owner other] at stuck
          exact ⟨other, mem_cons_of_mem _ expired, first.refuses stuck⟩
      intro refused
      right
      refine ⟨timer, mem_cons_self, ?_⟩
      simpa [Sleeper.Refuses, Sleeper.Uninterruptible] using refused
    intro waits
    have expiredEq : expiredItems ((timer, wait) :: rest) = [] := by
      simp [expiredItems, waits]
    have unexpiredEq : unexpired ((timer, wait) :: rest) = (timer, wait) :: rest := by
      simp [unexpired, waits]
    rw [expiredEq, unexpiredEq]
    exact ⟨queued, Awakened.refl state⟩

theorem Queued.counted (queued : Queued state ((timer, wait) :: rest)) :
    Queued (state.setExpires timer (wait - 1)) ((timer, wait - 1) :: rest) := by
  refine ⟨queued.ring, ?_, queued.unlinked⟩
  have nodup : (([] ++ (timer, wait) :: rest).map Prod.fst).Nodup := queued.nodup
  exact waits_setExpires nodup queued.waits

theorem Bounded.counted (bounded : Bounded list) (waits : HeadWaits list) :
    Bounded (countDown list) := by
  have unmoved := deadlines_countDown waits 0
  rw [bounded_iff (0 + 1)]
  intro entry member
  have inRange := bounded entry (unmoved ▸ member)
  omega

/-- `run_timer_list` counts down and fires what has expired. -/
theorem runTimerList_ends (fuel : Nat) (queued : Queued state list)
    (bounded : Bounded list) (waits : HeadWaits list) :
    Ends (runTimerList fuel) (fun _ next => Queued next (unexpired (countDown list)) ∧
        Awakened (expiredItems (countDown list)) state next)
      (Refused fuel (expiredItems (countDown list)) state) state := by
  unfold runTimerList
  rw [ends_bind, ends_get, queued.next_header]
  cases list with
  | nil => exact ⟨queued, Awakened.refl state⟩
  | cons first rest =>
    obtain ⟨timer, wait⟩ := first
    have ownWaits : (state.timer timer).expires = wait := queued.waits (timer, wait) (by simp)
    have positive : 0 < wait := waits
    simp only [headLink, ends_bind, ends_check, ends_set, ownWaits, countDown]
    refine ⟨fun _ => ?_, fun expired => absurd positive (by omega)⟩
    have same := sameButExpires_setExpires state timer (wait - 1)
    refine (runExpired_ends queued.counted (bounded.counted waits)).mono ?_ ?_
    · rintro _ next ⟨finalQueued, awakened⟩
      refine ⟨finalQueued, awakened.woken, ?_, ?_, awakened.others⟩
      · exact fun other => (awakened.owner other).trans (same.owner other)
      intro other member
      rw [← same.owner other]
      exact awakened.runnable other member
    rintro fault (cut | ⟨other, expired, stuck⟩)
    · exact .inl cut
    · rw [same.owner other] at stuck
      exact .inr ⟨other, expired, stuck⟩

end RunTimerList

end TimerRing

end UcoreSmp
