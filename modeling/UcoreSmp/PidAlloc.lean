import Mathlib.Data.Int.Interval
import UcoreSmp.Sched

/-!
# Process numbers

`get_pid` of `kern/process/proc.c`.  The static variables `last_pid` and
`next_safe` are a state: no process has a pid strictly between them.  A call that
leaves this interval scans the process list, and starts over each time the scan
runs into the end of the interval it has found so far.
-/

namespace UcoreSmp

open List

def MAX_PROCESS : Int := 4096

structure PidState where
  lastPid : Int
  nextSafe : Int
  deriving DecidableEq

/-- `last_pid` starts over at 1 behind the last pid. -/
def wrapPid (pid : Int) : Int := if MAX_PID ≤ pid then 1 else pid

/-- One pass over the process list.  The result says whether it ends in
`goto repeat`. -/
def scanPids : List Int → PidState → PidState × Bool
  | [], state => (state, false)
  | pid :: rest, state =>
    if pid = state.lastPid then
      if state.nextSafe ≤ state.lastPid + 1 then
        ({ lastPid := wrapPid (state.lastPid + 1), nextSafe := MAX_PID }, true)
      else scanPids rest { state with lastPid := state.lastPid + 1 }
    else if state.lastPid < pid ∧ pid < state.nextSafe then
      scanPids rest { state with nextSafe := pid }
    else scanPids rest state

/-- The label `repeat`, for at most `passes` passes. -/
def repeatScan (pids : List Int) : Nat → PidState → Option PidState
  | 0, _ => none
  | passes + 1, state =>
    match scanPids pids state with
    | (next, false) => some next
    | (next, true) => repeatScan pids passes next

/-- `get_pid` over the pids on the process list; the pid it returns is the new
`last_pid`. -/
def getPid (pids : List Int) (state : PidState) : Option PidState :=
  if MAX_PID ≤ state.lastPid + 1 then
    repeatScan pids MAX_PID.toNat { lastPid := 1, nextSafe := MAX_PID }
  else if state.nextSafe ≤ state.lastPid + 1 then
    repeatScan pids MAX_PID.toNat { lastPid := state.lastPid + 1, nextSafe := MAX_PID }
  else some { state with lastPid := state.lastPid + 1 }

/-- No process has a pid strictly between the static variables. -/
structure PidSafe (pids : List Int) (state : PidState) : Prop where
  pos : 1 ≤ state.lastPid
  bound : state.lastPid ≤ MAX_PID
  within : state.nextSafe ≤ MAX_PID
  safe : ∀ pid ∈ pids, pid ≤ state.lastPid ∨ state.nextSafe ≤ pid

/-- During a pass: the pids seen so far leave the interval from `last_pid` on
free. -/
structure Scanning (seen : List Int) (state : PidState) : Prop where
  pos : 1 ≤ state.lastPid
  before : state.lastPid < state.nextSafe
  within : state.nextSafe ≤ MAX_PID
  free : ∀ pid ∈ seen, pid < state.lastPid ∨ state.nextSafe ≤ pid

def pidDistance (pid last : Int) : Int :=
  if last ≤ pid then pid - last else MAX_PID - 1 - (last - pid)

variable {pid last : Int}

theorem wrapPid_pos (pos : 1 ≤ pid) : 1 ≤ wrapPid pid := by
  unfold wrapPid
  split_ifs <;> omega

theorem wrapPid_lt (pid : Int) : wrapPid pid < MAX_PID := by
  unfold wrapPid
  split_ifs with wraps
  · decide
  · omega

theorem wrapPid_of_lt (bound : pid < MAX_PID) : wrapPid pid = pid :=
  if_neg (by omega)

theorem pidDistance_lt (high : pid < MAX_PID) (pos : 1 ≤ last) :
    pidDistance pid last < MAX_PID := by
  unfold pidDistance
  split_ifs <;> omega

theorem pidDistance_nonneg (low : 1 ≤ pid) (bound : last < MAX_PID) : 0 ≤ pidDistance pid last := by
  unfold pidDistance
  split_ifs <;> omega

theorem pidDistance_next (low : 1 ≤ pid) (high : pid < MAX_PID) (bound : last < MAX_PID)
    (other : pid ≠ last) : pidDistance pid (wrapPid (last + 1)) < pidDistance pid last := by
  unfold pidDistance wrapPid
  split_ifs <;> omega

section Scan

variable {pids seen : List Int} {state next : PidState}

theorem Scanning.hit (scanning : Scanning seen state) (room : state.lastPid + 1 < state.nextSafe) :
    Scanning (state.lastPid :: seen) { state with lastPid := state.lastPid + 1 } := by
  refine ⟨?_, room, scanning.within, ?_⟩
  · have := scanning.pos
    simp only
    omega
  intro pid member
  simp only
  rcases mem_cons.mp member with rfl | seen
  · omega
  · have := scanning.free pid seen
    omega

theorem Scanning.shrink (scanning : Scanning seen state) (above : state.lastPid < pid)
    (below : pid < state.nextSafe) :
    Scanning (pid :: seen) { state with nextSafe := pid } := by
  refine ⟨scanning.pos, above, ?_, ?_⟩
  · have := scanning.within
    simp only
    omega
  intro pid' member
  simp only
  rcases mem_cons.mp member with rfl | seen
  · omega
  · have := scanning.free pid' seen
    omega

theorem Scanning.skip (scanning : Scanning seen state) (miss : pid ≠ state.lastPid)
    (outside : ¬ (state.lastPid < pid ∧ pid < state.nextSafe)) : Scanning (pid :: seen) state := by
  refine ⟨scanning.pos, scanning.before, scanning.within, ?_⟩
  intro pid' member
  rcases mem_cons.mp member with rfl | seen
  · omega
  · exact scanning.free pid' seen

theorem Scanning.reorder {rest : List Int} (scanning : Scanning (rest ++ pid :: seen) state) :
    Scanning (pid :: rest ++ seen) state := by
  refine ⟨scanning.pos, scanning.before, scanning.within, fun pid' member => ?_⟩
  apply scanning.free
  simp only [cons_append, mem_cons, mem_append] at member ⊢
  tauto

variable {free : Int}

/-- A pass that ends leaves a free interval from `last_pid` on; one that starts
over has come closer to every pid that no process has. -/
theorem scanPids_spec (low : 1 ≤ free) (high : free < MAX_PID) :
    ∀ {pids seen : List Int} {state : PidState}, free ∉ pids → Scanning seen state →
      ((scanPids pids state).2 = false → Scanning (pids ++ seen) (scanPids pids state).1) ∧
      ((scanPids pids state).2 = true → Scanning [] (scanPids pids state).1 ∧
        (scanPids pids state).1.nextSafe = MAX_PID ∧
        pidDistance free (scanPids pids state).1.lastPid < pidDistance free state.lastPid) := by
  intro pids
  induction pids with
  | nil =>
    intro seen state _ scanning
    refine ⟨fun _ => scanning, ?_⟩
    intro again
    simp [scanPids] at again
  | cons pid rest ih =>
    intro seen state notUsed scanning
    simp only [mem_cons, not_or] at notUsed
    obtain ⟨notPid, notRest⟩ := notUsed
    have bound : state.lastPid < MAX_PID := scanning.before.trans_le scanning.within
    simp only [scanPids]
    split_ifs with hit wraps inside
    · -- the end of the interval: the scan starts over behind `last_pid`
      refine ⟨fun ends => by simp at ends, fun _ => ⟨⟨?_, ?_, le_refl _, ?_⟩, rfl, ?_⟩⟩
      · exact wrapPid_pos (by have := scanning.pos; omega)
      · exact wrapPid_lt _
      · simp
      · exact pidDistance_next low high bound (hit ▸ notPid)
    · have room : state.lastPid + 1 < state.nextSafe := by omega
      have small : state.lastPid + 1 < MAX_PID := room.trans_le scanning.within
      obtain ⟨ends, again⟩ := ih notRest (scanning.hit room)
      refine ⟨fun done => ?_, fun more => ?_⟩
      · rw [hit]
        exact (ends done).reorder
      obtain ⟨scanning', reset, closer⟩ := again more
      refine ⟨scanning', reset, closer.trans ?_⟩
      have := pidDistance_next low high bound (hit ▸ notPid)
      rwa [wrapPid_of_lt small] at this
    · obtain ⟨ends, again⟩ := ih notRest (scanning.shrink inside.1 inside.2)
      exact ⟨fun done => (ends done).reorder, again⟩
    · obtain ⟨ends, again⟩ := ih notRest (scanning.skip hit inside)
      exact ⟨fun done => (ends done).reorder, again⟩

theorem repeatScan_ends (low : 1 ≤ free) (high : free < MAX_PID) (notUsed : free ∉ pids) :
    ∀ (passes : Nat) {state : PidState}, Scanning [] state → pidDistance free state.lastPid <
      passes → ∃ next, repeatScan pids passes state = some next ∧ Scanning pids next := by
  intro passes
  induction passes with
  | zero =>
    intro state scanning near
    have bound : state.lastPid < MAX_PID := scanning.before.trans_le scanning.within
    have := pidDistance_nonneg low bound
    omega
  | succ passes ih =>
    intro state scanning near
    obtain ⟨ends, again⟩ := scanPids_spec low high notUsed scanning
    cases pass : scanPids pids state with
    | mk next more =>
      rw [pass] at ends again
      simp only [repeatScan, pass]
      cases more with
      | false =>
        have scanning' := ends rfl
        rw [append_nil] at scanning'
        exact ⟨next, rfl, scanning'⟩
      | true =>
        obtain ⟨scanning', -, closer⟩ := again rfl
        simp only at closer
        exact ih scanning' (by omega)

theorem exists_free_pid {low : Int} (few : (pids.length : Int) < MAX_PID - low) :
    ∃ free, low ≤ free ∧ free < MAX_PID ∧ free ∉ pids := by
  have fewer : pids.toFinset.card < (Finset.Ico low MAX_PID).card := by
    have distinct := toFinset_card_le pids
    rw [Int.card_Ico]
    omega
  obtain ⟨free, member, notUsed⟩ := Finset.exists_mem_notMem_of_card_lt_card fewer
  rw [Finset.mem_Ico] at member
  exact ⟨free, member.1, member.2, fun used => notUsed (mem_toFinset.mpr used)⟩

theorem Scanning.pidSafe (scanning : Scanning pids state) :
    state.lastPid ∉ pids ∧ PidSafe (state.lastPid :: pids) state := by
  have before := scanning.before
  refine ⟨fun used => ?_, scanning.pos, ?_, scanning.within, ?_⟩
  · have := scanning.free _ used
    omega
  · have := scanning.within
    omega
  intro pid member
  rcases mem_cons.mp member with rfl | used
  · exact .inl (le_refl _)
  · have := scanning.free pid used
    omega

theorem Scanning.found (scanning : Scanning pids state) : 1 ≤ state.lastPid ∧
      state.lastPid < MAX_PID ∧ state.lastPid ∉ pids ∧ PidSafe (state.lastPid :: pids) state :=
  ⟨scanning.pos, scanning.before.trans_le scanning.within, scanning.pidSafe⟩

/-- The cached interval still holds. -/
theorem PidSafe.scanning (safe : PidSafe pids state) (inside : state.lastPid + 1 < state.nextSafe) :
    Scanning pids { state with lastPid := state.lastPid + 1 } := by
  have pos := safe.pos
  refine ⟨by simp only; omega, inside, safe.within, ?_⟩
  intro pid used
  have := safe.safe pid used
  simp only
  omega

theorem repeatScan_finds (few : (pids.length : Int) < MAX_PID - 1) (pos : 1 ≤ last)
    (bound : last < MAX_PID) :
    ∃ next, repeatScan pids MAX_PID.toNat ⟨last, MAX_PID⟩ = some next ∧ Scanning pids next := by
  obtain ⟨free, low, high, notUsed⟩ := exists_free_pid few
  apply repeatScan_ends low high notUsed
  · exact ⟨pos, bound, le_refl _, fun _ member => absurd member not_mem_nil⟩
  · exact pidDistance_lt high pos

/-- `get_pid` returns a pid that no process has. -/
theorem getPid_ends (safe : PidSafe pids state) (few : (pids.length : Int) < MAX_PID - 1) :
    ∃ next, getPid pids state = some next ∧ 1 ≤ next.lastPid ∧
      next.lastPid < MAX_PID ∧ next.lastPid ∉ pids ∧ PidSafe (next.lastPid :: pids) next := by
  have pos := safe.pos
  unfold getPid
  split_ifs with wraps leaves
  · obtain ⟨next, ended, scanning⟩ := repeatScan_finds few (le_refl 1) (by decide)
    exact ⟨next, ended, scanning.found⟩
  · obtain ⟨next, ended, scanning⟩ :=
      repeatScan_finds few (show 1 ≤ state.lastPid + 1 by omega) (by omega)
    exact ⟨next, ended, scanning.found⟩
  · exact ⟨_, rfl, (safe.scanning (by omega)).found⟩

end Scan

end UcoreSmp
