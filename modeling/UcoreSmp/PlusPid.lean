import UcoreSmp.PidAlloc

/-!
# Process numbers of ucore_plus

`get_pid` keeps the pids below the number of processors for idle processes, which are not on
the process list: a call that finds `last_pid` at its end starts over at `lcpu_count`.  The
restart inside of the scan is still at 1.
-/

namespace UcoreSmp.Plus

def getPid (lcpu : Int) (pids : List Int) (state : PidState) : Option PidState :=
  if MAX_PID ≤ state.lastPid + 1 then
    repeatScan pids MAX_PID.toNat { lastPid := lcpu, nextSafe := MAX_PID }
  else if state.nextSafe ≤ state.lastPid + 1 then
    repeatScan pids MAX_PID.toNat { lastPid := state.lastPid + 1, nextSafe := MAX_PID }
  else some { state with lastPid := state.lastPid + 1 }

/-- The scan is not led past the last pid: it starts over before, or finds a free pid. -/
def FindsAbove (lcpu : Int) (pids : List Int) (state : PidState) : Prop :=
  lcpu = 1 ∨ MAX_PID ≤ state.lastPid + 1 ∨
    ∃ free, state.lastPid < free ∧ free < MAX_PID ∧ free ∉ pids

/-- Forks and reaps from the boot on.  The idle processes count as processes. -/
inductive PidRun (lcpu : Int) : List Int → PidState → Prop where
  | boot : PidRun lcpu [] ⟨MAX_PID, MAX_PID⟩
  | fork {pids : List Int} {state next : PidState} (run : PidRun lcpu pids state)
      (room : lcpu + pids.length < MAX_PROCESS) (finds : FindsAbove lcpu pids state)
      (answer : getPid lcpu pids state = some next) : PidRun lcpu (next.lastPid :: pids) next
  | reap {pids : List Int} {state : PidState} (run : PidRun lcpu pids state) (pid : Int) :
      PidRun lcpu (pids.erase pid) state

variable {pids : List Int} {state : PidState}

section Scan

variable {low free : Int}

/-- A scan stops at a pid that no process has, so it does not start over behind it. -/
theorem scanPids_between (high : free < MAX_PID) (unused : free ∉ pids) :
    ∀ {state : PidState}, low ≤ state.lastPid → state.lastPid ≤ free →
      low ≤ (scanPids pids state).1.lastPid ∧ (scanPids pids state).1.lastPid ≤ free := by
  induction pids with
  | nil => exact fun above below => ⟨above, below⟩
  | cons pid rest ih =>
    intro state above below
    simp only [List.mem_cons, not_or] at unused
    simp only [scanPids]
    split_ifs with hit
    · have next : state.lastPid + 1 < MAX_PID := by omega
      simp only [wrapPid_of_lt next]
      omega
    · exact ih unused.2 (by simp only; omega) (by simp only; omega)
    · exact ih unused.2 above below
    · exact ih unused.2 above below

theorem repeatScan_between (high : free < MAX_PID) (unused : free ∉ pids) :
    ∀ (passes : Nat) {state next : PidState}, repeatScan pids passes state = some next →
      low ≤ state.lastPid → state.lastPid ≤ free → low ≤ next.lastPid := by
  intro passes
  induction passes with
  | zero => exact fun ended => nomatch ended
  | succ passes ih =>
    intro state next ended above below
    have between := scanPids_between high unused above below
    simp only [repeatScan] at ended
    split at ended
    case h_1 last pass =>
      cases ended
      exact (pass ▸ between).1
    case h_2 last pass =>
      rw [pass] at between
      exact ih ended between.1 between.2

end Scan

theorem getPid_above {lcpu : Int} (one : 1 ≤ lcpu)
    (safe : PidSafe pids state) (above : lcpu ≤ state.lastPid)
    (room : lcpu + pids.length < MAX_PROCESS) (finds : FindsAbove lcpu pids state) :
    ∃ next, getPid lcpu pids state = some next ∧ lcpu ≤ next.lastPid ∧
      next.lastPid < MAX_PID ∧ next.lastPid ∉ pids ∧ PidSafe (next.lastPid :: pids) next := by
  have bound : MAX_PROCESS < MAX_PID - 1 := by decide
  have few : (pids.length : Int) < MAX_PID - 1 := by omega
  -- a scan from a pid at or above `lcpu` with a free pid ahead stays there
  have scan {last : Int} (from_ : lcpu ≤ last) (small : last < MAX_PID)
      (ahead : lcpu = 1 ∨ ∃ free, last ≤ free ∧ free < MAX_PID ∧ free ∉ pids) :
      ∃ next, repeatScan pids MAX_PID.toNat ⟨last, MAX_PID⟩ = some next ∧
        lcpu ≤ next.lastPid ∧ Scanning pids next := by
    obtain ⟨next, ended, scanning⟩ := repeatScan_finds few (one.trans from_) small
    refine ⟨next, ended, ?_, scanning⟩
    rcases ahead with rfl | ⟨free, behind, high, unused⟩
    · exact scanning.pos
    · exact repeatScan_between high unused _ ended from_ behind
  unfold getPid
  split_ifs with wraps leaves
  · have ahead : ∃ free, lcpu ≤ free ∧ free < MAX_PID ∧ free ∉ pids :=
      exists_free_pid (by omega)
    obtain ⟨next, ended, low, scanning⟩ := scan le_rfl (by omega) (.inr ahead)
    exact ⟨next, ended, low, scanning.found.2⟩
  · have ahead : lcpu = 1 ∨ ∃ free, state.lastPid + 1 ≤ free ∧ free < MAX_PID ∧ free ∉ pids :=
      finds.imp_right fun found => found.resolve_left wraps
    obtain ⟨next, ended, low, scanning⟩ := scan (by omega) (by omega) ahead
    exact ⟨next, ended, low, scanning.found.2⟩
  · exact ⟨_, rfl, by simp only; omega, (safe.scanning (by omega)).found.2⟩

theorem PidRun.safe {lcpu : Int} (one : 1 ≤ lcpu) (few : lcpu ≤ MAX_PROCESS)
    (run : PidRun lcpu pids state) : PidSafe pids state ∧ lcpu ≤ state.lastPid := by
  induction run with
  | boot =>
    have bound : MAX_PROCESS < MAX_PID := by decide
    exact ⟨⟨by decide, le_rfl, le_rfl, by simp⟩, by simp only; omega⟩
  | fork _ room finds answer ih =>
    obtain ⟨next, ended, low, -, -, safe⟩ := getPid_above one ih.1 ih.2 room finds
    cases ended.symm.trans answer
    exact ⟨safe, low⟩
  | reap _ pid ih =>
    refine ⟨{ ih.1 with safe := ?_ }, ih.2⟩
    exact fun other listed => ih.1.safe other (List.mem_of_mem_erase listed)

theorem get_pid_avoids_idle_range {lcpu : Int} {pids : List Int} {state : PidState}
    (one : 1 ≤ lcpu) (run : PidRun lcpu pids state) (room : lcpu + pids.length < MAX_PROCESS)
    (finds : FindsAbove lcpu pids state) : ∃ next, getPid lcpu pids state =
      some next ∧ lcpu ≤ next.lastPid ∧ next.lastPid < MAX_PID ∧ next.lastPid ∉ pids := by
  obtain ⟨safe, above⟩ := run.safe one (by omega)
  obtain ⟨next, ended, low, high, unused, -⟩ := getPid_above one safe above room finds
  exact ⟨next, ended, low, high, unused⟩

/-- The second of three processes has been reaped. -/
theorem get_pid_avoids_idle_range_reaped : PidRun 2 [4, 2] ⟨4, MAX_PID⟩ ∧
    ∃ next, getPid 2 [4, 2] ⟨4, MAX_PID⟩ = some next ∧
      2 ≤ next.lastPid ∧ next.lastPid < MAX_PID ∧ next.lastPid ∉ [4, 2] := by
  have first : PidRun 2 [2] ⟨2, MAX_PID⟩ :=
    PidRun.boot.fork (by decide) (.inr (.inl (by decide))) rfl
  have second : PidRun 2 [3, 2] ⟨3, MAX_PID⟩ :=
    first.fork (by decide) (.inr (.inr ⟨3, by decide⟩)) rfl
  have third : PidRun 2 [4, 3, 2] ⟨4, MAX_PID⟩ :=
    second.fork (by decide) (.inr (.inr ⟨4, by decide⟩)) rfl
  have reaped : PidRun 2 [4, 2] ⟨4, MAX_PID⟩ := third.reap 3
  exact ⟨reaped, get_pid_avoids_idle_range (by decide) reaped (by decide)
    (.inr (.inr ⟨5, by decide⟩))⟩

/-- Forks whose processes are reaped at once count up to the end of the free interval. -/
theorem PidRun.count {last safe : Int} (few : pids.length ≤ 1)
    (free : ∀ pid, last < pid → pid < safe → pid ∉ pids) (high : safe ≤ MAX_PID)
    (run : PidRun 2 pids ⟨last, safe⟩) (n : Nat) (below : last + n < safe) :
    PidRun 2 pids ⟨last + n, safe⟩ := by
  induction n with
  | zero => simpa using run
  | succ n ih =>
    have before := ih (by omega)
    have answer : getPid 2 pids ⟨last + n, safe⟩ = some ⟨last + n + 1, safe⟩ := by
      unfold getPid
      rw [if_neg (by simp only; omega), if_neg (by simp only; omega)]
    have forked := before.fork (by simp only [MAX_PROCESS]; omega)
      (.inr (.inr ⟨last + n + 1, by simp only; omega, by omega,
        free _ (by omega) (by omega)⟩)) answer
    have reaped := forked.reap (last + n + 1)
    simpa [add_assoc] using reaped

/-- With two processors, process 8191 lives on while the others are counted up to 8190: the next
fork is given pid 1. -/
theorem get_pid_enters_idle_range : ∃ pids state next, PidRun 2 pids state ∧
    getPid 2 pids state = some next ∧ next.lastPid = 1 := by
  have first : PidRun 2 [] ⟨2, MAX_PID⟩ :=
    (PidRun.boot.fork (by decide) (.inr (.inl (by decide))) rfl).reap 2
  have counted := first.count (by decide) (by simp) le_rfl 8188 (by decide)
  have stays : PidRun 2 [8191] ⟨8191, MAX_PID⟩ :=
    counted.fork (by decide) (.inr (.inr ⟨8191, by decide, by decide, by simp⟩)) rfl
  have again : PidRun 2 [8191] ⟨2, 8191⟩ :=
    (stays.fork (by decide) (.inr (.inl (by decide))) rfl).reap 2
  have full := again.count (by decide) (fun pid _ below => by simp; omega) (by decide) 8188
    (by decide)
  exact ⟨_, _, _, full, rfl, rfl⟩

end UcoreSmp.Plus
