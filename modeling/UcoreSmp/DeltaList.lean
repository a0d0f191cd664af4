import Mathlib.Data.List.Basic

/-!
# Lists of differences

A list of differences keeps, for each entry, the time it waits after the entry
before it.  `deadlines` reads it as a list of absolute times.  Inserting an
entry, removing one and letting time pass are given on the differences, and each
is related to what it does to the deadlines.
-/

namespace UcoreSmp

open List

variable {α : Type*}

/-- The absolute times of a list of differences that starts at `now`. -/
def deadlines (now : Nat) : List (α × Nat) → List (α × Nat)
  | [] => []
  | (item, wait) :: rest => (item, now + wait) :: deadlines (now + wait) rest

/-- Put the time of an entry that is taken out before the list. -/
def delayHead (wait : Nat) : List (α × Nat) → List (α × Nat)
  | [] => []
  | (item, other) :: rest => (item, other + wait) :: rest

/-- Insert an entry that waits `wait` from the start of the list, behind the
entries due at the same time. -/
def insertDelta (item : α) (wait : Nat) : List (α × Nat) → List (α × Nat)
  | [] => [(item, wait)]
  | (other, delta) :: rest =>
    if wait < delta then (item, wait) :: (other, delta - wait) :: rest
    else (other, delta) :: insertDelta item (wait - delta) rest

/-- Insert a deadline behind the entries due at the same time or earlier. -/
def insertDeadline (item : α) (deadline : Nat) : List (α × Nat) → List (α × Nat)
  | [] => [(item, deadline)]
  | (other, due) :: rest =>
    if deadline < due then (item, deadline) :: (other, due) :: rest
    else (other, due) :: insertDeadline item deadline rest

/-- The entries at the front that wait no longer. -/
def expiredItems : List (α × Nat) → List α
  | [] => []
  | (item, wait) :: rest => if wait = 0 then item :: expiredItems rest else []

/-- The list without the entries at the front that wait no longer. -/
def unexpired : List (α × Nat) → List (α × Nat)
  | [] => []
  | (item, wait) :: rest => if wait = 0 then unexpired rest else (item, wait) :: rest

def countDown : List (α × Nat) → List (α × Nat)
  | [] => []
  | (item, wait) :: rest => (item, wait - 1) :: rest

/-- The first entry, if there is one, has still to wait. -/
def HeadWaits : List (α × Nat) → Prop
  | [] => True
  | (_, wait) :: _ => 0 < wait

variable {list : List (α × Nat)} {entry : α × Nat} {item : α} {now : Nat}

@[simp]
theorem map_fst_deadlines (now : Nat) (list : List (α × Nat)) :
    (deadlines now list).map Prod.fst = list.map Prod.fst := by
  induction list generalizing now with
  | nil => rfl
  | cons entry rest ih => simp [deadlines, ih]

@[simp]
theorem map_fst_delayHead (wait : Nat) (list : List (α × Nat)) :
    (delayHead wait list).map Prod.fst = list.map Prod.fst := by
  cases list with
  | nil => rfl
  | cons entry rest => rfl

@[simp]
theorem delayHead_zero (list : List (α × Nat)) : delayHead 0 list = list := by
  cases list with
  | nil => rfl
  | cons entry rest => rfl

theorem le_deadline (member : entry ∈ deadlines now list) : now ≤ entry.2 := by
  induction list generalizing now with
  | nil => simp [deadlines] at member
  | cons first rest ih =>
    rcases mem_cons.mp member with rfl | later
    · exact Nat.le_add_right _ _
    · exact Nat.le_trans (Nat.le_add_right _ _) (ih later)

theorem deadlines_add (now later : Nat) (list : List (α × Nat)) : deadlines (now + later) list =
      (deadlines now list).map fun entry => (entry.1, entry.2 + later) := by
  induction list generalizing now with
  | nil => rfl
  | cons entry rest ih =>
    have shifted : now + later + entry.2 = now + entry.2 + later := by omega
    simp only [deadlines, map_cons, shifted, ih]

theorem exists_deadline_add (now : Nat) (front back : List (α × Nat))
    (item other : α) (wait delta : Nat) : ∃ deadline, now + (delta + wait) ≤ deadline ∧
      (other, deadline) ∈ deadlines now (front ++ (item, wait) :: (other, delta) :: back) := by
  induction front generalizing now with
  | nil =>
    refine ⟨now + wait + delta, by omega, ?_⟩
    simp [deadlines]
  | cons entry front ih =>
    obtain ⟨deadline, later, member⟩ := ih (now + entry.2)
    exact ⟨deadline, by omega, mem_cons_of_mem _ member⟩

theorem deadlines_delayHead (now wait : Nat) (list : List (α × Nat)) :
    deadlines now (delayHead wait list) = deadlines (now + wait) list := by
  cases list with
  | nil => rfl
  | cons entry rest =>
    have shifted : now + (entry.2 + wait) = now + wait + entry.2 := by omega
    simp only [delayHead, deadlines, shifted]

theorem deadlines_insertDelta (now wait : Nat) (item : α) (list : List (α × Nat)) :
    deadlines now (insertDelta item wait list) =
      insertDeadline item (now + wait) (deadlines now list) := by
  induction list generalizing now wait with
  | nil => rfl
  | cons entry rest ih =>
    obtain ⟨other, delta⟩ := entry
    by_cases before : wait < delta
    · have rejoined : now + wait + (delta - wait) = now + delta := by omega
      simp [insertDelta, insertDeadline, deadlines, before, rejoined]
    · have rejoined : now + delta + (wait - delta) = now + wait := by omega
      simp [insertDelta, insertDeadline, deadlines, before, ih, rejoined]

theorem deadlines_countDown (waits : HeadWaits list) (now : Nat) :
    deadlines (now + 1) (countDown list) = deadlines now list := by
  cases list with
  | nil => rfl
  | cons entry rest =>
    obtain ⟨item, wait⟩ := entry
    have positive : 0 < wait := waits
    have rejoined : now + 1 + (wait - 1) = now + wait := by omega
    simp only [countDown, deadlines, rejoined]

theorem mem_expiredItems : item ∈ expiredItems list ↔ (item, now) ∈ deadlines now list := by
  induction list with
  | nil => simp [expiredItems, deadlines]
  | cons entry rest ih =>
    obtain ⟨other, wait⟩ := entry
    by_cases expired : wait = 0
    · simp [expiredItems, deadlines, expired, ih]
    have notYet : (item, now) ∉ deadlines (now + wait) rest := by
      intro member
      have bound := le_deadline member
      omega
    simp [expiredItems, deadlines, expired, notYet]

theorem expiredItems_eq_filter (now : Nat) (list : List (α × Nat)) : expiredItems list =
      ((deadlines now list).filter fun entry => entry.2 = now).map Prod.fst := by
  induction list with
  | nil => rfl
  | cons entry rest ih =>
    obtain ⟨item, wait⟩ := entry
    by_cases expired : wait = 0
    · simp [expiredItems, deadlines, expired, ih]
    have none : (deadlines (now + wait) rest).filter (fun entry => entry.2 = now) = [] := by
      rw [filter_eq_nil_iff]
      intro entry member
      have bound := le_deadline member
      simp only [decide_eq_true_eq]
      omega
    simp [expiredItems, deadlines, expired, none]

theorem deadlines_unexpired (now : Nat) (list : List (α × Nat)) : deadlines now (unexpired list) =
      (deadlines now list).filter fun entry => now < entry.2 := by
  induction list with
  | nil => rfl
  | cons entry rest ih =>
    obtain ⟨item, wait⟩ := entry
    by_cases expired : wait = 0
    · simp [unexpired, deadlines, expired, ih]
    have kept : (deadlines (now + wait) rest).filter (fun entry => now < entry.2) =
        deadlines (now + wait) rest := by
      rw [filter_eq_self]
      intro entry member
      have bound := le_deadline member
      simp only [decide_eq_true_eq]
      omega
    have waits : 0 < wait := Nat.pos_of_ne_zero expired
    simp [unexpired, deadlines, expired, kept, waits]

theorem headWaits_iff (now : Nat) :
    HeadWaits list ↔ ∀ entry ∈ deadlines now list, now < entry.2 := by
  cases list with
  | nil => simp [HeadWaits, deadlines]
  | cons entry rest =>
    obtain ⟨item, wait⟩ := entry
    constructor
    · intro waits other member
      have positive : 0 < wait := waits
      rcases mem_cons.mp member with rfl | later
      · simpa using positive
      · have bound := le_deadline later
        omega
    · intro later
      have first := later (item, now + wait) (by simp [deadlines])
      simpa [HeadWaits] using first

section Removal

variable [DecidableEq α]

/-- Take an entry out and leave its time to the next one. -/
def removeDelta (item : α) : List (α × Nat) → List (α × Nat)
  | [] => []
  | (other, wait) :: rest =>
    if other = item then delayHead wait rest else (other, wait) :: removeDelta item rest

theorem removeDelta_append {front back : List (α × Nat)} (absent : item ∉ front.map Prod.fst) :
    removeDelta item (front ++ back) = front ++ removeDelta item back := by
  induction front with
  | nil => rfl
  | cons entry front ih =>
    obtain ⟨other, delta⟩ := entry
    simp only [map_cons, mem_cons, not_or] at absent
    have apart : other ≠ item := fun same => absent.1 same.symm
    simp [removeDelta, apart, ih absent.2]

theorem removeDelta_of_notMem
    (absent : item ∉ list.map Prod.fst) : removeDelta item list = list := by
  simpa [removeDelta] using @removeDelta_append _ _ _ _ [] absent

theorem deadlines_removeDelta (now : Nat) (item : α) (nodup : (list.map Prod.fst).Nodup) :
    deadlines now (removeDelta item list) =
      (deadlines now list).filter fun entry => entry.1 ≠ item := by
  induction list generalizing now with
  | nil => rfl
  | cons entry rest ih =>
    obtain ⟨other, wait⟩ := entry
    rw [map_cons, nodup_cons] at nodup
    by_cases same : other = item
    · have kept : (deadlines (now + wait) rest).filter (fun entry => entry.1 ≠ item) =
          deadlines (now + wait) rest := by
        rw [filter_eq_self]
        intro entry member
        have listed : entry.1 ∈ (deadlines (now + wait) rest).map Prod.fst := mem_map_of_mem member
        rw [map_fst_deadlines] at listed
        have apart : entry.1 ≠ item := by
          rintro rfl
          exact nodup.1 (same ▸ listed)
        simpa using apart
      rw [removeDelta, if_pos same, deadlines_delayHead, deadlines,
        filter_cons_of_neg (by simpa using same), kept]
    · simp [removeDelta, deadlines, same, ih _ nodup.2]

end Removal

variable {deadline : Nat}

theorem mem_insertDeadline :
    entry ∈ insertDeadline item deadline list ↔ entry = (item, deadline) ∨ entry ∈ list := by
  induction list with
  | nil => simp [insertDeadline]
  | cons other rest ih =>
    by_cases before : deadline < other.2
    · simp [insertDeadline, before]
    · simp only [insertDeadline, before, if_false, mem_cons, ih]
      tauto

/-- Inserting behind everything due at the same time keeps an order in which the
new entry follows what is not due later. -/
theorem pairwise_insertDeadline {earlier : α × Nat → α × Nat → Prop}
    (ordered : list.Pairwise earlier)
    (sorted : list.Pairwise fun first second => first.2 ≤ second.2)
    (follows : ∀ entry ∈ list, entry.2 ≤ deadline → earlier entry (item, deadline))
    (precedes : ∀ entry ∈ list, deadline < entry.2 → earlier (item, deadline) entry) :
    (insertDeadline item deadline list).Pairwise earlier := by
  induction list with
  | nil => simp [insertDeadline]
  | cons other rest ih =>
    rw [pairwise_cons] at ordered sorted
    by_cases before : deadline < other.2
    · simp only [insertDeadline, before, if_true, pairwise_cons]
      refine ⟨?_, ordered.1, ordered.2⟩
      intro entry member
      rcases mem_cons.mp member with isOther | later
      · exact precedes entry (by simp [isOther]) (by simpa [isOther] using before)
      · have due := sorted.1 entry later
        exact precedes entry (by simp [later]) (by omega)
    simp only [insertDeadline, before, if_false, pairwise_cons]
    constructor
    · intro entry member
      rcases mem_insertDeadline.mp member with rfl | later
      · exact follows other (by simp) (by omega)
      · exact ordered.1 entry later
    apply ih ordered.2 sorted.2
    · intro entry member
      exact follows entry (by simp [member])
    · intro entry member
      exact precedes entry (by simp [member])

end UcoreSmp
