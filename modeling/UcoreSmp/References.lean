import Mathlib.Algebra.BigOperators.Group.Finset.Piecewise
import UcoreSmp.Tally

/-!
# Counting references

Places that may each hold a reference to an object, and the number of places
that refer to it.  A count that follows the changes of one place at a time stays
exact.
-/

namespace UcoreSmp

variable {κ ρ : Type} [DecidableEq ρ]

/-- How many of the places refer to the object. -/
def references (places : Finset κ) (holds : κ → Option ρ) (object : ρ) : Nat :=
  (places.filter fun place => holds place = some object).card

section References

variable {places : Finset κ} {holds holds' : κ → Option ρ} {object : ρ}

theorem references_congr (same : ∀ place ∈ places, holds' place = holds place) (object : ρ) :
    references places holds' object = references places holds object := by
  unfold references
  congr 1
  apply Finset.filter_congr
  intro place member
  rw [same place member]

theorem references_pos :
    0 < references places holds object ↔ ∃ place ∈ places, holds place = some object := by
  simp [references, Finset.card_pos, Finset.Nonempty]

theorem references_eq_zero :
    references places holds object = 0 ↔ ∀ place ∈ places, holds place ≠ some object := by
  simp [references, Finset.filter_eq_empty_iff]

theorem references_acquire [DecidableEq κ] {place : κ} (member : place ∈ places)
    (empty : holds place = none) {acquired : ρ} (filled : holds' place = some acquired)
    (same : ∀ other ∈ places, other ≠ place → holds' other = holds other) (object : ρ) :
    references places holds' object =
      references places holds object + if object = acquired then 1 else 0 := by
  have moved := sum_change (f := fun k => if holds k = some object then 1 else 0)
    (g := fun k => if holds' k = some object then 1 else 0) member (by
      intro other inside distinct
      simp only [same other inside distinct])
  have filledCount : (if holds' place = some object then 1 else 0) =
      if object = acquired then 1 else 0 := by
    simp only [filled, Option.some.injEq, eq_comm]
  simp only [empty, reduceCtorEq, if_false, add_zero, filledCount] at moved
  simpa only [references, Finset.card_filter] using moved

theorem references_release [DecidableEq κ] {place : κ} (member : place ∈ places) {released : ρ}
    (held : holds place = some released) (emptied : holds' place = none)
    (same : ∀ other ∈ places, other ≠ place → holds' other = holds other) (object : ρ) :
    references places holds object =
      references places holds' object + if object = released then 1 else 0 :=
  references_acquire member emptied held
    (fun other inside distinct => (same other inside distinct).symm) object

theorem references_places {places' : Finset κ} (subset : places ⊆ places')
    (empty : ∀ place ∈ places', place ∉ places → holds place = none) (object : ρ) :
    references places' holds object = references places holds object := by
  unfold references
  congr 1
  ext place
  simp only [Finset.mem_filter]
  constructor
  · rintro ⟨member, held⟩
    by_contra missing
    have := empty place member (fun inside => missing ⟨inside, held⟩)
    rw [this] at held
    cases held
  · rintro ⟨member, held⟩
    exact ⟨subset member, held⟩

end References

end UcoreSmp
