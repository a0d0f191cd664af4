import Mathlib.Data.Finset.Card

/-!
# Counting those who have a property

`Headcount p n` says that exactly `n` individuals have the property `p`, where
the individuals come from a type without a bound.  A state machine moves them
one at a time, so the two rules that matter are one individual joining and one
leaving.
-/

namespace UcoreSmp

/-- Exactly `n` individuals have the property. -/
def Headcount {ι : Type*} (p : ι → Prop) (n : Nat) : Prop :=
  ∃ members : Finset ι, (∀ i, i ∈ members ↔ p i) ∧ members.card = n

namespace Headcount

variable {ι : Type*} {p q : ι → Prop} {n : Nat}

theorem congr (count : Headcount p n) (same : ∀ i, q i ↔ p i) : Headcount q n := by
  obtain ⟨members, mem, card⟩ := count
  exact ⟨members, fun i => (mem i).trans (same i).symm, card⟩

theorem zero (nobody : ∀ i, ¬ p i) : Headcount p 0 :=
  ⟨∅, fun i => by simp [nobody i], rfl⟩

theorem exists_of_pos (count : Headcount p n) (positive : 0 < n) : ∃ i, p i := by
  obtain ⟨members, mem, rfl⟩ := count
  obtain ⟨i, member⟩ := Finset.card_pos.mp positive
  exact ⟨i, (mem i).mp member⟩

theorem join (count : Headcount p n) {i : ι} (outside : ¬ p i)
    (joined : ∀ j, q j ↔ j = i ∨ p j) : Headcount q (n + 1) := by
  classical
  obtain ⟨members, mem, card⟩ := count
  refine ⟨insert i members, fun j => ?_, ?_⟩
  · rw [Finset.mem_insert, mem, joined]
  · rw [Finset.card_insert_of_notMem fun member => outside ((mem i).mp member), card]

theorem leave (count : Headcount p n) {i : ι} (inside : p i)
    (left : ∀ j, q j ↔ j ≠ i ∧ p j) : ∃ m, n = m + 1 ∧ Headcount q m := by
  classical
  obtain ⟨members, mem, card⟩ := count
  refine ⟨(members.erase i).card, ?_, members.erase i, fun j => ?_, rfl⟩
  · rw [← card, Finset.card_erase_add_one ((mem i).mpr inside)]
  · rw [Finset.mem_erase, mem, left]

end Headcount

end UcoreSmp
