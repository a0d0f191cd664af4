import Mathlib.Algebra.Order.BigOperators.Group.Finset

/-!
# Tallies

Counts of natural numbers over a finite set of participants, and how they move
when one participant changes.
-/

namespace UcoreSmp

open Finset

theorem sum_change {ι : Type*} [DecidableEq ι] {s : Finset ι} {f g : ι → Nat} {i : ι}
    (member : i ∈ s) (same : ∀ j ∈ s, j ≠ i → g j = f j) :
    ∑ j ∈ s, g j + f i = ∑ j ∈ s, f j + g i := by
  rw [← sum_erase_add s f member, ← sum_erase_add s g member]
  have rest : ∑ j ∈ s.erase i, g j = ∑ j ∈ s.erase i, f j := by
    apply sum_congr rfl
    intro j inRest
    exact same j (mem_of_mem_erase inRest) (ne_of_mem_erase inRest)
  omega

/-- The tally of a measure over all participants. -/
def tally {ι α : Type*} [Fintype ι] (participants : ι → α) (measure : α → Nat) : Nat :=
  ∑ i, measure (participants i)

section Tally

variable {ι α : Type*} [Fintype ι] {participants : ι → α} {measure : α → Nat}

theorem tally_update [DecidableEq ι] (participants : ι → α) (i : ι) (changed : α)
    (measure : α → Nat) :
    tally (Function.update participants i changed) measure + measure (participants i) =
      tally participants measure + measure changed := by
  have moved := sum_change (f := fun j => measure (participants j))
    (g := fun j => measure (Function.update participants i changed j))
    (mem_univ i) (by
      intro j _ other
      simp [other])
  simpa [tally] using moved

theorem le_tally (i : ι) : measure (participants i) ≤ tally participants measure :=
  single_le_sum (f := fun j => measure (participants j)) (fun _ _ => Nat.zero_le _) (mem_univ i)

theorem tally_pos {i : ι} (one : measure (participants i) = 1) : 0 < tally participants measure :=
  one.ge.trans (le_tally i)

theorem tally_eq_zero (none : ∀ i, measure (participants i) = 0) : tally participants measure = 0 :=
  sum_eq_zero fun i _ => none i

theorem add_le_tally [DecidableEq ι] {i j : ι} (distinct : i ≠ j) :
    measure (participants i) + measure (participants j) ≤ tally participants measure := by
  have pair : ∑ k ∈ {i, j}, measure (participants k) ≤ ∑ k, measure (participants k) :=
    sum_le_sum_of_subset (subset_univ _)
  rw [sum_pair distinct] at pair
  exact pair

end Tally

end UcoreSmp
