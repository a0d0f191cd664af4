import Mathlib.Logic.Function.Basic

/-!
# Resources with exactly one owner

A partial map from owners to resources accounts for the used resources when each
of them has exactly one owner.  Handing a fresh resource to an owner that has
none, and taking a resource away, keep the account exact.
-/

namespace UcoreSmp

open Function

variable {ι ρ : Type}

/-- Every used resource has one owner, and nothing else has any. -/
structure Claims (own : ι → Option ρ) (used : ρ → Prop) : Prop where
  covers : ∀ r, used r ↔ ∃ o, own o = some r
  unique : ∀ {o o' r}, own o = some r → own o' = some r → o = o'

namespace Claims

variable {own : ι → Option ρ} {used : ρ → Prop}

theorem used_of_own (claims : Claims own used) {o : ι} {r : ρ} (owned : own o = some r) : used r :=
  (claims.covers r).mpr ⟨o, owned⟩

theorem ne (claims : Claims own used) {o o' : ι} {r r' : ρ} (owned : own o = some r)
    (owned' : own o' = some r') (distinct : o ≠ o') : r ≠ r' := by
  intro same
  subst same
  exact distinct (claims.unique owned owned')

theorem congr (claims : Claims own used) {used' : ρ → Prop} (same : ∀ r, used' r ↔ used r) :
    Claims own used' where
  covers r := (same r).trans (claims.covers r)
  unique := claims.unique

variable [DecidableEq ι]

theorem assign (claims : Claims own used) {o : ι} {r : ρ} (empty : own o = none)
    (fresh : ¬ used r) : Claims (update own o (some r)) (fun x => used x ∨ x = r) where
  covers x := by
    constructor
    · intro either
      cases either with
      | inl old =>
        obtain ⟨o', owned⟩ := (claims.covers x).mp old
        refine ⟨o', ?_⟩
        rw [update_of_ne]
        · exact owned
        intro same
        rw [same, empty] at owned
        cases owned
      | inr new =>
        exact ⟨o, by rw [update_self, new]⟩
    rintro ⟨o', owned⟩
    by_cases same : o' = o
    · subst same
      rw [update_self] at owned
      exact .inr (Option.some.inj owned).symm
    · rw [update_of_ne same] at owned
      exact .inl (claims.used_of_own owned)
  unique {o' o'' x} owned owned' := by
    by_cases same : o' = o
    · by_cases same' : o'' = o
      · rw [same, same']
      subst same
      rw [update_self] at owned
      rw [update_of_ne same'] at owned'
      cases owned
      exact absurd (claims.used_of_own owned') fresh
    rw [update_of_ne same] at owned
    by_cases same' : o'' = o
    · subst same'
      rw [update_self] at owned'
      cases owned'
      exact absurd (claims.used_of_own owned) fresh
    · rw [update_of_ne same'] at owned'
      exact claims.unique owned owned'

theorem revoke (claims : Claims own used) {o : ι} {r : ρ} (owned : own o = some r) :
    Claims (update own o none) (fun x => used x ∧ x ≠ r) where
  covers x := by
    constructor
    · rintro ⟨isUsed, other⟩
      obtain ⟨o', owned'⟩ := (claims.covers x).mp isUsed
      refine ⟨o', ?_⟩
      rw [update_of_ne]
      · exact owned'
      intro same
      rw [same, owned] at owned'
      exact other (Option.some.inj owned').symm
    rintro ⟨o', owned'⟩
    by_cases same : o' = o
    · rw [same, update_self] at owned'
      cases owned'
    · rw [update_of_ne same] at owned'
      exact ⟨claims.used_of_own owned', (claims.ne owned owned' (Ne.symm same)).symm⟩
  unique {o' o'' x} owned' owned'' := by
    by_cases same : o' = o
    · rw [same, update_self] at owned'
      cases owned'
    by_cases same' : o'' = o
    · rw [same', update_self] at owned''
      cases owned''
    rw [update_of_ne same] at owned'
    rw [update_of_ne same'] at owned''
    exact claims.unique owned' owned''

end Claims

end UcoreSmp
