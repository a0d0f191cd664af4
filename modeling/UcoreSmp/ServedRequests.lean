import Mathlib.Data.Option.Basic

/-!
# Requests that are served until the first refusal

A supply answers a list of requests one after the other.  `serveAll` is the supply
after all of them, and `firstRefused` the request at which it gives out.  `Spends` and
`Refuses` say the same of a state that holds the supply, seen through a family of views.
-/

namespace UcoreSmp

section Requests

variable {σ ρ : Type} (serve : σ → ρ → Option σ)

def serveAll : σ → List ρ → Option σ
  | supply, [] => some supply
  | supply, request :: rest => (serve supply request).bind fun next => serveAll next rest

def firstRefused : σ → List ρ → Option ρ
  | _, [] => none
  | supply, request :: rest =>
    match serve supply request with
    | none => some request
    | some next => firstRefused next rest

variable {serve} {supply next : σ} {request : ρ} {before after : List ρ}

section

variable (served : serveAll serve supply before = some next)

include served

theorem serveAll_append : serveAll serve supply (before ++ after) = serveAll serve next after := by
  induction before generalizing supply with
  | nil =>
    cases served
    rfl
  | cons request rest ih =>
    rw [serveAll, Option.bind_eq_some_iff] at served
    obtain ⟨middle, isMiddle, served⟩ := served
    rw [List.cons_append, serveAll, isMiddle, Option.bind_some]
    exact ih served

theorem firstRefused_of_served :
    firstRefused serve supply (before ++ after) = firstRefused serve next after := by
  induction before generalizing supply with
  | nil =>
    cases served
    rfl
  | cons request rest ih =>
    rw [serveAll, Option.bind_eq_some_iff] at served
    obtain ⟨middle, isMiddle, served⟩ := served
    rw [List.cons_append, firstRefused, isMiddle]
    exact ih served

end

theorem firstRefused_of_refused (refused : firstRefused serve supply before = some request) :
    firstRefused serve supply (before ++ after) = some request := by
  induction before generalizing supply with
  | nil => cases refused
  | cons first rest ih =>
    rw [firstRefused] at refused
    rw [List.cons_append, firstRefused]
    cases isNext : serve supply first with
    | none => rwa [isNext] at refused
    | some next =>
      rw [isNext] at refused
      exact ih refused

end Requests

section Views

variable {ι σ τ ρ : Type} (serve : τ → ρ → Option τ) (view : ι → σ → τ)

/-- All requests were served, and nothing else was taken. -/
def Spends (state : σ) (requests : List ρ) (next : σ) : Prop :=
  ∀ i, serveAll serve (view i state) requests = some (view i next)

/-- The first of the requests that is refused. -/
def Refuses (state : σ) (requests : List ρ) (request : ρ) : Prop :=
  ∀ i, firstRefused serve (view i state) requests = some request

variable {serve view} {state next last : σ} {request : ρ} {before after : List ρ}

theorem Spends.trans (first : Spends serve view state before next)
    (second : Spends serve view next after last) :
    Spends serve view state (before ++ after) last :=
  fun i => (serveAll_append (first i)).trans (second i)

theorem Refuses.later (first : Spends serve view state before next)
    (second : Refuses serve view next after request) :
    Refuses serve view state (before ++ after) request :=
  fun i => (firstRefused_of_served (first i)).trans (second i)

theorem Refuses.append (refused : Refuses serve view state before request) (after : List ρ) :
    Refuses serve view state (before ++ after) request :=
  fun i => firstRefused_of_refused (refused i)

end Views

end UcoreSmp
