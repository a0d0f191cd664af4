import Mathlib.Logic.Basic

/-!
# Routines that can stop in a failed assertion

A C routine is read as a state transformer that either returns a value and the
next state or stops in a fault: a failed assertion, a panic, or a loop that ran
out of its iteration budget.  `Ends` is the weakest precondition of such a
routine, with one postcondition for ordinary returns and one for faults.  A
false fault postcondition therefore states total correctness.
-/

namespace UcoreSmp

universe u v

variable {ε : Type u} {σ α β : Type v}

/-- A routine over state `σ` that returns an `α` or stops in a fault. -/
abbrev Routine (ε : Type u) (σ α : Type v) := StateT σ (Except ε) α

/-- The routine started in a state returns with `post`, or stops with `faulty`. -/
def Ends (routine : Routine ε σ α) (post : α → σ → Prop) (faulty : ε → Prop) (state : σ) : Prop :=
  match routine state with
  | .ok (value, next) => post value next
  | .error fault => faulty fault

/-- A C assertion: continue when the condition holds, stop otherwise. -/
def check (condition : Prop) [Decidable condition] (fault : ε) : Routine ε σ PUnit :=
  if condition then pure PUnit.unit else throw fault

variable {state : σ}

section Rules

variable {post : α → σ → Prop} {faulty : ε → Prop}

@[simp]
theorem ends_pure (value : α) :
    Ends (pure value : Routine ε σ α) post faulty state ↔ post value state :=
  Iff.rfl

@[simp]
theorem ends_throw (fault : ε) :
    Ends (throw fault : Routine ε σ α) post faulty state ↔ faulty fault :=
  Iff.rfl

@[simp]
theorem ends_bind (first : Routine ε σ β) (rest : β → Routine ε σ α) :
    Ends (first >>= rest) post faulty state ↔
      Ends first (fun value next => Ends (rest value) post faulty next) faulty state := by
  simp only [Ends, bind, StateT.bind, Except.bind]
  cases first state with
  | error | ok => exact Iff.rfl

@[simp]
theorem ends_get {post : σ → σ → Prop} :
    Ends (get : Routine ε σ σ) post faulty state ↔ post state state :=
  Iff.rfl

@[simp]
theorem ends_set {post : PUnit → σ → Prop} (next : σ) :
    Ends (set next : Routine ε σ PUnit) post faulty state ↔ post PUnit.unit next :=
  Iff.rfl

@[simp]
theorem ends_modify {post : PUnit → σ → Prop} (update : σ → σ) :
    Ends (modify update : Routine ε σ PUnit) post faulty state ↔ post PUnit.unit (update state) :=
  Iff.rfl

@[simp]
theorem ends_check {post : PUnit → σ → Prop} (condition : Prop) [Decidable condition] (fault : ε) :
    Ends (check condition fault : Routine ε σ PUnit) post faulty state ↔
      (condition → post PUnit.unit state) ∧ (¬ condition → faulty fault) := by
  unfold check
  by_cases holds : condition
  · simp [holds]
  · simp [holds]

@[simp]
theorem ends_ite (condition : Prop) [Decidable condition] (yes no : Routine ε σ α) :
    Ends (if condition then yes else no) post faulty state ↔
      (condition → Ends yes post faulty state) ∧ (¬ condition → Ends no post faulty state) := by
  by_cases holds : condition
  · simp [holds]
  · simp [holds]

variable {routine : Routine ε σ α} {post' : α → σ → Prop} {faulty' : ε → Prop}

theorem Ends.mono (ends : Ends routine post faulty state)
    (returns : ∀ value next, post value next → post' value next)
    (stops : ∀ fault, faulty fault → faulty' fault) : Ends routine post' faulty' state := by
  unfold Ends at ends ⊢
  cases outcome : routine state with
  | error fault =>
    rw [outcome] at ends
    exact stops fault ends
  | ok result =>
    rw [outcome] at ends
    exact returns _ _ ends

theorem Ends.weaken (ends : Ends routine post faulty state)
    (returns : ∀ value next, post value next → post' value next) :
    Ends routine post' faulty state :=
  ends.mono returns fun _ stops => stops

theorem Ends.and
    (ends : Ends routine post faulty state) (ends' : Ends routine post' faulty' state) :
    Ends routine (fun value next => post value next ∧ post' value next)
      (fun fault => faulty fault ∧ faulty' fault) state := by
  unfold Ends at ends ends' ⊢
  cases outcome : routine state with
  | error | ok =>
    rw [outcome] at ends ends'
    exact ⟨ends, ends'⟩

theorem Ends.returned (ends : Ends routine post (fun _ => True) state) :
    ∀ value next, routine state = .ok (value, next) → post value next := by
  intro value next returns
  rwa [Ends, returns] at ends

theorem Ends.returns (ends : Ends routine post (fun _ => False) state) :
    ∃ value next, routine state = .ok (value, next) ∧ post value next := by
  unfold Ends at ends
  cases outcome : routine state with
  | error fault =>
    rw [outcome] at ends
    exact ends.elim
  | ok result =>
    rw [outcome] at ends
    exact ⟨_, _, rfl, ends⟩

end Rules

section Runs

variable {next : σ}

theorem run_bind {first : Routine ε σ β} {rest : β → Routine ε σ α} {value : β}
    (ran : first state = .ok (value, next)) : (first >>= rest) state = rest value next := by
  simp only [bind, StateT.bind, ran, Except.bind]

theorem run_get : (get : Routine ε σ σ) state = .ok (state, state) :=
  rfl

theorem run_check {condition : Prop} [Decidable condition] {fault : ε} (holds : condition) :
    (check condition fault : Routine ε σ PUnit) state = .ok (PUnit.unit, state) := by
  rw [check, if_pos holds]
  rfl

end Runs

end UcoreSmp
