import UcoreSmp.KernelTriple

/-!
# Routines that can return an error code

Most kernel routines return zero and their result, or a negative error code.  A
`Call` is such a routine: an error code ends it early but keeps the state as it
is by then, unlike a fault.  `CallEnds` has one postcondition for each of the
three ways a call can end.
-/

namespace UcoreSmp

universe u

variable {ε : Type u} {σ α β : Type}

/-- A routine that returns an `α` or an error code, or stops in a fault. -/
abbrev Call (ε : Type u) (σ α : Type) := ExceptT Int (Routine ε σ) α

/-- The call started in a state returns with `post`, returns an error code with
`failed`, or stops with `faulty`. -/
def CallEnds (call : Call ε σ α) (post : α → σ → Prop) (failed : Int → σ → Prop)
    (faulty : ε → Prop) (state : σ) : Prop :=
  Ends call.run (fun result next =>
      match result with
      | .ok value => post value next
      | .error code => failed code next)
    faulty state

/-- Run a call and hand its error code to the caller. -/
def attempt (call : Call ε σ α) : Call ε σ (Except Int α) :=
  ExceptT.lift call.run

/-- A C assertion inside a call. -/
def ensure (condition : Prop) [Decidable condition] (fault : ε) : Call ε σ PUnit :=
  ExceptT.lift (check condition fault)

def panicWith (fault : ε) : Call ε σ α :=
  ExceptT.lift (throw fault)

/-- A call on a part of the state. -/
def within {ε' : Type u} {τ : Type} (view : σ → τ) (put : τ → σ → σ) (blame : ε' → ε)
    (call : Call ε' τ α) : Call ε σ α :=
  fun state =>
    match call (view state) with
    | .ok (result, part) => .ok (result, put part state)
    | .error fault => .error (blame fault)

variable {call : Call ε σ α} {fault : ε} {state : σ}

section Rules

variable {post : α → σ → Prop} {failed : Int → σ → Prop} {faulty : ε → Prop}

@[simp]
theorem callEnds_pure (value : α) :
    CallEnds (pure value : Call ε σ α) post failed faulty state ↔ post value state :=
  Iff.rfl

@[simp]
theorem callEnds_throw (code : Int) :
    CallEnds (throw code : Call ε σ α) post failed faulty state ↔ failed code state :=
  Iff.rfl

@[simp]
theorem callEnds_panicWith (fault : ε) :
    CallEnds (panicWith fault : Call ε σ α) post failed faulty state ↔ faulty fault :=
  Iff.rfl

@[simp]
theorem callEnds_bind (first : Call ε σ β) (rest : β → Call ε σ α) :
    CallEnds (first >>= rest) post failed faulty state ↔
      CallEnds first (fun value next => CallEnds (rest value) post failed faulty next)
        failed faulty state := by
  simp only [CallEnds, Ends, ExceptT.run, bind, ExceptT.bind, ExceptT.bindCont, ExceptT.mk,
    StateT.bind, Except.bind]
  rcases first state with _ | ⟨_ | _, _⟩
  all_goals exact Iff.rfl

@[simp]
theorem callEnds_map (f : β → α) (call : Call ε σ β) :
    CallEnds (f <$> call) post failed faulty state ↔
      CallEnds call (fun value next => post (f value) next) failed faulty state := by
  rw [← bind_pure_comp, callEnds_bind]
  rfl

@[simp]
theorem callEnds_get {post : σ → σ → Prop} :
    CallEnds (get : Call ε σ σ) post failed faulty state ↔ post state state :=
  Iff.rfl

@[simp]
theorem callEnds_set {post : PUnit → σ → Prop} (next : σ) :
    CallEnds (set next : Call ε σ PUnit) post failed faulty state ↔ post PUnit.unit next :=
  Iff.rfl

@[simp]
theorem callEnds_modify {post : PUnit → σ → Prop} (update : σ → σ) :
    CallEnds (modify update : Call ε σ PUnit) post failed faulty state ↔
      post PUnit.unit (update state) :=
  Iff.rfl

@[simp]
theorem callEnds_ensure {post : PUnit → σ → Prop} (condition : Prop) [Decidable condition]
    (fault : ε) : CallEnds (ensure condition fault : Call ε σ PUnit) post failed faulty state ↔
      (condition → post PUnit.unit state) ∧ (¬ condition → faulty fault) := by
  unfold ensure check
  by_cases holds : condition
  · rw [if_pos holds]
    exact ⟨fun ends => ⟨fun _ => ends, fun not => absurd holds not⟩, fun both => both.1 holds⟩
  · rw [if_neg holds]
    exact ⟨fun ends => ⟨fun yes => absurd yes holds, fun _ => ends⟩, fun both => both.2 holds⟩

@[simp]
theorem callEnds_ite (condition : Prop) [Decidable condition] (yes no : Call ε σ α) :
    CallEnds (if condition then yes else no) post failed faulty state ↔
      (condition → CallEnds yes post failed faulty state) ∧
        (¬ condition → CallEnds no post failed faulty state) := by
  by_cases holds : condition
  · simp [holds]
  · simp [holds]

@[simp]
theorem callEnds_attempt {post : Except Int α → σ → Prop} (call : Call ε σ α) :
    CallEnds (attempt call) post failed faulty state ↔
      CallEnds call (fun value next => post (.ok value) next)
        (fun code next => post (.error code) next) faulty state := by
  simp only [CallEnds, attempt, Ends, ExceptT.run, ExceptT.lift, ExceptT.mk, Functor.map,
    StateT.map, bind, pure, Except.bind, Except.pure]
  rcases call state with _ | ⟨_ | _, _⟩
  all_goals exact Iff.rfl

@[simp]
theorem callEnds_within {ε' : Type u} {τ : Type} (view : σ → τ) (put : τ → σ → σ)
    (blame : ε' → ε) (call : Call ε' τ α) :
    CallEnds (within view put blame call) post failed faulty state ↔
      CallEnds call (fun value part => post value (put part state))
        (fun code part => failed code (put part state))
        (fun fault => faulty (blame fault)) (view state) := by
  simp only [CallEnds, Ends, within, ExceptT.run]
  cases call (view state) with
  | error | ok => exact Iff.rfl

variable {post' : α → σ → Prop} {failed' : Int → σ → Prop} {faulty' : ε → Prop} {next : σ}

theorem callEnds_self (call : Call ε σ α) (state : σ) :
    CallEnds call (fun value next => call state = .ok (.ok value, next))
      (fun code next => call state = .ok (.error code, next))
      (fun fault => call state = .error fault) state := by
  unfold CallEnds Ends ExceptT.run
  rcases call state with _ | ⟨_ | _, _⟩
  all_goals rfl

theorem CallEnds.returned {reached : σ → Prop}
    (ends : CallEnds call (fun _ next => reached next) (fun _ next => reached next) faulty state)
    {result : Except Int α} (returns : call state = .ok (result, next)) : reached next := by
  unfold CallEnds Ends ExceptT.run at ends
  rw [returns] at ends
  cases result with
  | error | ok => exact ends

theorem CallEnds.exists_result
    (ends : CallEnds call post (fun _ _ => False) (fun _ => False) state) :
    ∃ value next, call state = .ok (.ok value, next) ∧ post value next := by
  obtain ⟨result, next, ran, done⟩ := Ends.returns ends
  cases result with
  | error code => exact done.elim
  | ok value => exact ⟨value, next, ran, done⟩

section

variable (ends : CallEnds call post failed faulty state)

include ends

theorem CallEnds.mono (returns : ∀ value next, post value next → post' value next)
    (fails : ∀ code next, failed code next → failed' code next)
    (stops : ∀ fault, faulty fault → faulty' fault) :
    CallEnds call post' failed' faulty' state := by
  apply Ends.mono ends
  · intro result next holds
    cases result with
    | error code => exact fails code next holds
    | ok value => exact returns value next holds
  · exact stops

theorem CallEnds.weaken (returns : ∀ value next, post value next → post' value next)
    (fails : ∀ code next, failed code next → failed' code next) :
    CallEnds call post' failed' faulty state :=
  ends.mono returns fails fun _ stops => stops

theorem CallEnds.and (ends' : CallEnds call post' failed' faulty' state) :
    CallEnds call (fun value next => post value next ∧ post' value next)
      (fun code next => failed code next ∧ failed' code next)
      (fun fault => faulty fault ∧ faulty' fault) state := by
  apply (Ends.and ends ends').weaken
  intro result next both
  cases result with
  | error | ok => exact both

theorem CallEnds.stopped (stops : call state = .error fault) : faulty fault := by
  unfold CallEnds Ends ExceptT.run at ends
  rw [stops] at ends
  exact ends

theorem CallEnds.result {value : α} (returns : call state = .ok (.ok value, next)) :
    post value next := by
  unfold CallEnds Ends ExceptT.run at ends
  rw [returns] at ends
  exact ends

end

theorem CallEnds.not (ends : CallEnds call (fun value next => ¬ post value next)
      (fun code next => ¬ failed code next) (fun fault => ¬ faulty fault) state) :
    ¬ CallEnds call post failed faulty state := by
  intro holds
  have never := (ends.and holds).mono (fun _ _ both => both.1 both.2)
    (fun _ _ both => both.1 both.2) fun _ both => both.1 both.2
  obtain ⟨-, -, -, impossible⟩ := never.exists_result
  exact impossible

theorem CallEnds.of_result
    (results : ∀ value next, call state = .ok (.ok value, next) → post value next)
    (fails : ∀ code next, failed code next) (stops : ∀ fault, faulty fault) :
    CallEnds call post failed faulty state :=
  (callEnds_self call state).mono results (fun _ _ _ => fails _ _) fun _ _ => stops _

theorem CallEnds.of_forall (returns : ∀ value next, post value next)
    (fails : ∀ code next, failed code next) (stops : ∀ fault, faulty fault) :
    CallEnds call post failed faulty state :=
  .of_result (fun value next _ => returns value next) fails stops

end Rules

/-- The fault that a call stops with. -/
def faultOf (call : Call ε σ α) (state : σ) : Option ε :=
  match call state with
  | .error fault => some fault
  | .ok _ => none

end UcoreSmp
