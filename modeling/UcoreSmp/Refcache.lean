import Mathlib.Algebra.BigOperators.Group.Finset.Piecewise
import Mathlib.Data.BitVec

/-!
# The reference cache of one CPU

`refcache.c` of ucore_plus.  Changes of a reference count are collected in the slot
of the object's hash value, which colliding objects share, and reach the object
when the slot is evicted.
-/

namespace UcoreSmp

open Function

def REF_CACHE_SLOT : Nat := 64

structure RefObj where
  refcount : BitVec 32
  reviewEpoch : BitVec 32
  dirty : Bool

structure RefWay (ι : Type) where
  delta : BitVec 32
  obj : Option ι

/-- The cache of the CPU, the objects, and the global epoch. -/
structure RefState (ι : Type) where
  way : Fin REF_CACHE_SLOT → RefWay ι
  localEpoch : BitVec 32
  reviewHead : List ι
  objs : ι → RefObj
  globalEpoch : BitVec 32
  globalEpochLeft : BitVec 32

inductive RefFault where
  | nullObject
  | zeroDelta

variable {ι : Type} [DecidableEq ι]

namespace RefState

def setWay (state : RefState ι) (slot : Fin REF_CACHE_SLOT) (way : RefWay ι) : RefState ι :=
  { state with way := update state.way slot way }

def evict (state : RefState ι) (slot : Fin REF_CACHE_SLOT) : Except RefFault (RefState ι) :=
  let way := state.way slot
  match way.obj with
  | none => .error .nullObject
  | some o =>
    if way.delta = 0 then .error .zeroDelta
    else
      let obj := state.objs o
      let refcount := obj.refcount + way.delta
      let reviewed := refcount = 0 ∧ obj.reviewEpoch = 0
      .ok { state with
        objs := update state.objs o
          { refcount
            reviewEpoch := if reviewed then state.localEpoch + 3 else obj.reviewEpoch
            dirty := if refcount = 0 then decide (obj.reviewEpoch ≠ 0) else obj.dirty }
        reviewHead := if reviewed then state.reviewHead ++ [o] else state.reviewHead
        way := update state.way slot { way with obj := none } }

/-- One round of the loop of `flush`. -/
def flushWay (state : RefState ι) (slot : Fin REF_CACHE_SLOT) : Except RefFault (RefState ι) :=
  if (state.way slot).obj = none then .ok state
  else do
    let state ← if (state.way slot).delta ≠ 0 then state.evict slot else .ok state
    .ok (state.setWay slot { state.way slot with obj := none })

def flush (lcpuCount : BitVec 32) (state : RefState ι) : Except RefFault (RefState ι) :=
  if state.globalEpoch = state.localEpoch then .ok state
  else do
    let state ← (List.finRange REF_CACHE_SLOT).foldlM flushWay
      { state with localEpoch := state.globalEpoch }
    let left := state.globalEpochLeft - 1
    .ok (if left = 0 then
        { state with globalEpochLeft := left + lcpuCount, globalEpoch := state.globalEpoch + 1 }
      else { state with globalEpochLeft := left })

variable (hash : ι → Fin REF_CACHE_SLOT) (o : ι)

def getMyWay (state : RefState ι) : Except RefFault (RefState ι) := do
  let way := state.way (hash o)
  let state ← if way.obj ≠ none ∧ way.obj ≠ some o then state.evict (hash o) else .ok state
  .ok (if (state.way (hash o)).obj = none then state.setWay (hash o) ⟨0, some o⟩ else state)

def addDelta (change : BitVec 32) (state : RefState ι) : Except RefFault (RefState ι) := do
  let state ← state.getMyWay hash o
  let way := state.way (hash o)
  .ok (state.setWay (hash o) { way with delta := way.delta + change })

def refcacheRefobjInc : RefState ι → Except RefFault (RefState ι) := addDelta hash o 1

def refcacheRefobjDec : RefState ι → Except RefFault (RefState ι) := addDelta hash o (-1)

/-- The states of a CPU whose cache was empty at the start. -/
inductive Reaches (lcpuCount : BitVec 32) : RefState ι → Prop
  | start {state} (empty : ∀ slot, (state.way slot).obj = none) : Reaches lcpuCount state
  | inc {state next o} (reached : Reaches lcpuCount state)
      (returns : refcacheRefobjInc hash o state = .ok next) : Reaches lcpuCount next
  | dec {state next o} (reached : Reaches lcpuCount state)
      (returns : refcacheRefobjDec hash o state = .ok next) : Reaches lcpuCount next
  | flush {state next} (reached : Reaches lcpuCount state)
      (returns : flush lcpuCount state = .ok next) : Reaches lcpuCount next
  | others {state} (globalEpoch globalEpochLeft) (reached : Reaches lcpuCount state) :
      Reaches lcpuCount { state with globalEpoch, globalEpochLeft }

/-- The slot of the object is taken by another one whose changes have cancelled out. -/
def Cancelled (state : RefState ι) : Prop :=
  ∃ other ≠ o, state.way (hash o) = ⟨0, some other⟩

/-- The reference count of the object, with what the cache holds for it. -/
def total (state : RefState ι) : BitVec 32 :=
  (state.objs o).refcount +
    if (state.way (hash o)).obj = some o then (state.way (hash o)).delta else 0

/-- The call returns unless its slot is cancelled, and changes the total of `o` alone. -/
def Counted (change : BitVec 32) (state : RefState ι) (result : Except RefFault (RefState ι)) :
    Prop :=
  ((∃ next, result = .ok next) ↔ ¬ state.Cancelled hash o) ∧
  ∀ next, result = .ok next → ∀ objs : Finset ι, ∑ other ∈ objs, next.total hash other =
    ∑ other ∈ objs, state.total hash other + if o ∈ objs then change else 0

/-- Objects are cached in the slot of their hash value only. -/
def Hashed (state : RefState ι) : Prop := ∀ slot o, (state.way slot).obj = some o → hash o = slot

/-- The totals of all objects are as before. -/
def Steady (state next : RefState ι) : Prop :=
  next.Hashed hash ∧ ∀ o, next.total hash o = state.total hash o

variable {hash o} {lcpuCount change : BitVec 32} {state next : RefState ι}
  {slot : Fin REF_CACHE_SLOT} {way : RefWay ι}

theorem Steady.trans {middle : RefState ι} (first : Steady hash state middle)
    (second : Steady hash middle next) : Steady hash state next :=
  ⟨second.1, fun o => (second.2 o).trans (first.2 o)⟩

namespace Hashed

variable (hashed : state.Hashed hash)

include hashed

omit [DecidableEq ι] in
theorem replace (ways : next.way = update state.way slot way)
    (held : ∀ o, way.obj = some o → hash o = slot) : next.Hashed hash := by
  intro other o
  rw [ways]
  by_cases same : other = slot
  · rw [same, update_self]
    exact held o
  · rw [update_of_ne same]
    exact hashed other o

/-- A slot is emptied, and its changes are passed on to the object in it. -/
theorem emptied (ways : next.way = update state.way slot { way with obj := none })
    (counts : ∀ o, (next.objs o).refcount = (state.objs o).refcount +
      if (state.way slot).obj = some o then (state.way slot).delta else 0) :
    Steady hash state next := by
  refine ⟨hashed.replace ways (by simp), fun o => ?_⟩
  rw [total, total, ways, counts]
  by_cases same : hash o = slot
  · simp [same]
  · have absent : (state.way slot).obj ≠ some o := fun held => same (hashed slot o held)
    simp [same, absent]

theorem evicted (isObj : (state.way slot).obj = some o) (nonzero : (state.way slot).delta ≠ 0) :
    ∃ next, state.evict slot = .ok next ∧ (next.way slot).obj = none ∧ Steady hash state next := by
  simp only [evict, isObj, nonzero, if_false]
  refine ⟨_, rfl, by simp, hashed.emptied rfl fun other => ?_⟩
  by_cases same : other = o
  · simp [same, isObj]
  · simp [same, Ne.symm same, isObj]

theorem flushed (slot : Fin REF_CACHE_SLOT) :
    ∃ next, state.flushWay slot = .ok next ∧ Steady hash state next := by
  unfold flushWay
  cases isObj : (state.way slot).obj with
  | none => exact ⟨state, if_pos rfl, hashed, fun _ => rfl⟩
  | some o =>
    rw [if_neg (by simp)]
    by_cases zero : (state.way slot).delta = 0
    · rw [if_neg (not_not.mpr zero)]
      exact ⟨_, rfl, hashed.emptied rfl fun other => by simp [zero, setWay]⟩
    obtain ⟨evicted, isEvicted, empty, steady⟩ := hashed.evicted isObj zero
    rw [if_pos zero, isEvicted]
    exact ⟨_, rfl, steady.trans (steady.1.emptied rfl fun other => by simp [empty, setWay])⟩

omit hashed in
theorem flushWays (slots : List (Fin REF_CACHE_SLOT)) (hashed : state.Hashed hash) :
    ∃ next, slots.foldlM flushWay state = .ok next ∧ Steady hash state next := by
  induction slots generalizing state with
  | nil => exact ⟨state, rfl, hashed, fun _ => rfl⟩
  | cons slot rest ih =>
    obtain ⟨middle, isMiddle, first⟩ := hashed.flushed slot
    obtain ⟨next, isNext, second⟩ := ih first.1
    rw [List.foldlM_cons, isMiddle]
    exact ⟨next, isNext, first.trans second⟩

theorem flush (lcpuCount : BitVec 32) :
    ∃ next, state.flush lcpuCount = .ok next ∧ Steady hash state next := by
  unfold RefState.flush
  split
  · exact ⟨state, rfl, hashed, fun _ => rfl⟩
  obtain ⟨next, isNext, steady⟩ := flushWays (List.finRange REF_CACHE_SLOT)
    (show { state with localEpoch := state.globalEpoch }.Hashed hash from hashed)
  rw [isNext]
  refine ⟨_, rfl, ?_⟩
  split <;> exact steady

theorem filled (empty : (state.way (hash o)).obj = none) :
    Steady hash state (state.setWay (hash o) ⟨0, some o⟩) := by
  refine ⟨hashed.replace rfl (by simp), fun other => ?_⟩
  by_cases same : hash other = hash o
  · simp [total, setWay, same, empty]
  · simp [total, setWay, same]

theorem getMyWay (kept : ¬ state.Cancelled hash o) : ∃ next, state.getMyWay hash o = .ok next ∧
      (next.way (hash o)).obj = some o ∧ Steady hash state next := by
  unfold RefState.getMyWay
  cases isObj : (state.way (hash o)).obj with
  | none =>
    rw [if_neg (by simp [isObj])]
    exact ⟨_, congrArg Except.ok (if_pos isObj), by simp [setWay], hashed.filled isObj⟩
  | some other =>
    by_cases same : other = o
    · subst same
      rw [if_neg (by simp [isObj])]
      exact ⟨state, congrArg Except.ok (if_neg (by simp [isObj])), isObj, hashed, fun _ => rfl⟩
    have nonzero : (state.way (hash o)).delta ≠ 0 :=
      fun zero => kept ⟨other, same, by rw [← zero, ← isObj]⟩
    obtain ⟨evicted, isEvicted, empty, steady⟩ := hashed.evicted isObj nonzero
    rw [if_pos (by simp [isObj, same]), isEvicted]
    exact ⟨_, congrArg Except.ok (if_pos empty), by simp [setWay],
      steady.trans (steady.1.filled empty)⟩

theorem addDelta (change : BitVec 32) (kept : ¬ state.Cancelled hash o) :
    ∃ next, state.addDelta hash o change = .ok next ∧ next.Hashed hash ∧ ∀ other,
      next.total hash other = state.total hash other + if other = o then change else 0 := by
  obtain ⟨middle, isMiddle, isObj, steady⟩ := hashed.getMyWay kept
  rw [RefState.addDelta, isMiddle]
  refine ⟨_, rfl, steady.1.replace rfl (by simp [isObj]), fun other => ?_⟩
  rw [← steady.2]
  by_cases isO : other = o
  · simp [isO, total, setWay, isObj, BitVec.add_assoc]
  by_cases same : hash other = hash o
  · simp [isO, Ne.symm isO, same, total, setWay, isObj]
  · simp [isO, same, total, setWay]

end Hashed

theorem Cancelled.addDelta (cancelled : state.Cancelled hash o) :
    state.addDelta hash o change = .error .zeroDelta := by
  obtain ⟨other, apart, held⟩ := cancelled
  simp only [RefState.addDelta, getMyWay, held]
  rw [if_pos (by simp [apart]), evict, held]
  rfl

theorem Reaches.hashed (reached : Reaches hash lcpuCount state) : state.Hashed hash := by
  have added : ∀ {state next o change}, state.Hashed hash →
      addDelta hash o change state = .ok next → next.Hashed hash := by
    intro state next o change hashed returns
    by_cases cancelled : state.Cancelled hash o
    · cases cancelled.addDelta.symm.trans returns
    obtain ⟨_, isNext, hashed, -⟩ := hashed.addDelta change cancelled
    cases isNext.symm.trans returns
    exact hashed
  induction reached with
  | start empty => simp [Hashed, empty]
  | inc _ returns ih | dec _ returns ih => exact added ih returns
  | flush _ returns ih =>
    obtain ⟨_, isNext, steady⟩ := ih.flush lcpuCount
    cases isNext.symm.trans returns
    exact steady.1
  | others _ _ _ ih => exact ih

/-- In every run, a call fails an assertion exactly when it evicts an object whose cached
changes have cancelled out.  Otherwise the call changes the total of its object only. -/
theorem refcache_counts (reached : Reaches hash lcpuCount state) :
    (∀ o, Counted hash o 1 state (refcacheRefobjInc hash o state) ∧
      Counted hash o (-1) state (refcacheRefobjDec hash o state)) ∧
    ∃ next, flush lcpuCount state = .ok next ∧ ∀ o, next.total hash o = state.total hash o := by
  have added : ∀ o change, Counted hash o change state (addDelta hash o change state) := by
    intro o change
    by_cases cancelled : state.Cancelled hash o
    · simp [Counted, cancelled, cancelled.addDelta]
    obtain ⟨next, isNext, -, totals⟩ := reached.hashed.addDelta change cancelled
    rw [isNext]
    refine ⟨iff_of_true ⟨next, rfl⟩ cancelled, fun _ same objs => ?_⟩
    cases same
    simp only [totals, Finset.sum_add_distrib, Finset.sum_ite_eq']
  obtain ⟨next, isNext, steady⟩ := reached.hashed.flush lcpuCount
  exact ⟨fun o => ⟨added o 1, added o (-1)⟩, next, isNext, steady.2⟩

/-- Two objects of one slot before the first call. -/
def coldCache : RefState Bool :=
  ⟨fun _ => ⟨0, none⟩, 0, [], fun _ => ⟨0, 0, false⟩, 1, 1⟩

theorem coldCache_reached : Reaches (fun _ => ⟨0, by decide⟩) 1 coldCache :=
  .start fun _ => rfl

/-- An object is evicted with its cached change by another one of its slot. -/
theorem refcache_counts_of_evicted : ∃ state next, Reaches (fun _ => ⟨0, by decide⟩) 1 state ∧
    state.total (fun _ => ⟨0, by decide⟩) true = 2 ∧
    refcacheRefobjInc (fun _ => ⟨0, by decide⟩) false state = .ok next ∧
    next.total (fun _ => ⟨0, by decide⟩) true = 2 := by
  have raised := (coldCache_reached.inc (o := true) rfl).inc (o := true) rfl
  obtain ⟨state, reached, way, total⟩ : ∃ state, Reaches (fun _ => ⟨0, by decide⟩) 1 state ∧
      state.way ⟨0, by decide⟩ = ⟨2, some true⟩ ∧
      state.total (fun _ => ⟨0, by decide⟩) true = 2 := ⟨_, raised, rfl, rfl⟩
  obtain ⟨returns, totals⟩ := ((refcache_counts reached).1 false).1
  obtain ⟨next, isNext⟩ := returns.mpr (by simp [Cancelled, way])
  refine ⟨state, next, reached, total, isNext, ?_⟩
  simpa [total] using totals next isNext {true}

/-- An increment and a decrement of one object leave it in the slot of the other. -/
theorem refcache_cancelled : ∃ state, Reaches (fun _ => ⟨0, by decide⟩) 1 state ∧
    refcacheRefobjInc (fun _ => ⟨0, by decide⟩) false state = .error .zeroDelta := by
  have raised := coldCache_reached.inc (o := true) rfl
  have lowered := raised.dec (o := true) rfl
  exact ⟨_, lowered, rfl⟩

end RefState

end UcoreSmp
