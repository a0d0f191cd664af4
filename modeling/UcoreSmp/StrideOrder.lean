import UcoreSmp.SchedRun

/-!
# The order of strides in an open system

A process starts with stride 0 whenever it is forked, and keeps its stride while
it sleeps.  The signed comparison of wrapped strides therefore compares the
unbounded sums only as long as every process enters the pool within one
`BIG_STRIDE` of the processes already there.  Under that condition
`stride_pick_next` picks a process with the smallest sum in every run; without
it, a process that is forked after its parent was charged twice is passed over.
-/

namespace UcoreSmp

/-- The history records the pool and its sums, and in a run in which every
process entered the pool near the others every pick was minimal. -/
theorem stride_picks_minimal {idle init : Nat} {state : SchedState}
    (reached : SchedReaches idle init state) (near : EntersNear state.log) :
    (∀ p proc, state.procs p = some proc → proc.lab6Stride = BitVec.ofNat 32 proc.charged) ∧
    (∃ tree, PoolTree state.links state.rq.lab6RunPool tree ∧
      (inside state.log).Perm ((treeNodes tree).map fun p => (p, chargedOf state.procs p))) ∧
    PicksMinimal state.log := by
  obtain ⟨tree, kept⟩ := reached.kept
  exact ⟨kept.logged.wraps, ⟨tree, kept.logged.shape.pool, kept.logged.logged⟩,
    (kept.logged.ordered near).2⟩

/-- Two processes take turns. -/
theorem stride_picks_minimal_two_processes : ∃ state, SchedReaches 0 1 state ∧
      state.log = [.dequeue 2, .pick 2 0, .enqueue 1 0x7FFFFFFF, .enqueue 2 0,
        .dequeue 1, .pick 1 0, .enqueue 1 0] ∧
      PicksMinimal state.log := by
  have start : SchedReaches 0 1 (schedBoot 0 1) := .boot
  have forked := start.step (.fork 1 1) ⟨rfl, rfl⟩ rfl
  have woken := forked.step .resume trivial rfl
  have ran := woken.step .schedule rfl rfl
  have forkedAgain := ran.step (.fork 2 2) ⟨rfl, rfl⟩ rfl
  have wokenAgain := forkedAgain.step .resume trivial rfl
  have switched := wokenAgain.step .schedule rfl rfl
  refine ⟨_, switched, rfl, (stride_picks_minimal switched ?_).2.2⟩
  change EntersNear [.dequeue 2, .pick 2 0, .enqueue 1 0x7FFFFFFF, .enqueue 2 0,
    .dequeue 1, .pick 1 0, .enqueue 1 0]
  simp [EntersNear, inside, Near, BIG_STRIDE]

/-- A process forked after its parent was charged two passes has the smaller sum,
but the wrapped comparison puts the parent first. -/
theorem forked_process_passed_over : ∃ state, SchedReaches 0 1 state ∧
      state.log = [.dequeue 1, .pick 1 0xFFFFFFFE, .enqueue 1 0xFFFFFFFE, .enqueue 2 0,
        .dequeue 1, .pick 1 0x7FFFFFFF, .enqueue 1 0x7FFFFFFF,
        .dequeue 1, .pick 1 0, .enqueue 1 0] ∧
      ¬ PicksMinimal state.log := by
  have start : SchedReaches 0 1 (schedBoot 0 1) := .boot
  have forked := start.step (.fork 1 1) ⟨rfl, rfl⟩ rfl
  have woken := forked.step .resume trivial rfl
  have ran := woken.step .schedule rfl rfl
  have ranAgain := ran.step .schedule rfl rfl
  have forkedAgain := ranAgain.step (.fork 2 2) ⟨rfl, rfl⟩ rfl
  have wokenAgain := forkedAgain.step .resume trivial rfl
  have switched := wokenAgain.step .schedule rfl rfl
  refine ⟨_, switched, rfl, ?_⟩
  change ¬ PicksMinimal [.dequeue 1, .pick 1 0xFFFFFFFE, .enqueue 1 0xFFFFFFFE,
    .enqueue 2 0, .dequeue 1, .pick 1 0x7FFFFFFF, .enqueue 1 0x7FFFFFFF,
    .dequeue 1, .pick 1 0, .enqueue 1 0]
  simp [PicksMinimal, inside]

end UcoreSmp
