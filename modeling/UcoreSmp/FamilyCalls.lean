import UcoreSmp.FamilyInvariant

/-!
# The calls of the process family

Each piece of `do_fork`, `do_exit`, `do_wait` and `do_kill` keeps the invariant of
the family and stops only where the source panics on purpose.
-/

namespace UcoreSmp

namespace Family

open FamilyState

structure Sound (state : FamilyState) (children : Nat → List Nat) : Prop where
  house : Household state children
  conduct : Conduct state
  ledger : Ledger state

variable {children : Nat → List Nat} {p : Nat} {state : FamilyState}

section Private

variable {update : Member → Member}

theorem Household.live_ne_idle (house : Household state children) (listed : p ∈ state.procList) :
    p ≠ state.idleproc := by
  rintro rfl
  exact house.idle listed

section

variable (zombie : (update (state.procs p)).state = .zombie ↔ (state.procs p).state = .zombie)

include zombie

theorem zombie_change (c : Nat) : (state.change p update).Zombie c ↔ state.Zombie c := by
  unfold FamilyState.Zombie
  by_cases same : c = p
  · subst same
    simpa using zombie
  · rw [change_of_ne _ _ same]

variable (kin : (update (state.procs p)).kin = (state.procs p).kin)

include kin

theorem FamilyState.NothingToReap.change {q : Nat} {pid : Int}
    (nothing : state.NothingToReap q pid) : (state.change p update).NothingToReap q pid := by
  have kinEq := change_view Member.kin state p kin
  intro c listed isChild isZombie
  have pidEq : ((state.change p update).procs c).pid = (state.procs c).pid :=
    congrArg Member.Kin.pid (kinEq c)
  have parentEq : ((state.change p update).procs c).parent = (state.procs c).parent :=
    congrArg Member.Kin.parent (kinEq c)
  rw [pidEq]
  exact nothing c listed (parentEq.symm.trans isChild) ((zombie_change zombie c).mp isZombie)

/-- A change of one process that keeps its parent, its pid and whether it is a
zombie moves no process that keeps its own state. -/
theorem Placed.change {q : Nat} (placed : Placed state q) (listed : p ∈ state.procList)
    (own : ((state.change p update).procs q).place = (state.procs q).place ∧
      ((state.change p update).procs q).state = (state.procs q).state ∧
      ((state.change p update).procs q).waitState = (state.procs q).waitState) :
    Placed (state.change p update) q := by
  have kinEq := change_view Member.kin state p kin
  have parentEq : ∀ c, ((state.change p update).procs c).parent = (state.procs c).parent :=
    fun c => congrArg Member.Kin.parent (kinEq c)
  have pidEq : ∀ c, ((state.change p update).procs c).pid = (state.procs c).pid :=
    fun c => congrArg Member.Kin.pid (kinEq c)
  apply placed.frame own
  · intro child _ notLive _
    have apart : child ≠ p := by
      rintro rfl
      exact notLive (.inr listed)
    rw [change_of_ne _ _ apart]
    exact ⟨notLive, rfl, rfl, rfl, rfl⟩
  · intro _ c listedC isChild isZombie
    exact ⟨listedC, (parentEq c).symm.trans isChild, (zombie_change zombie c).mp isZombie, pidEq c⟩
  · intro c _ _ listedC isChild isZombie
    exact ⟨listedC, (parentEq c).trans isChild, (zombie_change zombie c).mpr isZombie⟩

theorem Sound.change (sound : Sound state children) (listed : p ∈ state.procList)
    (serial : (update (state.procs p)).serial = (state.procs p).serial)
    (exitCode : (update (state.procs p)).exitCode = (state.procs p).exitCode)
    (forking : ∀ child, (update (state.procs p)).place = .forking child →
      (state.procs p).place = .forking child ∨ state.procList.length ≤ 4094 ∧
        ∀ q ∈ state.procList, (state.procs q).place ≠ .forking child)
    (gone : (update (state.procs p)).place = .gone → (state.procs p).place = .gone)
    (placed : Placed (state.change p update) p) : Sound (state.change p update) children := by
  obtain ⟨house, conduct, ledger⟩ := sound
  have kinEq := change_view Member.kin state p kin
  refine ⟨house.congr (state.sameLists_change p update) fun c _ => kinEq c,
    ⟨⟨?_, ?_, ?_, ?_, ?_, ?_, ?_⟩, ?_⟩, ledger.congr (state.sameLists_change p update) ?_⟩
  · intro q listed'
    by_cases same : q = p
    · rw [same]
      exact placed
    apply (conduct.placed q listed').change zombie kin listed
    rw [change_of_ne _ _ same]
    exact ⟨rfl, rfl, rfl⟩
  · have placeOf (q child) (isForking : ((state.change p update).procs q).place = .forking child) :
        (state.procs q).place = .forking child ∨
          q = p ∧ ∀ r ∈ state.procList, (state.procs r).place ≠ .forking child := by
      by_cases same : q = p
      · subst same
        rw [change_self] at isForking
        exact (forking child isForking).imp_right fun new => ⟨rfl, new.2⟩
      · rw [change_of_ne _ _ same] at isForking
        exact .inl isForking
    intro q listedQ r listedR child forkingQ forkingR
    rcases placeOf q child forkingQ with oldQ | ⟨isMover, new⟩
    · rcases placeOf r child forkingR with oldR | ⟨-, new⟩
      · exact conduct.drafts q listedQ r listedR child oldQ oldR
      · exact absurd oldQ (new q listedQ)
    · rcases placeOf r child forkingR with oldR | ⟨isMover', -⟩
      · exact absurd oldR (new r listedR)
      · exact isMover.trans isMover'.symm
  · intro c listedC isOwn
    have parentEq := congrArg Member.Kin.parent (kinEq c)
    exact conduct.notOwn c listedC (parentEq.symm.trans isOwn)
  · have parentEq := congrArg Member.Kin.parent (kinEq state.initproc)
    exact parentEq.trans conduct.initParent
  · intro isGone
    apply conduct.initStays
    change ((state.change p update).procs state.initproc).place = .gone at isGone
    by_cases same : state.initproc = p
    · rw [same, change_self] at isGone
      rw [same]
      exact gone isGone
    · rwa [change_of_ne _ _ same] at isGone
  · have apart : state.idleproc ≠ p := fun same => house.idle (same ▸ listed)
    change ((state.change p update).procs state.idleproc).waitState = 0
    rw [change_of_ne _ _ apart]
    exact conduct.idleAwake
  · by_cases few : state.procList.length ≤ 4094
    · exact Nat.add_le_add (few.trans (by decide)) (List.countP_le_length.trans few)
    refine le_trans (Nat.add_le_add_left ?_ _) conduct.room
    apply List.countP_mono_left
    intro q _ isForking
    by_cases same : q = p
    · subst same
      rw [change_self] at isForking
      cases place : (update (state.procs q)).place with
      | forking child =>
        rw [(forking child place).resolve_right fun new => few new.1]
        rfl
      | _ => simp [place, Place.isForking] at isForking
    · rwa [change_of_ne _ _ same] at isForking
  · intro c listedC q isChild isZombie
    have parentEq := congrArg Member.Kin.parent (kinEq c)
    exact conduct.heirs c listedC q (parentEq.symm.trans isChild)
      ((zombie_change zombie q).mp isZombie)
  intro c _
  refine ⟨?_, zombie_change zombie c, ?_⟩
  · exact change_view Member.serial state p serial c
  · exact change_view Member.exitCode state p exitCode c

end

theorem Sound.move (sound : Sound state children) (listed : p ∈ state.procList)
    {place : Place} (notForking : place.isForking = false)
    (placed : Placed (state.change p fun proc => { proc with place := place }) p)
    (notGone : place ≠ .gone) :
    Sound (state.change p fun proc => { proc with place := place }) children :=
  sound.change Iff.rfl rfl listed rfl rfl
    (fun _ same => absurd ((congrArg Place.isForking same).symm.trans notForking) Bool.noConfusion)
    (fun isGone => absurd isGone notGone) placed

end Private

def FamilyState.awaken (state : FamilyState) (p : Nat) : FamilyState :=
  if (state.procs p).state = .runnable then state
  else state.change p fun proc => { proc with state := .runnable, waitState := 0 }

theorem ends_wakeupProc {post : PUnit → FamilyState → Prop} {faulty : FamilyFault → Prop}
    (alive : (state.procs p).state ≠ .zombie) :
    Ends (wakeupProc p) post faulty state ↔ post () (state.awaken p) := by
  unfold wakeupProc awaken
  by_cases runnable : (state.procs p).state = .runnable
  · simp [runnable]
  · simp [runnable, alive, updateMember]

theorem ends_derefParent {post : Nat → FamilyState → Prop} {faulty : FamilyFault → Prop}
    (isParent : (state.procs p).parent = some q) :
    Ends (derefParent p) post faulty state ↔ post q state := by
  simp only [derefParent, ends_bind, ends_get, isParent, ends_pure]

/-- A process is awake, asleep in `do_wait`, or gone. -/
theorem Placed.awake_or (placed : Placed state p) : (state.procs p).Awake ∨
      ((state.procs p).state = .sleeping ∧ (state.procs p).waitState = WT_CHILD ∧
        ∃ pid store, (state.procs p).place = .asleep pid store) ∨
      ((state.procs p).state = .zombie ∧ (state.procs p).waitState = 0 ∧
        (state.procs p).place = .gone) := by
  unfold Placed at placed
  revert placed
  cases (state.procs p).place with
  | outside | scanning | killed => exact .inl
  | forking | reaping => exact fun placed => .inl placed.1
  | gone =>
    rintro ⟨dead, idle⟩
    exact .inr (.inr ⟨dead, idle, rfl⟩)
  | asleep pid store =>
    rintro (awake | ⟨sleeping, waiting, -⟩)
    · exact .inl awake
    · exact .inr (.inl ⟨sleeping, waiting, pid, store, rfl⟩)

theorem Placed.alive_of_ne_gone (placed : Placed state p)
    (notGone : (state.procs p).place ≠ .gone) : (state.procs p).state ≠ .zombie := by
  rcases placed.awake_or with awake | ⟨sleeping, -⟩ | ⟨-, -, gone⟩
  · simp [awake.1]
  · simp [sleeping]
  · exact absurd gone notGone

theorem Placed.asleep_of_waitState (placed : Placed state p)
    (waits : (state.procs p).waitState ≠ 0) :
    (state.procs p).state = .sleeping ∧ (state.procs p).waitState = WT_CHILD ∧
      ∃ pid store, (state.procs p).place = .asleep pid store := by
  rcases placed.awake_or with awake | asleep | ⟨-, idle, -⟩
  · exact absurd awake.2 waits
  · exact asleep
  · exact absurd idle waits

theorem Placed.waitState_of_sleeping (placed : Placed state p)
    (sleeping : (state.procs p).state = .sleeping) : (state.procs p).waitState = WT_CHILD := by
  rcases placed.awake_or with awake | ⟨-, waiting, -⟩ | ⟨dead, -⟩
  · rw [awake.1] at sleeping
    simp at sleeping
  · exact waiting
  · rw [dead] at sleeping
    simp at sleeping

theorem Sound.awaken (sound : Sound state children) (listed : p ∈ state.procList)
    (waits : (state.procs p).waitState ≠ 0) : Sound (state.awaken p) children := by
  obtain ⟨sleeping, -, pid, store, place⟩ :=
    (sound.conduct.placed p listed).asleep_of_waitState waits
  have notRunnable : (state.procs p).state ≠ .runnable := by simp [sleeping]
  rw [FamilyState.awaken, if_neg notRunnable]
  apply sound.change (by simp [sleeping]) rfl listed rfl rfl (fun _ => .inl) id
  unfold Placed Member.Awake
  simp [place]

theorem Sound.doKill_ends (sound : Sound state children) (pid : Int) :
    Ends (doKill pid) (fun _ next => Sound next children) (fun _ => False) state := by
  unfold doKill
  rw [ends_bind, ends_get]
  cases found : state.findProc pid with
  | none => exact sound
  | some p =>
    obtain ⟨listed, -⟩ := sound.house.findProc_iff.mp found
    have placed := sound.conduct.placed p listed
    simp only [ends_ite, ends_bind, ends_pure, updateMember, ends_modify]
    refine ⟨fun _ => sound, fun _ => ?_⟩
    have marked : Sound (state.change p fun member => { member with exiting := true })
        children := by
      apply sound.change Iff.rfl rfl listed rfl rfl (fun _ => .inl) id
      exact placed.change Iff.rfl rfl listed (by simp)
    refine ⟨fun interruptible => ?_, fun _ => marked⟩
    have waits : (state.procs p).waitState ≠ 0 := by
      intro zero
      simp [zero] at interruptible
    have sleeping := (placed.asleep_of_waitState waits).1
    rw [ends_wakeupProc (by simp [sleeping])]
    exact marked.awaken listed (by simpa using waits)

section Wait

variable {pid : Int} {store : Bool}

/-- The search finds a zombie child, or knows that there is none to reap. -/
def Searched (state : FamilyState) (p : Nat) (pid : Int) : Option Nat × Bool → Prop
  | (some child, _) => child ∈ state.procList ∧ (state.procs child).parent = some p ∧
      state.Zombie child ∧ (pid ≠ 0 → (state.procs child).pid = pid)
  | (none, _) => state.NothingToReap p pid

theorem scanChildren_spec {before : Option Nat} {rest : List Nat} {fuel : Nat} (haskid : Bool)
    (linked : Siblings (fun c => (state.procs c).optr) (fun c => (state.procs c).yptr)
      before none rest) (enough : rest.length < fuel) :
    ∃ found haskid', scanChildren state fuel rest.head? haskid = .ok (found, haskid') ∧
      match found with
      | some child => child ∈ rest ∧ state.Zombie child
      | none => ∀ c ∈ rest, ¬ state.Zombie c := by
  induction rest generalizing before fuel haskid with
  | nil =>
    obtain ⟨fuel, rfl⟩ := Nat.exists_eq_add_one.mpr (Nat.zero_lt_of_lt enough)
    exact ⟨none, haskid, rfl, by simp⟩
  | cons first rest ih =>
    obtain ⟨fuel, rfl⟩ := Nat.exists_eq_add_one.mpr (Nat.zero_lt_of_lt enough)
    obtain ⟨-, olderEq, linked⟩ := linked
    have olderFirst : (state.procs first).optr = rest.head? := by simpa using olderEq
    by_cases isZombie : (state.procs first).state = .zombie
    · exact ⟨some first, true, by simp [scanChildren, isZombie], by simp, isZombie⟩
    obtain ⟨found, haskid', scanned, spec⟩ := ih true linked (Nat.lt_of_succ_lt_succ enough)
    refine ⟨found, haskid', by simp [scanChildren, isZombie, olderFirst, scanned], ?_⟩
    cases found with
    | some child => exact ⟨List.mem_cons_of_mem _ spec.1, spec.2⟩
    | none =>
      intro c member
      rcases List.mem_cons.mp member with rfl | later
      · exact isZombie
      · exact spec c later

theorem Household.children_length (house : Household state children) (live : state.Live p) :
    (children p).length ≤ state.procList.length := by
  apply List.Subperm.length_le
  apply List.subperm_of_subset (house.kin.nodup p live)
  intro c member
  exact ((house.kin.mem p c live).mp member).1

theorem Household.searchChild_spec (house : Household state children) (listed : p ∈ state.procList)
    (pid : Int) : ∃ result, searchChild state p pid = .ok result ∧ Searched state p pid result := by
  unfold searchChild
  by_cases anyChild : pid = 0
  · have live : state.Live p := .inr listed
    obtain ⟨found, haskid, scanned, spec⟩ :=
      scanChildren_spec false (house.kin.linked p live)
        (Nat.lt_succ_of_le (house.children_length live))
    rw [if_neg (by simpa using anyChild), house.kin.head p live]
    refine ⟨_, scanned, ?_⟩
    cases found with
    | some child =>
      obtain ⟨listedChild, isChild⟩ := (house.kin.mem p child live).mp spec.1
      exact ⟨listedChild, isChild, spec.2, fun notAny => absurd anyChild notAny⟩
    | none =>
      intro c listedC isChild isZombie
      exact absurd isZombie (spec c ((house.kin.mem p c live).mpr ⟨listedC, isChild⟩))
  rw [if_pos anyChild]
  cases found : state.findProc pid with
  | none =>
    refine ⟨_, rfl, ?_⟩
    intro c listedC _ _
    refine ⟨anyChild, fun samePid => ?_⟩
    have := house.findProc_iff.mpr ⟨listedC, samePid⟩
    rw [found] at this
    simp at this
  | some child =>
    obtain ⟨listedChild, childPid⟩ := house.findProc_iff.mp found
    have only : ∀ c ∈ state.procList, (state.procs c).pid = pid → c = child := by
      intro c listedC samePid
      have := house.findProc_iff.mpr ⟨listedC, samePid⟩
      rw [found] at this
      exact (Option.some.inj this).symm
    by_cases isChild : (state.procs child).parent = some p
    · by_cases isZombie : (state.procs child).state = .zombie
      · refine ⟨(some child, true), by simp [isChild, isZombie], ?_⟩
        exact ⟨listedChild, isChild, isZombie, fun _ => childPid⟩
      refine ⟨(none, true), by simp [isChild, isZombie], ?_⟩
      intro c listedC _ zombieC
      refine ⟨anyChild, fun samePid => ?_⟩
      rw [only c listedC samePid] at zombieC
      exact isZombie zombieC
    refine ⟨(none, false), by simp [isChild], ?_⟩
    intro c listedC childC _
    refine ⟨anyChild, fun samePid => ?_⟩
    rw [only c listedC samePid] at childC
    exact isChild childC

/-- `do_wait` looks for a child and, if there is none to reap, sleeps or returns. -/
theorem Sound.waitScan_ends (sound : Sound state children) (listed : p ∈ state.procList)
    (place : (state.procs p).place = .scanning pid store) :
    Ends (waitScan p pid store) (fun _ next => Sound next children ∧ (¬ state.NothingToReap p pid →
        ∃ child, (next.procs p).place = .reaping child store ∧
          (pid ≠ 0 → (state.procs child).pid = pid)))
      (fun _ => False) state := by
  have awake := (placed_scanning place).mp (sound.conduct.placed p listed)
  obtain ⟨⟨found, haskid⟩, searched, spec⟩ := sound.house.searchChild_spec listed pid
  have lifted : Ends (liftM (searchChild state p pid) : FamilyM (Option Nat × Bool))
      (fun result next => result = (found, haskid) ∧ next = state) (fun _ => False) state := by
    rw [searched]
    exact ⟨rfl, rfl⟩
  unfold waitScan
  rw [ends_bind, ends_get, ends_bind]
  refine lifted.weaken ?_
  rintro _ _ ⟨rfl, rfl⟩
  cases found with
  | some child =>
    obtain ⟨listedChild, isChild, isZombie, samePid⟩ := spec
    refine ⟨?_, fun _ => ⟨child, by simp, samePid⟩⟩
    have apart : child ≠ p := by
      rintro rfl
      rw [FamilyState.Zombie, awake.1] at isZombie
      simp at isZombie
    apply sound.move listed rfl _ (by simp)
    unfold Placed
    simp only [change_self, change_of_ne _ _ apart]
    refine ⟨awake, listedChild, isChild, ?_⟩
    rw [FamilyState.Zombie, change_of_ne _ _ apart]
    exact isZombie
  | none =>
    have nothing : ¬ ¬ _ := not_not_intro spec
    simp only [ends_ite, updateMember, ends_modify]
    constructor
    · intro _
      refine ⟨?_, fun some => absurd some nothing⟩
      apply sound.change _ rfl listed rfl rfl (by simp) (by simp)
      · unfold Placed
        simp only [change_self]
        exact .inr ⟨trivial, trivial, spec.change (by simp [awake.1]) rfl⟩
      · simp [awake.1]
    intro _
    refine ⟨?_, fun some => absurd some nothing⟩
    apply sound.move listed rfl _ (by simp)
    unfold Placed
    simpa [Member.Awake] using awake

theorem Sound.waitResume_ends (sound : Sound state children) (listed : p ∈ state.procList)
    (place : (state.procs p).place = .asleep pid store)
    (runnable : (state.procs p).state = .runnable) :
    Ends (waitResume p pid store) (fun _ next => Sound next children) (fun _ => False) state := by
  have awake : (state.procs p).Awake := by
    rcases (placed_asleep place).mp (sound.conduct.placed p listed) with awake | ⟨sleeping, -⟩
    · exact awake
    · rw [sleeping] at runnable
      simp at runnable
  simp only [waitResume, ends_bind, ends_get, ends_ite, updateMember, ends_modify]
  constructor
  · intro _
    apply sound.move listed rfl _ (by simp)
    unfold Placed
    simpa [Member.Awake] using awake
  intro _
  apply sound.move listed rfl _ (by simp)
  unfold Placed
  simpa [Member.Awake] using awake

end Wait

end Family

end UcoreSmp
