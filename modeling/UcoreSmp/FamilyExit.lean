import UcoreSmp.FamilyCalls

/-!
# Exiting

`do_exit` wakes the parent and hands the children to `initproc`, one by one.
While the loop runs, the children that are left form a list of their own that no
live process leads to.
-/

namespace UcoreSmp

open List

namespace Family

open Member

open FamilyState

variable {children : Nat → List Nat} {α : Type*} {state next : FamilyState}

section Adoption

variable {p c : Nat} {rest : List Nat}

/-- The exiting process `p` still has the children `rest`; everything else is in
order. -/
structure Orphans (state : FamilyState) (p : Nat) (rest : List Nat)
    (children : Nat → List Nat) : Prop where
  roster : Roster state
  stance : Stance state
  ledger : Ledger state
  listed : p ∈ state.procList
  zombie : state.Zombie p
  notInit : p ≠ state.initproc
  kin : Kinship state.procs (fun q => state.Live q ∧ q ≠ p)
    (fun c => c ∈ state.procList ∧ c ∉ rest) children
  head : (state.procs p).cptr = rest.head?
  linked : ∃ before,
    Siblings (fun c => (state.procs c).optr) (fun c => (state.procs c).yptr) before none rest
  nodup : rest.Nodup
  restListed : ∀ c ∈ rest, c ∈ state.procList
  isChild : ∀ c ∈ state.procList, c ∈ rest ↔ (state.procs c).parent = some p
  heirs : ∀ c ∈ state.procList, c ∉ rest → ∀ q, (state.procs c).parent = some q → ¬ state.Zombie q

theorem Orphans.sound (orphans : Orphans state p [] children) :
    Sound state (Function.update children p []) := by
  have noChild : ∀ c ∈ state.procList, (state.procs c).parent ≠ some p := by
    intro c listed isParent
    have member := (orphans.isChild c listed).mpr isParent
    simp at member
  refine ⟨⟨orphans.roster, ?_⟩, ⟨orphans.stance, ?_⟩, orphans.ledger⟩
  · have childless : (state.procs p).cptr = none := by simpa using orphans.head
    have grown := orphans.kin.newcomer childless (fun d listed => noChild d listed.1)
    refine (grown.restrict ?_).congr (fun _ _ => rfl) ?_ fun _ _ => ⟨rfl, rfl, rfl⟩
    · intro q live
      by_cases same : q = p
      · exact .inl same
      · exact .inr ⟨live, same⟩
    · intro c
      simp
  · exact fun c listed => orphans.heirs c listed (by simp)

/-- One child has been handed to `initproc`. -/
structure Rehomed (state next : FamilyState) (p c : Nat) : Prop where
  lists : state.SameLists next
  pid : ∀ x, (next.procs x).pid = (state.procs x).pid
  place : ∀ x, (next.procs x).place = (state.procs x).place
  serial : ∀ x, (next.procs x).serial = (state.procs x).serial
  exitCode : ∀ x, (next.procs x).exitCode = (state.procs x).exitCode
  parent : ∀ x, (next.procs x).parent = if x = c then some state.initproc else
    (state.procs x).parent
  cptr : ∀ x, (next.procs x).cptr = if x = state.initproc then some c
    else if x = p then (state.procs c).optr else (state.procs x).cptr
  optr : ∀ x, (next.procs x).optr =
    if x = c then (state.procs state.initproc).cptr else (state.procs x).optr
  yptr : ∀ x, (next.procs x).yptr = if (state.procs state.initproc).cptr = some x then some c
    else if x = c then none else (state.procs x).yptr
  others : ∀ x, x ≠ state.initproc → (next.procs x).state = (state.procs x).state ∧
    (next.procs x).waitState = (state.procs x).waitState

theorem Rehomed.awaken (rehomed : Rehomed state next p c) :
    Rehomed state (next.change state.initproc fun proc =>
      { proc with state := .runnable, waitState := 0 }) p c where
  lists := rehomed.lists.trans (sameLists_change _ _ _)
  pid x := (change_view Member.pid _ _ rfl x).trans (rehomed.pid x)
  place x := (change_view Member.place _ _ rfl x).trans (rehomed.place x)
  serial x := (change_view Member.serial _ _ rfl x).trans (rehomed.serial x)
  exitCode x := (change_view Member.exitCode _ _ rfl x).trans (rehomed.exitCode x)
  parent x := (change_view Member.parent _ _ rfl x).trans (rehomed.parent x)
  cptr x := (change_view Member.cptr _ _ rfl x).trans (rehomed.cptr x)
  optr x := (change_view Member.optr _ _ rfl x).trans (rehomed.optr x)
  yptr x := (change_view Member.yptr _ _ rfl x).trans (rehomed.yptr x)
  others x other := by
    rw [change_of_ne _ _ other]
    exact rehomed.others x other

/-- `initproc` has been woken if it has to reap the child. -/
structure Adoption (state next : FamilyState) (p c : Nat) : Prop
    extends Rehomed state next p c where
  init : ((next.procs state.initproc).state = (state.procs state.initproc).state ∧
      (next.procs state.initproc).waitState = (state.procs state.initproc).waitState ∧
      ((state.procs state.initproc).state = .sleeping → ¬ state.Zombie c)) ∨
    ((next.procs state.initproc).Awake ∧ (state.procs state.initproc).waitState ≠ 0)

variable {d : Nat}

theorem Adoption.parent_of_ne (adoption : Adoption state next p c) (other : d ≠ c) :
    (next.procs d).parent = (state.procs d).parent := by
  rw [adoption.parent, if_neg other]

namespace Orphans

variable (orphans : Orphans state p (c :: rest) children)

include orphans

theorem parent : (state.procs c).parent = some p :=
  (orphans.isChild c (orphans.restListed c (by simp))).mp (by simp)

theorem listedChild : c ∈ state.procList := orphans.restListed c (by simp)

theorem ne_init : c ≠ state.initproc := by
  rintro rfl
  have parent := orphans.parent
  rw [orphans.stance.initParent] at parent
  exact orphans.roster.idle (Option.some.inj parent ▸ orphans.listed)

theorem notMem_rest : c ∉ rest := (nodup_cons.mp orphans.nodup).1

theorem init_awake_of_wait (waits : (state.procs state.initproc).waitState ≠ 0) :
    (state.procs state.initproc).state = .sleeping ∧
      ∃ pid store, (state.procs state.initproc).place = .asleep pid store := by
  obtain ⟨sleeping, -, asleep⟩ :=
    (orphans.stance.placed _ orphans.roster.init).asleep_of_waitState waits
  exact ⟨sleeping, asleep⟩

/-- The eldest of the children of `initproc` is none of those that are left. -/
theorem init_head_notMem (isHead : (state.procs state.initproc).cptr = some d) :
    d ∈ state.procList ∧ d ∉ c :: rest := by
  have live : state.Live state.initproc ∧ state.initproc ≠ p :=
    ⟨.inr orphans.roster.init, orphans.notInit.symm⟩
  rw [orphans.kin.head _ live] at isHead
  exact ((orphans.kin.mem _ d live).mp (mem_of_mem_head? isHead)).1

variable (adoption : Adoption state next p c)

include adoption

theorem zombie_iff (x : Nat) : next.Zombie x ↔ state.Zombie x := by
  unfold FamilyState.Zombie
  by_cases isInit : x = state.initproc
  · subst isInit
    rcases adoption.init with ⟨stateEq, -, -⟩ | ⟨awake, waits⟩
    · rw [stateEq]
    · rw [awake.1, (orphans.init_awake_of_wait waits).1]
      simp
  · rw [(adoption.others x isInit).1]

theorem kinship : Kinship next.procs (fun q => state.Live q ∧ q ≠ p)
    (fun d => d ∈ state.procList ∧ d ∉ rest)
    (Function.update children state.initproc (c :: children state.initproc)) := by
  have pushed : Kinship next.procs (fun q => state.Live q ∧ q ≠ p)
      (fun d => d = c ∨ (d ∈ state.procList ∧ d ∉ c :: rest))
      (Function.update children state.initproc (c :: children state.initproc)) := by
    apply orphans.kin.push ⟨.inr orphans.roster.init, orphans.notInit.symm⟩
    · simp
    · rw [adoption.cptr, if_pos rfl]
    · intro q live notInit
      rw [adoption.cptr, if_neg notInit, if_neg live.2]
    · rw [adoption.optr, if_pos rfl]
    · rw [adoption.yptr, if_neg, if_pos rfl]
      intro isHead
      exact (orphans.init_head_notMem isHead).2 (by simp)
    · rw [adoption.parent, if_pos rfl]
    · intro d other
      rw [adoption.optr, if_neg other]
    · intro d other notHead
      rw [adoption.yptr, if_neg notHead, if_neg other]
    · intro d _ isHead
      rw [adoption.yptr, if_pos isHead]
    · intro d other
      rw [adoption.parent, if_neg other]
  apply pushed.congr (fun _ _ => rfl) _ fun _ _ => ⟨rfl, rfl, rfl⟩
  intro d
  by_cases isChild : d = c
  · subst isChild
    simp [orphans.listedChild, orphans.notMem_rest]
  · simp [isChild]

theorem stance_next : Stance next := by
  obtain ⟨procs, rfl⟩ := adoption.lists.exists_procs
  have stance := orphans.stance
  have roster := orphans.roster
  have zombieEq := orphans.zombie_iff adoption
  constructor
  · intro q listed
    have placed := stance.placed q listed
    -- `initproc` may have been woken
    by_cases woken : q = state.initproc ∧ (procs q).Awake ∧ (state.procs q).waitState ≠ 0
    · obtain ⟨rfl, awake, waits⟩ := woken
      obtain ⟨-, pid, store, place⟩ := orphans.init_awake_of_wait waits
      exact (placed_asleep ((adoption.place _).trans place)).mpr (.inl awake)
    have own : (procs q).state = (state.procs q).state ∧
        (procs q).waitState = (state.procs q).waitState ∧
        (q = state.initproc → (state.procs q).state = .sleeping → ¬ state.Zombie c) := by
      by_cases isInit : q = state.initproc
      · subst isInit
        rcases adoption.init with ⟨stateEq, waitEq, notZombie⟩ | awoken
        · exact ⟨stateEq, waitEq, fun _ => notZombie⟩
        · exact absurd ⟨rfl, awoken⟩ woken
      · exact ⟨(adoption.others q isInit).1, (adoption.others q isInit).2,
          fun same => absurd same isInit⟩
    apply placed.frame ⟨adoption.place q, own.1, own.2.1⟩
    · intro draft _ notLive _
      have notC : draft ≠ c := by
        rintro rfl
        exact notLive (.inr orphans.listedChild)
      have notP : draft ≠ p := by
        rintro rfl
        exact notLive (.inr orphans.listed)
      have notInit : draft ≠ state.initproc := by
        rintro rfl
        exact notLive (.inr roster.init)
      refine ⟨notLive, adoption.parent_of_ne notC,
        (adoption.others draft notInit).1, adoption.place draft, ?_⟩
      rw [adoption.cptr, if_neg notInit, if_neg notP]
    · intro sleeping d listedD isChild isZombie
      rw [zombieEq] at isZombie
      have notC : d ≠ c := by
        rintro rfl
        rw [adoption.parent, if_pos rfl] at isChild
        exact own.2.2 (Option.some.inj isChild).symm sleeping isZombie
      exact ⟨listedD, (adoption.parent_of_ne notC).symm.trans isChild, isZombie, adoption.pid d⟩
    intro d _ isReaping listedD isChild isZombie
    have notC : d ≠ c := by
      rintro rfl
      rw [orphans.parent] at isChild
      obtain rfl : p = q := Option.some.inj isChild
      have alive := ((placed_reaping isReaping).mp placed).1.1
      have dead := orphans.zombie
      rw [FamilyState.Zombie, alive] at dead
      simp at dead
    rw [zombieEq]
    exact ⟨listedD, (adoption.parent_of_ne notC).trans isChild, isZombie⟩
  · intro q listedQ r listedR draft forkingQ forkingR
    rw [adoption.place] at forkingQ forkingR
    exact stance.drafts q listedQ r listedR draft forkingQ forkingR
  · intro d listedD isOwn
    by_cases isChild : d = c
    · rw [adoption.parent, if_pos isChild] at isOwn
      exact orphans.ne_init (isChild ▸ (Option.some.inj isOwn).symm)
    · rw [adoption.parent_of_ne isChild] at isOwn
      exact stance.notOwn d listedD isOwn
  · exact (adoption.parent_of_ne orphans.ne_init.symm).trans stance.initParent
  · rw [adoption.place]
    exact stance.initStays
  · have notInit : state.idleproc ≠ state.initproc := fun same => roster.idle (same ▸ roster.init)
    exact (adoption.others _ notInit).2.trans stance.idleAwake
  · have room := stance.room
    simp only [← adoption.place] at room
    exact room

theorem adopt : Orphans next p rest
    (Function.update children state.initproc (c :: children state.initproc)) := by
  obtain ⟨procs, rfl⟩ := adoption.lists.exists_procs
  have zombieEq := orphans.zombie_iff adoption
  obtain ⟨before, yptrEq, optrEq, linked⟩ := orphans.linked
  simp only [Option.or_none] at optrEq
  refine ⟨?_, orphans.stance_next adoption, ?_, orphans.listed, (zombieEq p).mpr orphans.zombie,
    orphans.notInit, orphans.kinship adoption, ?_, ?_, (nodup_cons.mp orphans.nodup).2,
    fun d member => orphans.restListed d (by simp [member]), ?_, ?_⟩
  · apply orphans.roster.congr adoption.lists
    · intro d listedD
      by_cases isChild : d = c
      · exact ⟨state.initproc, .inr orphans.roster.init, by rw [adoption.parent, if_pos isChild]⟩
      · rw [adoption.parent_of_ne isChild]
        exact orphans.roster.parents d listedD
    · exact fun d _ => adoption.pid d
  · exact orphans.ledger.congr adoption.lists fun d _ =>
      ⟨adoption.serial d, zombieEq d, adoption.exitCode d⟩
  · rw [adoption.cptr, if_neg orphans.notInit, if_pos rfl]
    exact optrEq
  · refine ⟨some c, linked.congr ?_ ?_⟩
    · intro d member
      have notC : d ≠ c := fun same => orphans.notMem_rest (same ▸ member)
      exact (adoption.optr d).trans (if_neg notC)
    intro d member
    have notC : d ≠ c := fun same => orphans.notMem_rest (same ▸ member)
    have notHead : (state.procs state.initproc).cptr ≠ some d := fun isHead =>
      (orphans.init_head_notMem isHead).2 (by simp [member])
    exact (adoption.yptr d).trans ((if_neg notHead).trans (if_neg notC))
  · intro d listedD
    by_cases isChild : d = c
    · rw [adoption.parent, if_pos isChild, isChild]
      refine iff_of_false orphans.notMem_rest fun same => orphans.notInit ?_
      exact (Option.some.inj same).symm
    · rw [adoption.parent_of_ne isChild, ← orphans.isChild d listedD, mem_cons]
      simp [isChild]
  intro d listedD notLeft q isParent
  rw [zombieEq]
  by_cases isChild : d = c
  · rw [adoption.parent, if_pos isChild] at isParent
    obtain rfl : state.initproc = q := Option.some.inj isParent
    have placed := orphans.stance.placed _ orphans.roster.init
    exact placed.alive_of_ne_gone orphans.stance.initStays
  · rw [adoption.parent_of_ne isChild] at isParent
    exact orphans.heirs d listedD (by simp [isChild, notLeft]) q isParent

end Orphans

def adoptedState (state : FamilyState) (p c : Nat) : FamilyState :=
  let state := state.change p fun proc => { proc with cptr := (state.procs c).optr }
  let state := state.pushChild state.initproc c
  state.change c fun proc => { proc with parent := some state.initproc }

theorem adoptedState_view (view : Member → α)
    (links : ∀ member : Member, view member.unlinked = view member)
    (parents : ∀ (member : Member) parent, view { member with parent := parent } = view member)
    (x : Nat) : view ((adoptedState state p c).procs x) = view (state.procs x) := by
  unfold adoptedState
  rw [change_view view _ _ (parents _ _), ← links, pushChild_unlinked,
    change_view unlinked _ _ rfl, links]

theorem adoptedState_sameLists : state.SameLists (adoptedState state p c) := by
  unfold adoptedState
  exact ((state.sameLists_change p _).trans (sameLists_pushChild _ _ _)).trans
    (sameLists_change _ c _)

theorem adoptedState_parent (x : Nat) : ((adoptedState state p c).procs x).parent =
      if x = c then some state.initproc else (state.procs x).parent := by
  have initEq : initproc (pushChild (state.change p fun proc =>
      { proc with cptr := (state.procs c).optr }) state.initproc c) = state.initproc := by
    have lists := sameLists_pushChild (state.change p fun proc =>
      { proc with cptr := (state.procs c).optr }) state.initproc c
    rw [lists]
    rfl
  unfold adoptedState
  by_cases same : x = c
  · rw [same, change_self, if_pos rfl]
    exact congrArg some initEq
  rw [change_of_ne _ _ same, if_neg same]
  have kept := congrArg parent (pushChild_unlinked
    (state.change p fun proc => { proc with cptr := (state.procs c).optr }) state.initproc c x)
  exact kept.trans (change_view parent state p rfl x)

theorem adoptedState_cptr (x : Nat) :
    ((adoptedState state p c).procs x).cptr = if x = state.initproc then some c
      else if x = p then (state.procs c).optr else (state.procs x).cptr := by
  unfold adoptedState
  rw [change_view cptr _ _ rfl, pushChild_cptr]
  congr 1
  by_cases same : x = p
  · rw [same, change_self, if_pos rfl]
  · rw [change_of_ne _ _ same, if_neg same]

section

variable (notInit : p ≠ state.initproc)

include notInit

theorem adoptedState_optr (x : Nat) : ((adoptedState state p c).procs x).optr =
      if x = c then (state.procs state.initproc).cptr else (state.procs x).optr := by
  unfold adoptedState
  rw [change_view optr _ _ rfl, pushChild_optr, change_view optr _ _ rfl]
  congr 2
  exact change_of_ne _ _ notInit.symm

theorem adoptedState_yptr (x : Nat) : ((adoptedState state p c).procs x).yptr =
      if (state.procs state.initproc).cptr = some x then some c
      else if x = c then none else (state.procs x).yptr := by
  have initEq : ((state.change p fun proc =>
      { proc with cptr := (state.procs c).optr }).procs state.initproc).cptr =
      (state.procs state.initproc).cptr :=
    congrArg cptr (change_of_ne _ _ notInit.symm)
  unfold adoptedState
  rw [change_view yptr _ _ rfl, pushChild_yptr, change_view yptr _ _ rfl]
  exact congrArg (fun cptr : Option Nat => if cptr = some x then some c
    else if x = c then none else (state.procs x).yptr) initEq

theorem rehomed_adoptedState : Rehomed state (adoptedState state p c) p c where
  lists := adoptedState_sameLists
  pid := adoptedState_view pid (fun _ => rfl) (fun _ _ => rfl)
  place := adoptedState_view place (fun _ => rfl) (fun _ _ => rfl)
  serial := adoptedState_view serial (fun _ => rfl) (fun _ _ => rfl)
  exitCode := adoptedState_view exitCode (fun _ => rfl) (fun _ _ => rfl)
  parent := adoptedState_parent
  cptr := adoptedState_cptr
  optr := adoptedState_optr notInit
  yptr := adoptedState_yptr notInit
  others x _ := ⟨adoptedState_view Member.state (fun _ => rfl) (fun _ _ => rfl) x,
    adoptedState_view waitState (fun _ => rfl) (fun _ _ => rfl) x⟩

end

theorem Orphans.adoptChild_ends (orphans : Orphans state p (c :: rest) children) :
    Ends (adoptChild p c) (fun _ next => Adoption state next p c) (fun _ => False) state := by
  have stateEq : ∀ x, ((adoptedState state p c).procs x).state = (state.procs x).state :=
    adoptedState_view Member.state (fun _ => rfl) (fun _ _ => rfl)
  have waitEq : ∀ x, ((adoptedState state p c).procs x).waitState = (state.procs x).waitState :=
    adoptedState_view waitState (fun _ => rfl) (fun _ _ => rfl)
  have initEq : (adoptedState state p c).initproc = state.initproc := by
    rw [adoptedState_sameLists]
  change Ends (if ((adoptedState state p c).procs c).state = .zombie ∧
      ((adoptedState state p c).procs (adoptedState state p c).initproc).waitState = WT_CHILD then
      wakeupProc (adoptedState state p c).initproc else pure ()) _ _
    (adoptedState state p c)
  rw [ends_ite, ends_pure, initEq, stateEq, waitEq]
  constructor
  · rintro ⟨-, waitsChild⟩
    have waits : (state.procs state.initproc).waitState ≠ 0 := by
      rw [waitsChild]
      decide
    have sleeping := (orphans.init_awake_of_wait waits).1
    rw [ends_wakeupProc (by rw [stateEq, sleeping]; simp), awaken,
      if_neg (by rw [stateEq, sleeping]; simp)]
    refine ⟨(rehomed_adoptedState orphans.notInit).awaken, .inr ⟨?_, waits⟩⟩
    rw [change_self]
    exact ⟨rfl, rfl⟩
  intro notBoth
  refine ⟨rehomed_adoptedState orphans.notInit, .inl ⟨stateEq _, waitEq _, ?_⟩⟩
  intro sleeping isZombie
  apply notBoth
  exact ⟨isZombie, (orphans.stance.placed _ orphans.roster.init).waitState_of_sleeping sleeping⟩

theorem Orphans.adoptChildren_ends {fuel : Nat} (orphans : Orphans state p rest children)
    (enough : rest.length < fuel) :
    Ends (adoptChildren fuel p) (fun _ next => ∃ children', Sound next children')
      (fun _ => False) state := by
  induction rest generalizing state children fuel with
  | nil =>
    obtain ⟨fuel, rfl⟩ := Nat.exists_eq_add_one.mpr (Nat.zero_lt_of_lt enough)
    have noChild : (state.procs p).cptr = none := by simpa using orphans.head
    rw [adoptChildren, ends_bind, ends_get, noChild]
    exact ⟨_, orphans.sound⟩
  | cons first rest ih =>
    obtain ⟨fuel, rfl⟩ := Nat.exists_eq_add_one.mpr (Nat.zero_lt_of_lt enough)
    have isFirst : (state.procs p).cptr = some first := by simpa using orphans.head
    rw [adoptChildren, ends_bind, ends_get, isFirst]
    simp only [ends_bind]
    refine orphans.adoptChild_ends.weaken ?_
    intro _ next adoption
    exact ih (orphans.adopt adoption) (Nat.lt_of_succ_lt_succ enough)

end Adoption

section Exit

variable {p q : Nat} {code : Int}

/-- What `do_exit` needs of the process that calls it. -/
structure Exiting (state : FamilyState) (children : Nat → List Nat) (p q : Nat) : Prop where
  sound : Sound state children
  listed : p ∈ state.procList
  notInit : p ≠ state.initproc
  awake : (state.procs p).Awake
  notForking : (state.procs p).place.isForking = false
  notReaping : ∀ c store, (state.procs p).place ≠ .reaping c store
  parent : (state.procs p).parent = some q

variable {x : Nat}

def markedState (state : FamilyState) (p : Nat) (code : Int) : FamilyState :=
  { state.change p (fun proc => { proc with
      state := .zombie, exitCode := code, place := .gone }) with
    exits := state.exits ++ [((state.procs p).serial, code)] }

theorem markedState_of_ne (apart : x ≠ p) : (markedState state p code).procs x = state.procs x := by
  simp [markedState, apart]

theorem markedState_self : (markedState state p code).procs p =
      { state.procs p with state := .zombie, exitCode := code, place := .gone } := by
  simp [markedState]

theorem markedState_view (view : Member → α) (same : ∀ member : Member,
      view { member with state := .zombie, exitCode := code, place := .gone } = view member)
    (x : Nat) : view ((markedState state p code).procs x) = view (state.procs x) := by
  by_cases isSelf : x = p
  · rw [isSelf, markedState_self, same]
  · rw [markedState_of_ne isSelf]

theorem markedState_kin (state : FamilyState) (p : Nat) (code : Int) (x : Nat) :
    ((markedState state p code).procs x).kin = (state.procs x).kin :=
  markedState_view kin (fun _ => rfl) x

theorem markedState_serial (x : Nat) :
    ((markedState state p code).procs x).serial = (state.procs x).serial :=
  markedState_view serial (fun _ => rfl) x

theorem markedState_exits : (markedState state p code).exits =
    state.exits ++ [((state.procs p).serial, code)] :=
  rfl

theorem markedState_exitCode (x : Nat) : ((markedState state p code).procs x).exitCode =
    if x = p then code else (state.procs x).exitCode := by
  by_cases same : x = p
  · rw [same, markedState_self, if_pos rfl]
  · rw [markedState_of_ne same, if_neg same]

theorem markedState_place (x : Nat) : ((markedState state p code).procs x).place =
    if x = p then .gone else (state.procs x).place := by
  by_cases same : x = p
  · rw [same, markedState_self, if_pos rfl]
  · rw [markedState_of_ne same, if_neg same]

theorem zombie_markedState (notSelf : x ≠ p) :
    (markedState state p code).Zombie x ↔ state.Zombie x := by
  unfold FamilyState.Zombie
  rw [markedState_of_ne notSelf]

namespace Exiting

variable (here : Exiting state children p q)

include here

theorem apart : p ≠ q := by
  rintro rfl
  exact here.sound.conduct.notOwn p here.listed here.parent

theorem parentLive : state.Live q := by
  obtain ⟨parent, live, isParent⟩ := here.sound.house.parents p here.listed
  rw [here.parent] at isParent
  exact Option.some.inj isParent ▸ live

/-- The parent is not a zombie, and if it has a wait state it waits for its
children. -/
theorem parent_asleep (waits : (state.procs q).waitState ≠ 0) :
    q ∈ state.procList ∧ (state.procs q).state = .sleeping ∧
      ∃ pid store, (state.procs q).place = .asleep pid store := by
  rcases here.parentLive with rfl | listed
  · exact absurd here.sound.conduct.idleAwake waits
  · obtain ⟨sleeping, -, asleep⟩ := (here.sound.conduct.placed q listed).asleep_of_waitState waits
    exact ⟨listed, sleeping, asleep⟩

theorem stance_marked (notWaiting : (state.procs q).waitState ≠ WT_CHILD) :
    Stance (markedState state p code) := by
  have stance := here.sound.conduct.toStance
  have sameKin := fun x => kin_eq (markedState_kin state p code x)
  have parentEq := fun x => (sameKin x).1
  have placeOf : ∀ x draft, ((markedState state p code).procs x).place = .forking draft →
      (state.procs x).place = .forking draft := by
    intro x draft isForking
    rw [markedState_place] at isForking
    split at isForking
    · cases isForking
    · exact isForking
  constructor
  · intro r listed
    by_cases isSelf : r = p
    · subst isSelf
      rw [placed_gone (by rw [markedState_self]), markedState_self]
      exact ⟨rfl, here.awake.2⟩
    have placed := stance.placed r listed
    apply placed.frame (by rw [markedState_of_ne isSelf]; exact ⟨rfl, rfl, rfl⟩)
    · intro draft _ notLive _
      have notP : draft ≠ p := by
        rintro rfl
        exact notLive (.inr here.listed)
      rw [markedState_of_ne notP]
      exact ⟨notLive, rfl, rfl, rfl, rfl⟩
    · intro sleeping c listedC isChild isZombie
      rw [parentEq] at isChild
      have notP : c ≠ p := by
        rintro rfl
        obtain rfl : q = r := Option.some.inj (here.parent.symm.trans isChild)
        exact notWaiting (placed.waitState_of_sleeping sleeping)
      exact ⟨listedC, isChild, (zombie_markedState notP).mp isZombie, (sameKin c).2.2.2.2⟩
    intro c _ _ listedC isChild isZombie
    have notP : c ≠ p := by
      rintro rfl
      rw [FamilyState.Zombie, here.awake.1] at isZombie
      simp at isZombie
    rw [zombie_markedState notP, parentEq]
    exact ⟨listedC, isChild, isZombie⟩
  · intro r listedR t listedT draft forkingR forkingT
    exact stance.drafts r listedR t listedT draft (placeOf r draft forkingR)
      (placeOf t draft forkingT)
  · intro c listedC isOwn
    rw [parentEq] at isOwn
    exact stance.notOwn c listedC isOwn
  · exact (parentEq _).trans stance.initParent
  · change ((markedState state p code).procs state.initproc).place ≠ .gone
    rw [markedState_of_ne here.notInit.symm]
    exact stance.initStays
  · have notSelf : state.idleproc ≠ p := (here.sound.house.live_ne_idle here.listed).symm
    change ((markedState state p code).procs state.idleproc).waitState = 0
    rw [markedState_of_ne notSelf]
    exact stance.idleAwake
  apply le_trans (Nat.add_le_add_left (countP_mono_left ?_) _) stance.room
  intro r _ isForking
  rw [markedState_place] at isForking
  split at isForking
  · cases isForking
  · exact isForking

theorem ledger_marked : Ledger (markedState state p code) := by
  have ledger := here.sound.ledger
  have wasAlive : ¬ state.Zombie p := by
    rw [FamilyState.Zombie, here.awake.1]
    simp
  have notExited : (state.procs p).serial ∉ state.exits.map Prod.fst := by
    rw [← ledger.zombie_iff p here.listed]
    exact wasAlive
  refine ⟨?_, ?_, ?_, ?_, ?_, ?_, ledger.reaps_nodup, ?_, ?_, ?_⟩
  · intro c listed
    rw [markedState_serial]
    exact ledger.serial_lt c listed
  · intro c listedC d listedD same
    rw [markedState_serial, markedState_serial] at same
    exact ledger.serial_inj c listedC d listedD same
  · intro exit member
    rcases mem_append.mp member with old | new
    · exact ledger.exits_lt exit old
    · rw [mem_singleton.mp new]
      exact ledger.serial_lt p here.listed
  · rw [markedState_exits, map_append, nodup_append]
    refine ⟨ledger.exits_nodup, by simp, ?_⟩
    rintro serial old other new rfl
    rw [map_singleton, mem_singleton] at new
    rw [new] at old
    exact notExited old
  · intro c listed
    rw [markedState_serial, markedState_exits, map_append, mem_append, map_singleton, mem_singleton]
    by_cases isSelf : c = p
    · subst isSelf
      refine iff_of_true ?_ (.inr rfl)
      rw [FamilyState.Zombie, markedState_self]
    rw [zombie_markedState isSelf, ledger.zombie_iff c listed]
    constructor
    · exact .inl
    rintro (old | same)
    · exact old
    · exact absurd (ledger.serial_inj c listed p here.listed same) isSelf
  · intro c listed zombie
    rw [markedState_serial, markedState_exitCode, markedState_exits, mem_append]
    by_cases isSelf : c = p
    · subst isSelf
      exact .inr (by simp)
    · rw [if_neg isSelf]
      exact .inl (ledger.exitCode c listed ((zombie_markedState isSelf).mp zombie))
  · intro reap member
    obtain ⟨byParent, code', inExits, stored⟩ := ledger.reaped reap member
    exact ⟨byParent, code', mem_append_left _ inExits, stored⟩
  · intro c listed
    rw [markedState_serial]
    exact ledger.unreaped c listed
  · intro serial linked unreaped
    obtain ⟨c, listed, same⟩ := ledger.present serial linked unreaped
    exact ⟨c, listed, (markedState_serial c).trans same⟩

theorem orphans (notWaiting : (state.procs q).waitState ≠ WT_CHILD) :
    Orphans (markedState state p code) p (children p) children := by
  have house := here.sound.house
  have live : state.Live p := .inr here.listed
  have sameKin := fun x => kin_eq (markedState_kin state p code x)
  have roster : Roster { state with procs := (markedState state p code).procs } := by
    have sameLists : state.SameLists { state with procs := (markedState state p code).procs } := rfl
    apply house.toRoster.congr sameLists
    · intro c listed
      obtain ⟨parent, isLive, isParent⟩ := house.parents c listed
      exact ⟨parent, isLive, (sameKin c).1.trans isParent⟩
    · exact fun c _ => (sameKin c).2.2.2.2
  refine ⟨?_, here.stance_marked notWaiting, here.ledger_marked, here.listed,
    by rw [FamilyState.Zombie, markedState_self],
    here.notInit, ?_, (sameKin p).2.1.trans (house.kin.head p live), ?_,
    house.kin.nodup p live, fun c member => ((house.kin.mem p c live).mp member).1, ?_, ?_⟩
  · exact ⟨roster.idle, roster.init, roster.nodup, roster.parents, roster.count, roster.hashed,
      roster.hashNodup, roster.pidSafe, roster.pidNodup, roster.pidRange⟩
  · have others : Kinship state.procs (fun r => state.Live r ∧ r ≠ p)
        (fun c => c ∈ state.procList ∧ c ∉ children p) children := by
      refine ⟨fun r isLive => house.kin.head r isLive.1, fun r isLive => house.kin.linked r
        isLive.1,
        fun r isLive => house.kin.nodup r isLive.1, ?_⟩
      intro r c isLive
      rw [house.kin.mem r c isLive.1, house.kin.mem p c live]
      constructor
      · rintro ⟨listed, isParent⟩
        refine ⟨⟨listed, ?_⟩, isParent⟩
        rintro ⟨-, other⟩
        rw [isParent] at other
        exact isLive.2 (Option.some.inj other)
      · rintro ⟨⟨listed, -⟩, isParent⟩
        exact ⟨listed, isParent⟩
    apply others.congr
    · exact fun r _ => (sameKin r).2.1
    · exact fun c => Iff.rfl
    · exact fun c _ => ⟨(sameKin c).2.2.2.1, (sameKin c).2.2.1, (sameKin c).1⟩
  · refine ⟨none, (house.kin.linked p live).congr ?_ ?_⟩
    · exact fun c _ => (sameKin c).2.2.2.1
    · exact fun c _ => (sameKin c).2.2.1
  · intro c listed
    rw [(sameKin c).1, house.kin.mem p c live]
    exact and_iff_right listed
  intro c listed notChild r isParent
  rw [(sameKin c).1] at isParent
  have notSelf : r ≠ p := by
    rintro rfl
    exact notChild ((house.kin.mem r c live).mpr ⟨listed, isParent⟩)
  rw [zombie_markedState notSelf]
  exact here.sound.conduct.heirs c listed r isParent

end Exiting

/-- A parent that is woken first does not wait. -/
theorem Exiting.woken (here : Exiting state children p q)
    (waiting : (state.procs q).waitState = WT_CHILD) : Exiting (state.change q fun proc =>
      { proc with state := .runnable, waitState := 0 }) children p q := by
  have waits : (state.procs q).waitState ≠ 0 := by
    rw [waiting]
    decide
  obtain ⟨listed, sleeping, -⟩ := here.parent_asleep waits
  have sound := here.sound.awaken listed waits
  rw [FamilyState.awaken, if_neg (by simp [sleeping])] at sound
  refine ⟨sound, here.listed, here.notInit, ?_, ?_, ?_, ?_⟩
  all_goals rw [change_of_ne _ _ here.apart]
  · exact here.awake
  · exact here.notForking
  · exact here.notReaping
  · exact here.parent

theorem Exiting.doExit_ends (here : Exiting state children p q) :
    Ends (doExit p code) (fun _ next => ∃ children', Sound next children') (fun _ => False)
      state := by
  have notIdle := here.sound.house.live_ne_idle here.listed
  have parentEq : ((markedState state p code).procs p).parent = some q := by
    rw [markedState_self]
    exact here.parent
  have parentState : (markedState state p code).procs q = state.procs q :=
    markedState_of_ne here.apart.symm
  have enough : (children p).length < state.procList.length + 1 :=
    Nat.lt_succ_of_le (here.sound.house.children_length (.inr here.listed))
  unfold doExit
  simp only [ends_bind, ends_get, ends_check, ends_set]
  refine ⟨fun _ => ⟨fun _ => ?_, fun isInit => absurd here.notInit isInit⟩,
    fun isIdle => absurd notIdle isIdle⟩
  change Ends (derefParent p) _ _ (markedState state p code)
  rw [ends_derefParent parentEq, ends_ite, parentState]
  constructor
  · intro waiting
    have sleeping := (here.parent_asleep (by rw [waiting]; decide)).2.1
    rw [ends_bind, ends_wakeupProc (by rw [parentState, sleeping]; simp), awaken,
      if_neg (by rw [parentState, sleeping]; simp)]
    have commutes : (markedState state p code).change q (fun proc =>
        { proc with state := .runnable, waitState := 0 }) = markedState (state.change q fun proc =>
        { proc with state := .runnable, waitState := 0 }) p code := by
      simp only [markedState, change]
      rw [Function.update_comm here.apart]
      simp [here.apart, here.apart.symm]
    rw [commutes]
    exact ((here.woken waiting).orphans (by simp; decide)).adoptChildren_ends enough
  · intro notWaiting
    exact (here.orphans notWaiting).adoptChildren_ends enough

end Exit

end Family

end UcoreSmp
