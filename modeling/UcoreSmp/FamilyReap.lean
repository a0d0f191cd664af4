import UcoreSmp.FamilyCalls

/-!
# Reaping a child

The end of `do_wait`: the child leaves the lists and its exit code is handed to
the parent.
-/

namespace UcoreSmp

open List

namespace Family

open Member

open FamilyState

section Reap

variable {state : FamilyState} {children : Nat → List Nat} {p child : Nat} {store : Bool}

def reapedState (state : FamilyState) (p child : Nat) (store : Bool) : FamilyState :=
  let code := if store then some (state.procs child).exitCode else none
  let reap : Reap := ⟨(state.procs child).serial, p, (state.procs child).parent, code⟩
  let state := { state with reaps := state.reaps ++ [reap] }
  let state := state.unhashProc child
  let state := state.removeLinks p child
  state.change p fun proc => { proc with place := .outside }

def reapOf (state : FamilyState) (p child : Nat) (store : Bool) : Reap :=
  ⟨(state.procs child).serial, p, (state.procs child).parent,
    if store then some (state.procs child).exitCode else none⟩

/-- What `do_wait` knows at the label `found`. -/
structure Reapable (state : FamilyState) (children : Nat → List Nat) (p child : Nat)
    (store : Bool) : Prop where
  sound : Sound state children
  listed : p ∈ state.procList
  place : (state.procs p).place = .reaping child store
  listedChild : child ∈ state.procList
  parent : (state.procs child).parent = some p
  zombie : state.Zombie child
  awake : (state.procs p).Awake

theorem Sound.reapable (sound : Sound state children) (listed : p ∈ state.procList)
    (place : (state.procs p).place = .reaping child store) :
    Reapable state children p child store := by
  obtain ⟨awake, listedChild, parent, zombie⟩ :=
    (placed_reaping place).mp (sound.conduct.placed p listed)
  exact ⟨sound, listed, place, listedChild, parent, zombie, awake⟩

/-- What it has made of it when it returns. -/
structure Reaped (state next : FamilyState) (children : Nat → List Nat) (p child : Nat)
    (store : Bool) : Prop extends Reapable state children p child store where
  isNext : next = reapedState state p child store

namespace Reaped

variable {next : FamilyState} (here : Reaped state next children p child store)

include here

theorem unlinkedEq (other : Nat) : (next.procs other).unlinked =
      if other = p then { (state.procs other).unlinked with place := .outside }
      else (state.procs other).unlinked := by
  rw [here.isNext]
  unfold reapedState
  by_cases same : other = p
  · subst same
    rw [if_pos rfl, change_self]
    have kept := removeLinks_unlinked (unhashProc { state with
      reaps := state.reaps ++ [reapOf state other child store] } child) other child other
    exact congrArg (fun member : Member => { member with place := .outside }) kept
  · rw [if_neg same, change_of_ne _ _ same]
    exact removeLinks_unlinked _ _ _ _

theorem view_eq {α : Type*} (view : Member → α)
    (links : ∀ member : Member, view member.unlinked = view member)
    (place : ∀ (member : Member) place, view { member with place := place } = view member)
    (other : Nat) : view (next.procs other) = view (state.procs other) := by
  rw [← links, here.unlinkedEq]
  by_cases same : other = p
  · rw [if_pos same, place, links]
  · rw [if_neg same, links]

theorem place_eq {other : Nat} (apart : other ≠ p) :
    (next.procs other).place = (state.procs other).place := by
  have kept := congrArg place ((here.unlinkedEq other).trans (if_neg apart))
  exact kept

theorem place_self : (next.procs p).place = .outside := by
  have kept := congrArg place ((here.unlinkedEq p).trans (if_pos rfl))
  exact kept

theorem optrEq (other : Nat) : (next.procs other).optr =
      if (state.procs child).yptr = some other then (state.procs child).optr
      else (state.procs other).optr := by
  rw [here.isNext]
  unfold reapedState
  rw [change_view optr _ p rfl]
  exact removeLinks_optr _ _ _ _

theorem yptrEq (other : Nat) : (next.procs other).yptr =
      if (state.procs child).optr = some other then (state.procs child).yptr
      else (state.procs other).yptr := by
  rw [here.isNext]
  unfold reapedState
  rw [change_view yptr _ p rfl]
  exact removeLinks_yptr _ _ _ _

theorem cptrEq (other : Nat) : (next.procs other).cptr =
      if (state.procs child).yptr = none ∧ other = p then (state.procs child).optr
      else (state.procs other).cptr := by
  rw [here.isNext]
  unfold reapedState
  rw [change_view cptr _ p rfl]
  exact removeLinks_cptr _ _ _ _

theorem lists : ∃ procs, next = { state with
      procs := procs
      procList := state.procList.erase child
      nrProcess := state.nrProcess - 1
      hashList := (state.unhashProc child).hashList
      reaps := state.reaps ++ [reapOf state p child store] } := by
  have lists := removeLinks_lists (unhashProc { state with
    reaps := state.reaps ++ [reapOf state p child store] } child) p child
  exact ⟨_, here.isNext.trans (congrArg (fun next : FamilyState =>
    next.change p fun proc => { proc with place := .outside }) lists)⟩

theorem parentEq (c : Nat) : (next.procs c).parent = (state.procs c).parent :=
  here.view_eq Member.parent (fun _ => rfl) (fun _ _ => rfl) c

theorem pidEq (c : Nat) : (next.procs c).pid = (state.procs c).pid :=
  here.view_eq pid (fun _ => rfl) (fun _ _ => rfl) c

theorem stateEq (c : Nat) : (next.procs c).state = (state.procs c).state :=
  here.view_eq Member.state (fun _ => rfl) (fun _ _ => rfl) c

theorem zombieEq (c : Nat) : next.Zombie c ↔ state.Zombie c := by
  rw [FamilyState.Zombie, here.stateEq, FamilyState.Zombie]

theorem ne_init : child ≠ state.initproc := by
  rintro rfl
  have placed := here.sound.conduct.placed _ here.listedChild
  exact placed.alive_of_ne_gone here.sound.conduct.initStays here.zombie

theorem mem_erase {c : Nat} : c ∈ state.procList.erase child ↔ c ≠ child ∧ c ∈ state.procList :=
  here.sound.house.nodup.mem_erase_iff

theorem live_of_next {q : Nat} (live : next.Live q) : state.Live q := by
  obtain ⟨procs, rfl⟩ := here.lists
  exact live.imp_right mem_of_mem_erase

theorem kinship : ∃ children',
    Kinship next.procs next.Live (fun c => c ∈ next.procList) children' := by
  have house := here.sound.house
  have live : state.Live p := .inr here.listed
  have member : child ∈ children p := (house.kin.mem p child live).mpr
    ⟨here.listedChild, here.parent⟩
  obtain ⟨front, back, split⟩ := append_of_mem member
  have linked := house.kin.linked p live
  have nodup := house.kin.nodup p live
  rw [split] at linked nodup
  obtain ⟨yptrEq, optrEq⟩ := linked.middle
  have listedEq : ∀ c, c ∈ next.procList ↔ c ∈ state.procList ∧ c ≠ child := by
    obtain ⟨procs, rfl⟩ := here.lists
    exact fun c => here.mem_erase.trans and_comm
  have removed : Kinship next.procs state.Live
      (fun c => c ∈ state.procList ∧ c ≠ child) (Function.update children p (front ++ back)) := by
    apply house.kin.remove live split
    · rw [here.cptrEq, yptrEq, optrEq]
      simp
    · intro q apart
      rw [here.cptrEq, if_neg (fun both => apart both.2)]
    · intro d notLast
      rw [here.optrEq, yptrEq, if_neg notLast]
    · intro d isLast
      rw [here.optrEq, yptrEq, if_pos isLast, optrEq]
    · intro d notFirst
      rw [here.yptrEq, optrEq, if_neg notFirst]
    · intro d isFirst
      rw [here.yptrEq, optrEq, if_pos isFirst, yptrEq]
    · exact here.parentEq
  exact ⟨_, (removed.restrict fun q => here.live_of_next).congr (fun _ _ => rfl) listedEq
    fun _ _ => ⟨rfl, rfl, rfl⟩⟩

theorem household : ∃ children', Household next children' := by
  obtain ⟨children', kin⟩ := here.kinship
  obtain ⟨procs, rfl⟩ := here.lists
  have house := here.sound.house
  have sublist : ((state.procList.erase child).map fun c => (procs c).pid).Sublist
      state.pidList := by
    rw [map_congr_left fun c _ => here.pidEq c]
    exact erase_sublist.map _
  have safe := house.pidSafe
  refine ⟨children', ⟨fun member => house.idle (mem_of_mem_erase member),
    here.mem_erase.mpr ⟨here.ne_init.symm, house.init⟩, house.nodup.erase child, ?_, ?_, ?_, ?_,
    ⟨safe.pos, safe.bound, safe.within, fun pid member => safe.safe pid (sublist.subset member)⟩,
    sublist.nodup house.pidNodup,
    fun pid member => house.pidRange pid (sublist.subset member)⟩, kin⟩
  · intro c listed
    obtain ⟨apart, listedC⟩ := here.mem_erase.mp listed
    obtain ⟨q, live, isParent⟩ := house.parents c listedC
    refine ⟨q, ?_, (here.parentEq c).trans isParent⟩
    rcases live with isIdle | listedQ
    · exact .inl isIdle
    refine .inr (here.mem_erase.mpr ⟨?_, listedQ⟩)
    rintro rfl
    exact here.sound.conduct.heirs c listedC _ isParent here.zombie
  · have lengthEq := length_erase_of_mem here.listedChild
    have positive := length_pos_of_mem here.listedChild
    simp only [house.count, lengthEq]
    omega
  · intro bucket c
    rw [here.pidEq, here.mem_erase, and_assoc, ← house.hashed]
    simp only [unhashProc, Function.update_apply]
    by_cases sameBucket : bucket = pidHashfn (state.procs child).pid
    · rw [if_pos sameBucket, (house.hashNodup _).mem_erase_iff, sameBucket]
    rw [if_neg sameBucket]
    constructor
    · intro member
      refine ⟨?_, member⟩
      rintro rfl
      exact sameBucket ((house.hashed _ _).mp member).2.symm
    · exact fun both => both.2
  intro bucket
  simp only [unhashProc, Function.update_apply]
  split
  · exact (house.hashNodup _).erase _
  · exact house.hashNodup _

theorem conduct : Conduct next := by
  obtain ⟨procs, rfl⟩ := here.lists
  have conduct := here.sound.conduct
  have waitEq := here.view_eq waitState (fun _ => rfl) (fun _ _ => rfl)
  have placeOf : ∀ q draft, (procs q).place = .forking draft →
      (state.procs q).place = .forking draft := by
    intro q draft isForking
    by_cases same : q = p
    · subst same
      exact absurd (isForking.symm.trans here.place_self) (by simp)
    · exact (here.place_eq same).symm.trans isForking
  refine ⟨⟨?_, ?_, ?_, ?_, ?_, ?_, ?_⟩, ?_⟩
  · intro q listed
    have listedQ := mem_of_mem_erase listed
    by_cases same : q = p
    · subst same
      rw [placed_outside here.place_self]
      exact ⟨(here.stateEq q).trans here.awake.1, (waitEq q).trans here.awake.2⟩
    apply (conduct.placed q listedQ).frame
    · exact ⟨here.place_eq same, here.stateEq q, waitEq q⟩
    · intro draft _ notLive _
      have apart : draft ≠ p := by
        rintro rfl
        exact notLive (.inr here.listed)
      exact ⟨fun live => notLive (here.live_of_next live), here.parentEq draft,
        here.stateEq draft, here.place_eq apart,
        (here.cptrEq draft).trans (if_neg fun both => apart both.2)⟩
    · intro _ c listedC isChild isZombie
      exact ⟨mem_of_mem_erase listedC, (here.parentEq c).symm.trans isChild,
        (here.zombieEq c).mp isZombie, here.pidEq c⟩
    intro c _ _ listedC isChild isZombie
    have apart : c ≠ child := by
      rintro rfl
      rw [here.parent] at isChild
      exact same (Option.some.inj isChild).symm
    exact ⟨here.mem_erase.mpr ⟨apart, listedC⟩, (here.parentEq c).trans isChild,
      (here.zombieEq c).mpr isZombie⟩
  · intro q listedQ r listedR draft forkingQ forkingR
    exact conduct.drafts q (mem_of_mem_erase listedQ) r (mem_of_mem_erase listedR) draft
      (placeOf q draft forkingQ) (placeOf r draft forkingR)
  · intro c listedC isOwn
    exact conduct.notOwn c (mem_of_mem_erase listedC) ((here.parentEq c).symm.trans isOwn)
  · exact (here.parentEq _).trans conduct.initParent
  · by_cases same : state.initproc = p
    · rw [same, here.place_self]
      simp
    · rw [here.place_eq same]
      exact conduct.initStays
  · exact (waitEq _).trans conduct.idleAwake
  · refine le_trans (Nat.add_le_add length_erase_le ?_) conduct.room
    refine le_trans (countP_mono_left ?_) erase_sublist.countP_le
    intro q _ isForking
    by_cases same : q = p
    · rw [same, here.place_self] at isForking
      simp [Place.isForking] at isForking
    · rwa [here.place_eq same] at isForking
  · intro c listedC q isChild isZombie
    exact conduct.heirs c (mem_of_mem_erase listedC) q ((here.parentEq c).symm.trans isChild)
      ((here.zombieEq q).mp isZombie)

theorem ledger : Ledger next := by
  obtain ⟨procs, rfl⟩ := here.lists
  have ledger := here.sound.ledger
  have serialEq := here.view_eq serial (fun _ => rfl) (fun _ _ => rfl)
  have codeEq := here.view_eq exitCode (fun _ => rfl) (fun _ _ => rfl)
  refine ⟨?_, ?_, ledger.exits_lt, ledger.exits_nodup, ?_, ?_, ?_, ?_, ?_, ?_⟩
  · intro c listed
    rw [serialEq]
    exact ledger.serial_lt c (mem_of_mem_erase listed)
  · intro c listedC d listedD same
    rw [serialEq, serialEq] at same
    exact ledger.serial_inj c (mem_of_mem_erase listedC) d (mem_of_mem_erase listedD) same
  · intro c listed
    rw [here.zombieEq, serialEq]
    exact ledger.zombie_iff c (mem_of_mem_erase listed)
  · intro c listed isZombie
    rw [serialEq, codeEq]
    exact ledger.exitCode c (mem_of_mem_erase listed) ((here.zombieEq c).mp isZombie)
  · rw [map_append, nodup_append]
    refine ⟨ledger.reaps_nodup, by simp, ?_⟩
    rintro serial reaped other isChild rfl
    rw [map_singleton, mem_singleton] at isChild
    rw [isChild] at reaped
    exact ledger.unreaped child here.listedChild reaped
  · intro reap member
    rcases mem_append.mp member with old | isNew
    · exact ledger.reaped reap old
    rw [mem_singleton] at isNew
    subst isNew
    refine ⟨here.parent, _, ledger.exitCode child here.listedChild here.zombie, ?_⟩
    intro stored isStored
    cases store with
    | false => simp [reapOf] at isStored
    | true => simpa [reapOf] using isStored.symm
  · intro c listed
    obtain ⟨apart, listedC⟩ := here.mem_erase.mp listed
    rw [serialEq, map_append, mem_append, not_or]
    refine ⟨ledger.unreaped c listedC, ?_⟩
    rw [map_singleton, mem_singleton]
    exact fun same => apart (ledger.serial_inj c listedC child here.listedChild same)
  intro serial linked unreaped
  rw [map_append, mem_append, not_or, map_singleton, mem_singleton] at unreaped
  obtain ⟨c, listedC, same⟩ := ledger.present serial linked unreaped.1
  refine ⟨c, here.mem_erase.mpr ⟨?_, listedC⟩, (serialEq c).trans same⟩
  rintro rfl
  exact unreaped.2 same.symm

end Reaped

theorem Sound.waitReap_ends (sound : Sound state children) (listed : p ∈ state.procList)
    (place : (state.procs p).place = .reaping child store) :
    Ends (waitReap p child store)
      (fun _ next => next = reapedState state p child store ∧ ∃ children', Sound next children')
      (fun _ => False) state := by
  have here : Reaped state _ children p child store := ⟨sound.reapable listed place, rfl⟩
  obtain ⟨children', house⟩ := here.household
  have reaped : Sound (reapedState state p child store) children' :=
    ⟨house, here.conduct, here.ledger⟩
  have notIdle : child ≠ state.idleproc := fun same => sound.house.idle (same ▸ here.listedChild)
  unfold waitReap derefParent
  simp only [ends_bind, ends_get, ends_check, ends_set, ends_modify]
  refine ⟨fun _ => ?_, fun refused => absurd ⟨notIdle, here.ne_init⟩ refused⟩
  have parent : ∀ reaps, ((unhashProc { state with reaps := reaps } child).procs child).parent =
      some p := fun _ => here.parent
  rw [parent]
  exact ⟨rfl, children', reaped⟩

end Reap

end Family

end UcoreSmp
