import UcoreSmp.FamilyCalls

/-!
# Forking a child

`do_fork` sets up a process that is on no list yet, copies the parent, and then
gives the child a pid and links it.
-/

namespace UcoreSmp

open List

namespace Family

open Function

open Member

open FamilyState

variable {children : Nat → List Nat} {q : Nat} {α : Type*} {state : FamilyState}

section Begin

variable {p child : Nat}

/-- A `proc_struct` that is not in use: `kmalloc` may return it. -/
structure FamilyState.Unused (state : FamilyState) (child : Nat) : Prop where
  notLive : ¬ state.Live child
  noDraft : ∀ q ∈ state.procList, (state.procs q).place ≠ .forking child

section

variable (sound : Sound state children)

include sound

/-- A `proc_struct` that is not in use may be written. -/
theorem Sound.write (unused : state.Unused child) (update : Member → Member) :
    Sound (state.change child update) children := by
  obtain ⟨house, conduct, ledger⟩ := sound
  have lists := state.sameLists_change child update
  have same (q) (live : state.Live q) : (state.change child update).procs q = state.procs q := by
    apply change_of_ne
    rintro rfl
    exact unused.notLive live
  have sameListed (q) (listed : q ∈ state.procList) := same q (.inr listed)
  refine ⟨house.congr lists fun q live => by rw [same q live], ⟨⟨?_, ?_, ?_, ?_, ?_, ?_, ?_⟩, ?_⟩,
    ledger.congr lists fun c listed => ?_⟩
  · intro q listed
    apply (conduct.placed q listed).frame
    · simp [sameListed q listed]
    · intro draft isDraft notLive _
      have apart : draft ≠ child := by
        rintro rfl
        exact unused.noDraft q listed isDraft
      rw [change_of_ne _ _ apart]
      exact ⟨notLive, rfl, rfl, rfl, rfl⟩
    · intro _ c listedC isChild isZombie
      rw [sameListed c listedC] at isChild ⊢
      rw [FamilyState.Zombie, sameListed c listedC] at isZombie
      exact ⟨listedC, isChild, isZombie, rfl⟩
    · intro c _ _ listedC isChild isZombie
      rw [FamilyState.Zombie, sameListed c listedC]
      exact ⟨listedC, isChild, isZombie⟩
  · intro q listedQ r listedR
    rw [sameListed q listedQ, sameListed r listedR]
    exact conduct.drafts q listedQ r listedR
  · intro c listed
    rw [sameListed c listed]
    exact conduct.notOwn c listed
  · exact (congrArg Member.parent (sameListed _ house.init)).trans conduct.initParent
  · exact (congrArg Member.place (sameListed _ house.init)).trans_ne conduct.initStays
  · exact (congrArg waitState (same _ (.inl rfl))).trans conduct.idleAwake
  · refine le_trans (Nat.add_le_add_left (countP_mono_left fun q listed isForking => ?_) _)
      conduct.room
    rwa [sameListed q listed] at isForking
  · intro c listed q isChild
    rw [sameListed c listed] at isChild
    obtain ⟨parent, live, isParent⟩ := house.parents c listed
    obtain rfl : parent = q := Option.some.inj (isParent.symm.trans isChild)
    rw [FamilyState.Zombie, same parent live]
    exact conduct.heirs c listed parent isChild
  · rw [FamilyState.Zombie, sameListed c listed]
    exact ⟨rfl, Iff.rfl, rfl⟩

variable (listed : p ∈ state.procList)

include listed

theorem Sound.forkBegin_ends (place : (state.procs p).place = .outside)
    (unused : state.Unused child) :
    Ends (forkBegin p child) (fun _ next => Sound next children) (fun _ => False) state := by
  have awake := (placed_outside place).mp (sound.conduct.placed p listed)
  simp only [forkBegin, ends_bind, ends_get, ends_ite, ends_pure, updateMember, ends_modify,
    ends_check]
  refine ⟨fun _ => sound, fun notFull => ⟨fun _ => ?_, fun waits => absurd awake.2 waits⟩⟩
  have few : state.procList.length ≤ 4094 := by
    have count := sound.house.count
    unfold MAX_PROCESS at notFull
    omega
  have notChild (q) (listed : q ∈ state.procList) : q ≠ child := by
    rintro rfl
    exact unused.notLive (.inr listed)
  apply (sound.write unused _).change Iff.rfl rfl listed rfl rfl
  · intro draft isDraft
    obtain rfl : child = draft := Place.forking.inj isDraft
    refine .inr ⟨few, fun q listedQ => ?_⟩
    rw [change_of_ne _ _ (notChild q listedQ)]
    exact unused.noDraft q listedQ
  · simp
  · rw [placed_forking (by rw [change_self])]
    simpa [change_of_ne _ _ (notChild p listed), change_of_ne _ _ (notChild p listed).symm,
      newMember] using ⟨awake, unused.notLive⟩

theorem Sound.forkFail_ends (place : (state.procs p).place = .forking child) :
    Ends (forkFail p) (fun _ next => Sound next children) (fun _ => False) state := by
  have awake := ((placed_forking place).mp (sound.conduct.placed p listed)).1
  apply sound.move listed rfl _ (by simp)
  unfold Placed
  simpa [Member.Awake] using awake

end

end Begin

theorem countP_succ_le {list : List α} {entry : α} {old new : α → Bool}
    (member : entry ∈ list) (counted : old entry = true) (dropped : new entry = false)
    (fewer : ∀ other ∈ list, new other = true → old other = true) :
    list.countP new + 1 ≤ list.countP old := by
  obtain ⟨front, back, rfl⟩ := append_of_mem member
  have frontFewer : front.countP new ≤ front.countP old :=
    countP_mono_left fun other inFront => fewer other (by simp [inFront])
  have backFewer : back.countP new ≤ back.countP old :=
    countP_mono_left fun other inBack => fewer other (by simp [inBack])
  rw [countP_append, countP_append, countP_cons_of_pos counted,
    countP_cons_of_neg (by simp [dropped])]
  omega

section Link

variable {p child : Nat} {pids : PidState}

def numberedState (state : FamilyState) (child : Nat) (pids : PidState) : FamilyState :=
  { state.change child (fun proc => { proc with pid := pids.lastPid, serial := state.born }) with
    pids := pids, born := state.born + 1 }

def linkedState (state : FamilyState) (p child : Nat) (pids : PidState) : FamilyState :=
  let state := (numberedState state child pids).hashProc child
  let state := state.setLinks p child
  let state := state.change child fun proc => { proc with state := .runnable, waitState := 0 }
  state.change p fun proc => { proc with place := .outside }

variable {other : Nat}

theorem numberedState_of_ne (state : FamilyState) (pids : PidState) (apart : other ≠ child) :
    (numberedState state child pids).procs other = state.procs other := by
  simp [numberedState, apart]

theorem numberedState_self (state : FamilyState) (child : Nat) (pids : PidState) :
    (numberedState state child pids).procs child =
      { state.procs child with pid := pids.lastPid, serial := state.born } := by
  simp [numberedState]

theorem numberedState_view (view : Member → α) (kept : ∀ (member : Member) pid serial,
      view { member with pid := pid, serial := serial } = view member) (other : Nat) :
    view ((numberedState state child pids).procs other) = view (state.procs other) := by
  by_cases same : other = child
  · rw [same, numberedState_self, kept]
  · rw [numberedState_of_ne state pids same]

/-- What `do_fork` knows when it calls `get_pid`, and what `get_pid` returns. -/
structure Linkable (state : FamilyState) (children : Nat → List Nat) (p child : Nat)
    (pids : PidState) : Prop where
  sound : Sound state children
  listed : p ∈ state.procList
  place : (state.procs p).place = .forking child
  awake : (state.procs p).Awake
  notLive : ¬ state.Live child
  parent : (state.procs child).parent = some p
  childPlace : (state.procs child).place = .outside
  childless : (state.procs child).cptr = none
  low : 1 ≤ pids.lastPid
  high : pids.lastPid < MAX_PID
  fresh : pids.lastPid ∉ state.pidList
  safe : PidSafe (pids.lastPid :: state.pidList) pids

/-- What `do_fork` has made of it when it returns. -/
structure Linked (state next : FamilyState) (children : Nat → List Nat) (p child : Nat)
    (pids : PidState) : Prop extends Linkable state children p child pids where
  isNext : next = linkedState state p child pids

namespace Linked

variable {next : FamilyState} (here : Linked state next children p child pids)

include here

theorem apart : p ≠ child := by
  rintro rfl
  exact here.notLive (.inr here.listed)

theorem ne_child (live : state.Live q) : q ≠ child := by
  rintro rfl
  exact here.notLive live

theorem cptrEq (other : Nat) :
    (next.procs other).cptr = if other = p then some child else (state.procs other).cptr := by
  rw [here.isNext]
  unfold linkedState
  rw [change_view cptr _ _ rfl, change_view cptr _ _ rfl, setLinks_procs, pushChild_cptr,
    hashProc_procs, numberedState_view cptr (fun _ _ _ => rfl)]

theorem optrEq (other : Nat) : (next.procs other).optr =
      if other = child then (state.procs p).cptr else (state.procs other).optr := by
  rw [here.isNext]
  unfold linkedState
  rw [change_view optr _ _ rfl, change_view optr _ _ rfl, setLinks_procs, pushChild_optr,
    hashProc_procs, numberedState_view cptr (fun _ _ _ => rfl),
    numberedState_view optr (fun _ _ _ => rfl)]

theorem yptrEq (other : Nat) : (next.procs other).yptr =
      if (state.procs p).cptr = some other then some child
      else if other = child then none else (state.procs other).yptr := by
  rw [here.isNext]
  unfold linkedState
  rw [change_view yptr _ _ rfl, change_view yptr _ _ rfl, setLinks_procs, pushChild_yptr,
    hashProc_procs, numberedState_view cptr (fun _ _ _ => rfl),
    numberedState_view yptr (fun _ _ _ => rfl)]

/-- A process other than the child keeps everything but its links and the place
of the parent. -/
theorem view_eq (view : Member → α)
    (links : ∀ member : Member, view member.unlinked = view member)
    (place : ∀ (member : Member) place, view { member with place := place } = view member)
    (other : Nat) (apart : other ≠ child) : view (next.procs other) = view (state.procs other) := by
  rw [here.isNext]
  unfold linkedState
  rw [change_view view _ _ (place _ _), change_of_ne _ _ apart, ← links,
    setLinks_unlinked, links, hashProc_procs,
    numberedState_of_ne state pids apart]

theorem place_eq (apart : other ≠ child) (notParent : other ≠ p) :
    (next.procs other).place = (state.procs other).place := by
  rw [here.isNext]
  unfold linkedState
  rw [change_of_ne _ _ notParent, change_of_ne _ _ apart]
  have kept := congrArg place (setLinks_unlinked
    ((numberedState state child pids).hashProc child) p child other)
  rw [hashProc_procs, numberedState_of_ne state pids apart] at kept
  exact kept

theorem place_parent : (next.procs p).place = .outside := by
  rw [here.isNext]
  unfold linkedState
  rw [change_self]

theorem childEq : (next.procs child).unlinked = { (state.procs child).unlinked with
        pid := pids.lastPid, serial := state.born, state := .runnable, waitState := 0 } := by
  rw [here.isNext]
  unfold linkedState
  rw [change_of_ne _ _ here.apart.symm, change_self]
  have kept := setLinks_unlinked ((numberedState state child pids).hashProc child) p child child
  rw [hashProc_procs, numberedState_self] at kept
  exact congrArg (fun member : Member => { member with state := .runnable, waitState := 0 }) kept

theorem lists : ∃ procs, next = { state with
      procs := procs
      procList := child :: state.procList
      nrProcess := state.nrProcess + 1
      hashList := update state.hashList (pidHashfn pids.lastPid)
        (child :: state.hashList (pidHashfn pids.lastPid))
      pids := pids
      born := state.born + 1 } := by
  obtain ⟨procs, lists⟩ := setLinks_lists ((numberedState state child pids).hashProc child) p child
  have bucket : ((numberedState state child pids).procs child).pid = pids.lastPid := by
    rw [numberedState_self]
  rw [here.isNext]
  unfold linkedState
  dsimp only
  rw [lists]
  unfold hashProc
  rw [bucket]
  exact ⟨_, rfl⟩

theorem parent_eq (c : Nat) : (next.procs c).parent = (state.procs c).parent := by
  by_cases isChild : c = child
  · have kept := congrArg Member.parent here.childEq
    rw [isChild]
    exact kept
  · exact here.view_eq Member.parent (fun _ => rfl) (fun _ _ => rfl) c isChild

theorem pid_child : (next.procs child).pid = pids.lastPid := by
  have kept := congrArg pid here.childEq
  exact kept

theorem serial_child : (next.procs child).serial = state.born := by
  have kept := congrArg serial here.childEq
  exact kept

theorem awake_child : (next.procs child).Awake :=
  ⟨congrArg Member.state here.childEq, congrArg Member.waitState here.childEq⟩

theorem place_child : (next.procs child).place = .outside := by
  have kept := congrArg Member.place here.childEq
  exact kept.trans here.childPlace

theorem pid_eq (c : Nat) (notChild : c ≠ child) : (next.procs c).pid = (state.procs c).pid :=
  here.view_eq pid (fun _ => rfl) (fun _ _ => rfl) c notChild

theorem pidList_eq : next.pidList = pids.lastPid :: state.pidList := by
  obtain ⟨procs, rfl⟩ := here.lists
  have others : state.procList.map (fun c => (procs c).pid) = state.pidList :=
    map_congr_left fun c listed => here.pid_eq c (here.ne_child (.inr listed))
  exact congrArg₂ cons here.pid_child others

theorem kinship : ∃ children',
    Kinship next.procs next.Live (fun c => c ∈ next.procList) children' := by
  obtain ⟨procs, rfl⟩ := here.lists
  have house := here.sound.house
  have live : state.Live p := .inr here.listed
  have pushed : Kinship procs state.Live (fun c => c = child ∨ c ∈ state.procList)
      (update children p (child :: children p)) := by
    apply house.kin.push live (fun listed => here.notLive (.inr listed))
    · exact (here.cptrEq p).trans (if_pos rfl)
    · exact fun q _ other => (here.cptrEq q).trans (if_neg other)
    · exact (here.optrEq child).trans (if_pos rfl)
    · refine (here.yptrEq child).trans ((if_neg ?_).trans (if_pos rfl))
      intro isElder
      rw [house.kin.head p live] at isElder
      exact here.ne_child (.inr ((house.kin.mem p child live).mp (mem_of_mem_head? isElder)).1) rfl
    · exact (here.parent_eq child).trans here.parent
    · exact fun d other => (here.optrEq d).trans (if_neg other)
    · exact fun d other notElder =>
        (here.yptrEq d).trans ((if_neg notElder).trans (if_neg other))
    · exact fun d _ isElder => (here.yptrEq d).trans (if_pos isElder)
    · exact fun d _ => here.parent_eq d
  have childless := (here.cptrEq child).trans (if_neg here.apart.symm)
  have grown := pushed.newcomer (childless.trans here.childless) ?_
  · refine ⟨_, (grown.restrict ?_).congr (fun _ _ => rfl) ?_ fun _ _ => ⟨rfl, rfl, rfl⟩⟩
    · rintro q (isIdle | listedQ)
      · exact .inr (.inl isIdle)
      · exact (mem_cons.mp listedQ).imp_right .inr
    · exact fun c => mem_cons
  intro d listed isParent
  rw [here.parent_eq] at isParent
  rcases listed with rfl | listed
  · rw [here.parent] at isParent
    exact here.apart (Option.some.inj isParent)
  obtain ⟨q, liveQ, parentQ⟩ := house.parents d listed
  rw [parentQ] at isParent
  exact here.ne_child liveQ (Option.some.inj isParent)

theorem household : ∃ children', Household next children' := by
  obtain ⟨children', kin⟩ := here.kinship
  have pidList := here.pidList_eq
  obtain ⟨procs, rfl⟩ := here.lists
  have house := here.sound.house
  have notListed : child ∉ state.procList := fun listed => here.notLive (.inr listed)
  refine ⟨children', ⟨?_, mem_cons_of_mem _ house.init, nodup_cons.mpr ⟨notListed, house.nodup⟩,
    ?_, congrArg (· + 1) house.count, ?_, ?_, ?_, ?_, ?_⟩, kin⟩
  · rw [mem_cons, not_or]
    exact ⟨here.ne_child (.inl rfl), house.idle⟩
  · intro c listed
    rw [here.parent_eq]
    rcases mem_cons.mp listed with rfl | listed
    · exact ⟨p, .inr (mem_cons_of_mem _ here.listed), here.parent⟩
    · obtain ⟨q, live, isParent⟩ := house.parents c listed
      exact ⟨q, live.imp_right (mem_cons_of_mem _), isParent⟩
  · intro bucket c
    change c ∈ update state.hashList _ _ bucket ↔ _
    rw [mem_cons, update_apply]
    by_cases isChild : c = child
    · subst isChild
      rw [here.pid_child]
      have notHashed : c ∉ state.hashList bucket :=
        fun member => notListed ((house.hashed _ _).mp member).1
      by_cases sameBucket : bucket = pidHashfn pids.lastPid
      · simp [sameBucket]
      · have other : pidHashfn pids.lastPid ≠ bucket := fun same => sameBucket same.symm
        simp [sameBucket, notHashed, other]
    rw [here.pid_eq c isChild]
    by_cases sameBucket : bucket = pidHashfn pids.lastPid
    · simp [sameBucket, isChild, house.hashed]
    · simp [sameBucket, isChild, house.hashed]
  · intro bucket
    change (update state.hashList _ _ bucket).Nodup
    rw [update_apply]
    split
    · rw [nodup_cons]
      exact ⟨fun member => notListed ((house.hashed _ _).mp member).1, house.hashNodup _⟩
    · exact house.hashNodup _
  · rw [pidList]
    exact here.safe
  · rw [pidList, nodup_cons]
    exact ⟨here.fresh, house.pidNodup⟩
  rw [pidList]
  intro pid member
  rcases mem_cons.mp member with rfl | old
  · exact ⟨here.low, here.high⟩
  · exact house.pidRange pid old

theorem zombie_iff {c : Nat} (notChild : c ≠ child) : next.Zombie c ↔ state.Zombie c := by
  rw [FamilyState.Zombie, here.view_eq Member.state (fun _ => rfl) (fun _ _ => rfl) c notChild,
    FamilyState.Zombie]

theorem not_zombie_child : ¬ next.Zombie child := by
  rw [FamilyState.Zombie, here.awake_child.1]
  simp

theorem conduct : Conduct next := by
  obtain ⟨procs, rfl⟩ := here.lists
  have conduct := here.sound.conduct
  have house := here.sound.house
  have notChild : ∀ q ∈ state.procList, q ≠ child := fun q listed => here.ne_child (.inr listed)
  have stateEq := here.view_eq Member.state (fun _ => rfl) (fun _ _ => rfl)
  have waitEq := here.view_eq waitState (fun _ => rfl) (fun _ _ => rfl)
  have placeOf : ∀ q draft, q ∈ child :: state.procList → (procs q).place = .forking draft →
      q ∈ state.procList ∧ q ≠ p ∧ (state.procs q).place = .forking draft := by
    intro q draft listed isForking
    rcases mem_cons.mp listed with rfl | listed
    · exact absurd (isForking.symm.trans here.place_child) (by simp)
    by_cases same : q = p
    · subst same
      exact absurd (isForking.symm.trans here.place_parent) (by simp)
    · exact ⟨listed, same, (here.place_eq (notChild q listed) same).symm.trans isForking⟩
  refine ⟨⟨?_, ?_, ?_, ?_, ?_, ?_, ?_⟩, ?_⟩
  · intro q member
    rcases mem_cons.mp member with rfl | listed
    · exact (placed_outside here.place_child).mpr here.awake_child
    by_cases same : q = p
    · subst same
      rw [placed_outside here.place_parent]
      exact ⟨(stateEq q here.apart).trans here.awake.1, (waitEq q here.apart).trans here.awake.2⟩
    have notChildQ := notChild q listed
    apply (conduct.placed q listed).frame
    · exact ⟨here.place_eq notChildQ same, stateEq q notChildQ, waitEq q notChildQ⟩
    · intro draft isDraft notLive _
      have otherDraft : draft ≠ child := by
        rintro rfl
        exact same (conduct.drafts q listed p here.listed draft isDraft here.place)
      have notP : draft ≠ p := by
        rintro rfl
        exact notLive (.inr here.listed)
      refine ⟨?_, here.parent_eq draft, stateEq draft otherDraft,
        here.place_eq otherDraft notP, (here.cptrEq draft).trans (if_neg notP)⟩
      rintro (isIdle | listedDraft)
      · exact notLive (.inl isIdle)
      · exact notLive (.inr (mem_of_ne_of_mem otherDraft listedDraft))
    · intro _ c listedC isChild isZombie
      rcases mem_cons.mp listedC with rfl | listedC
      · exact absurd isZombie here.not_zombie_child
      have notChildC := notChild c listedC
      exact ⟨listedC, (here.parent_eq c).symm.trans isChild,
        (here.zombie_iff notChildC).mp isZombie, here.pid_eq c notChildC⟩
    · intro c _ _ listedC isChild isZombie
      exact ⟨mem_cons_of_mem _ listedC, (here.parent_eq c).trans isChild,
        (here.zombie_iff (notChild c listedC)).mpr isZombie⟩
  · intro q listedQ r listedR draft forkingQ forkingR
    obtain ⟨oldQ, -, placeQ⟩ := placeOf q draft listedQ forkingQ
    obtain ⟨oldR, -, placeR⟩ := placeOf r draft listedR forkingR
    exact conduct.drafts q oldQ r oldR draft placeQ placeR
  · intro c listedC isOwn
    rw [here.parent_eq] at isOwn
    rcases mem_cons.mp listedC with rfl | listedC
    · rw [here.parent] at isOwn
      exact here.apart (Option.some.inj isOwn)
    · exact conduct.notOwn c listedC isOwn
  · exact (here.parent_eq _).trans conduct.initParent
  · by_cases same : state.initproc = p
    · rw [same, here.place_parent]
      simp
    · rw [here.place_eq (notChild _ house.init) same]
      exact conduct.initStays
  · exact (waitEq _ (here.ne_child (.inl rfl))).trans conduct.idleAwake
  · have counted : (state.procList.countP fun q => (procs q).place.isForking) + 1 ≤
        state.procList.countP fun q => (state.procs q).place.isForking := by
      apply countP_succ_le here.listed
      · simp [here.place, Place.isForking]
      · exact congrArg Place.isForking here.place_parent
      intro q listed isForking
      by_cases same : q = p
      · subst same
        exact absurd (isForking.symm.trans (congrArg Place.isForking here.place_parent)) (by decide)
      · rwa [← here.place_eq (notChild q listed) same]
    have childNot : (procs child).place.isForking = false :=
      congrArg Place.isForking here.place_child
    have room := conduct.room
    dsimp only
    rw [length_cons, countP_cons_of_neg (by simp [childNot])]
    omega
  intro c listedC q isChild isZombie
  rw [here.parent_eq] at isChild
  have notChildQ : q ≠ child := by
    rintro rfl
    exact here.not_zombie_child isZombie
  rw [here.zombie_iff notChildQ] at isZombie
  rcases mem_cons.mp listedC with rfl | listedC
  · rw [here.parent] at isChild
    obtain rfl : p = q := Option.some.inj isChild
    rw [FamilyState.Zombie, here.awake.1] at isZombie
    simp at isZombie
  · exact conduct.heirs c listedC q isChild isZombie

theorem ledger : Ledger next := by
  obtain ⟨procs, rfl⟩ := here.lists
  have ledger := here.sound.ledger
  have notChild : ∀ q ∈ state.procList, q ≠ child := fun q listed => here.ne_child (.inr listed)
  have serialEq : ∀ q ∈ state.procList, (procs q).serial = (state.procs q).serial :=
    fun q listed => here.view_eq serial (fun _ => rfl) (fun _ _ => rfl) q (notChild q listed)
  have notExited : state.born ∉ state.exits.map Prod.fst := by
    intro member
    obtain ⟨exit, inExits, same⟩ := mem_map.mp member
    have older := ledger.exits_lt exit inExits
    omega
  have notReaped : state.born ∉ state.reaps.map Reap.child := by
    intro member
    obtain ⟨reap, inReaps, same⟩ := mem_map.mp member
    obtain ⟨-, code, inExits, -⟩ := ledger.reaped reap inReaps
    have older := ledger.exits_lt _ inExits
    omega
  refine ⟨?_, ?_, fun exit member => (ledger.exits_lt exit member).trans (Nat.lt_succ_self _),
    ledger.exits_nodup, ?_, ?_, ledger.reaps_nodup, ledger.reaped, ?_, ?_⟩
  · intro c listed
    rcases mem_cons.mp listed with rfl | listed
    · rw [here.serial_child]
      exact Nat.lt_succ_self _
    · rw [serialEq c listed]
      exact (ledger.serial_lt c listed).trans (Nat.lt_succ_self _)
  · intro c memberC d memberD same
    rcases mem_cons.mp memberC with rfl | listedC
    · rcases mem_cons.mp memberD with rfl | listedD
      · rfl
      · rw [here.serial_child, serialEq d listedD] at same
        exact absurd (ledger.serial_lt d listedD) (by omega)
    rcases mem_cons.mp memberD with rfl | listedD
    · rw [here.serial_child, serialEq c listedC] at same
      exact absurd (ledger.serial_lt c listedC) (by omega)
    · rw [serialEq c listedC, serialEq d listedD] at same
      exact ledger.serial_inj c listedC d listedD same
  · intro c listed
    rcases mem_cons.mp listed with rfl | listed
    · rw [here.serial_child]
      exact iff_of_false here.not_zombie_child notExited
    · rw [here.zombie_iff (notChild c listed), serialEq c listed]
      exact ledger.zombie_iff c listed
  · intro c listed isZombie
    rcases mem_cons.mp listed with rfl | listed
    · exact absurd isZombie here.not_zombie_child
    rw [serialEq c listed,
      here.view_eq exitCode (fun _ => rfl) (fun _ _ => rfl) c (notChild c listed)]
    exact ledger.exitCode c listed ((here.zombie_iff (notChild c listed)).mp isZombie)
  · intro c listed
    rcases mem_cons.mp listed with rfl | listed
    · rw [here.serial_child]
      exact notReaped
    · rw [serialEq c listed]
      exact ledger.unreaped c listed
  intro serial linked unreaped
  by_cases isNew : serial = state.born
  · exact ⟨child, mem_cons_self, here.serial_child.trans isNew.symm⟩
  obtain ⟨c, listed, same⟩ := ledger.present serial
    (lt_of_le_of_ne (Nat.le_of_lt_succ linked) isNew) unreaped
  exact ⟨c, mem_cons_of_mem _ listed, (serialEq c listed).trans same⟩

end Linked

/-- From every sound state `get_pid` returns a pid that no process has. -/
theorem Sound.getPid (sound : Sound state children) :
    ∃ pids, UcoreSmp.getPid state.pidList state.pids = some pids ∧ 1 ≤ pids.lastPid ∧ pids.lastPid <
      MAX_PID ∧ pids.lastPid ∉ state.pidList ∧ PidSafe (pids.lastPid :: state.pidList) pids := by
  apply getPid_ends sound.house.pidSafe
  have room := sound.conduct.room
  have lengthEq : state.pidList.length = state.procList.length := by
    simp [pidList]
  unfold MAX_PID
  omega

theorem Sound.forkLink_ends (sound : Sound state children) (listed : p ∈ state.procList)
    (place : (state.procs p).place = .forking child) :
    Ends (forkLink p child)
      (fun _ next => ∃ children', Sound next children') (fun _ => False) state := by
  obtain ⟨pids, got, low, high, fresh, safe⟩ := sound.getPid
  obtain ⟨awake, notLive, parent, uninit, childPlace, childless⟩ :=
    (placed_forking place).mp (sound.conduct.placed p listed)
  have here : Linked state _ children p child pids := ⟨⟨sound, listed, place, awake, notLive,
    parent, childPlace, childless, low, high, fresh, safe⟩, rfl⟩
  obtain ⟨children', house⟩ := here.household
  have numbered : (numberedState state child pids).procs child =
      { state.procs child with pid := pids.lastPid, serial := state.born } :=
    numberedState_self state child pids
  have derefs :
      (((numberedState state child pids).hashProc child).procs child).parent = some p := by
    rw [hashProc_procs, numbered]
    exact parent
  have childState : ((((numberedState state child pids).hashProc child).setLinks p child).procs
      child).state = .uninit := by
    have kept := congrArg Member.state (setLinks_unlinked
      ((numberedState state child pids).hashProc child) p child child)
    rw [hashProc_procs, numbered] at kept
    exact kept.trans uninit
  unfold forkLink assignPid
  rw [ends_bind, ends_bind, ends_get, got]
  simp only [ends_set, ends_bind, ends_modify]
  change Ends (derefParent child) _ _ ((numberedState state child pids).hashProc child)
  rw [ends_derefParent derefs, ends_wakeupProc (by simp [childState]), FamilyState.awaken,
    if_neg (by simp [childState])]
  exact ⟨children', house, here.conduct, here.ledger⟩

end Link

end Family

end UcoreSmp
