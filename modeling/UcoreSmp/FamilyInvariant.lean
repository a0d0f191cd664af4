import UcoreSmp.FamilyLinks

/-!
# The invariant of the process family

Three parts: the lists of processes (`Household`), where each process stands in
the calls it is in (`Conduct`), and the account of who has exited and who has
been reaped (`Ledger`).
-/

namespace UcoreSmp

namespace Family

namespace FamilyState

/-- `idleproc` and the processes on `proc_list`. -/
def Live (state : FamilyState) (p : Nat) : Prop := p = state.idleproc ∨ p ∈ state.procList

def Zombie (state : FamilyState) (p : Nat) : Prop := (state.procs p).state = .zombie

end FamilyState

/-- What the lists of processes depend on. -/
structure Member.Kin where
  parent : Option Nat
  cptr : Option Nat
  yptr : Option Nat
  optr : Option Nat
  pid : Int

def Member.kin (member : Member) : Member.Kin :=
  ⟨member.parent, member.cptr, member.yptr, member.optr, member.pid⟩

theorem Member.kin_eq {member other : Member} (same : member.kin = other.kin) :
    member.parent = other.parent ∧ member.cptr = other.cptr ∧ member.yptr = other.yptr ∧
      member.optr = other.optr ∧ member.pid = other.pid := by
  simpa [Member.kin] using same

/-- `proc_list` and the hash lists hold exactly the processes, and pids tell them
apart. -/
structure Roster (state : FamilyState) : Prop where
  idle : state.idleproc ∉ state.procList
  init : state.initproc ∈ state.procList
  nodup : state.procList.Nodup
  parents : ∀ c ∈ state.procList, ∃ p, state.Live p ∧ (state.procs c).parent = some p
  count : state.nrProcess = state.procList.length + 1
  hashed : ∀ bucket c, c ∈ state.hashList bucket ↔
    c ∈ state.procList ∧ pidHashfn (state.procs c).pid = bucket
  hashNodup : ∀ bucket, (state.hashList bucket).Nodup
  pidSafe : PidSafe state.pidList state.pids
  pidNodup : state.pidList.Nodup
  pidRange : ∀ pid ∈ state.pidList, 1 ≤ pid ∧ pid < MAX_PID

/-- The lists of processes, with the children of each process. -/
structure Household (state : FamilyState) (children : Nat → List Nat) : Prop
    extends Roster state where
  kin : Kinship state.procs state.Live (fun c => c ∈ state.procList) children

def Member.Awake (member : Member) : Prop := member.state = .runnable ∧ member.waitState = 0

/-- Nothing that the sleeping `do_wait` of `p` waits for has happened. -/
def FamilyState.NothingToReap (state : FamilyState) (p : Nat) (pid : Int) : Prop :=
  ∀ c ∈ state.procList, (state.procs c).parent = some p → state.Zombie c →
    pid ≠ 0 ∧ (state.procs c).pid ≠ pid

/-- The state of a process fits the place where it stands. -/
def Placed (state : FamilyState) (p : Nat) : Prop :=
  match (state.procs p).place with
  | .outside => (state.procs p).Awake
  | .forking child => (state.procs p).Awake ∧ ¬ state.Live child ∧
      (state.procs child).parent = some p ∧ (state.procs child).state = .uninit ∧
      (state.procs child).place = .outside ∧ (state.procs child).cptr = none
  | .scanning _ _ => (state.procs p).Awake
  | .asleep pid _ => (state.procs p).Awake ∨
      ((state.procs p).state = .sleeping ∧ (state.procs p).waitState = WT_CHILD ∧
        state.NothingToReap p pid)
  | .reaping child _ => (state.procs p).Awake ∧ child ∈ state.procList ∧
      (state.procs child).parent = some p ∧ state.Zombie child
  | .killed => (state.procs p).Awake
  | .gone => (state.procs p).state = .zombie ∧ (state.procs p).waitState = 0

section Placed

variable {state : FamilyState} {p child : Nat} {pid : Int} {store : Bool}

theorem placed_outside (place : (state.procs p).place = .outside) :
    Placed state p ↔ (state.procs p).Awake := by
  unfold Placed
  rw [place]

theorem placed_forking (place : (state.procs p).place = .forking child) :
    Placed state p ↔ (state.procs p).Awake ∧ ¬ state.Live child ∧
      (state.procs child).parent = some p ∧ (state.procs child).state = .uninit ∧
      (state.procs child).place = .outside ∧ (state.procs child).cptr = none := by
  unfold Placed
  rw [place]

theorem placed_scanning (place : (state.procs p).place = .scanning pid store) :
    Placed state p ↔ (state.procs p).Awake := by
  unfold Placed
  rw [place]

theorem placed_asleep (place : (state.procs p).place = .asleep pid store) :
    Placed state p ↔ (state.procs p).Awake ∨
      ((state.procs p).state = .sleeping ∧ (state.procs p).waitState = WT_CHILD ∧
        state.NothingToReap p pid) := by
  unfold Placed
  rw [place]

theorem placed_reaping (place : (state.procs p).place = .reaping child store) :
    Placed state p ↔ (state.procs p).Awake ∧ child ∈ state.procList ∧
      (state.procs child).parent = some p ∧ state.Zombie child := by
  unfold Placed
  rw [place]

theorem placed_killed (place : (state.procs p).place = .killed) :
    Placed state p ↔ (state.procs p).Awake := by
  unfold Placed
  rw [place]

theorem placed_gone (place : (state.procs p).place = .gone) :
    Placed state p ↔ (state.procs p).state = .zombie ∧ (state.procs p).waitState = 0 := by
  unfold Placed
  rw [place]

end Placed

def Place.isForking : Place → Bool
  | .forking _ => true
  | _ => false

/-- Every process stands where its state says, and no two forks share a child. -/
structure Stance (state : FamilyState) : Prop where
  placed : ∀ p ∈ state.procList, Placed state p
  drafts : ∀ p ∈ state.procList, ∀ q ∈ state.procList, ∀ child,
    (state.procs p).place = .forking child → (state.procs q).place = .forking child → p = q
  notOwn : ∀ c ∈ state.procList, (state.procs c).parent ≠ some c
  initParent : (state.procs state.initproc).parent = some state.idleproc
  initStays : (state.procs state.initproc).place ≠ .gone
  idleAwake : (state.procs state.idleproc).waitState = 0
  room : state.procList.length + state.procList.countP (fun p => (state.procs p).place.isForking)
    ≤ 8188

/-- No zombie has children either. -/
structure Conduct (state : FamilyState) : Prop extends Stance state where
  heirs : ∀ c ∈ state.procList, ∀ p, (state.procs c).parent = some p → ¬ state.Zombie p

/-- Every process that has been linked is on the list until it is reaped, which
happens once and after it has exited. -/
structure Ledger (state : FamilyState) : Prop where
  serial_lt : ∀ c ∈ state.procList, (state.procs c).serial < state.born
  serial_inj : ∀ c ∈ state.procList, ∀ d ∈ state.procList,
    (state.procs c).serial = (state.procs d).serial → c = d
  exits_lt : ∀ exit ∈ state.exits, exit.1 < state.born
  exits_nodup : (state.exits.map Prod.fst).Nodup
  zombie_iff : ∀ c ∈ state.procList,
    state.Zombie c ↔ (state.procs c).serial ∈ state.exits.map Prod.fst
  exitCode : ∀ c ∈ state.procList, state.Zombie c →
    ((state.procs c).serial, (state.procs c).exitCode) ∈ state.exits
  reaps_nodup : (state.reaps.map Reap.child).Nodup
  reaped : ∀ reap ∈ state.reaps, reap.parent = some reap.waiter ∧
    ∃ code, (reap.child, code) ∈ state.exits ∧ ∀ stored, reap.stored = some stored → stored = code
  unreaped : ∀ c ∈ state.procList, (state.procs c).serial ∉ state.reaps.map Reap.child
  present : ∀ serial < state.born, serial ∉ state.reaps.map Reap.child →
    ∃ c ∈ state.procList, (state.procs c).serial = serial

section Frames

variable {state next : FamilyState} {children : Nat → List Nat} {p : Nat}

/-- `proc_list` and the hash lists depend on the pids only; the parents may
change as long as they are live. -/
theorem Roster.congr (roster : Roster state) (lists : state.SameLists next)
    (parents : ∀ c ∈ state.procList, ∃ p, state.Live p ∧ (next.procs c).parent = some p)
    (pids : ∀ c ∈ state.procList, (next.procs c).pid = (state.procs c).pid) : Roster next := by
  obtain ⟨procs, rfl⟩ := lists.exists_procs
  have samePids : FamilyState.pidList { state with procs := procs } = state.pidList :=
    List.map_congr_left pids
  refine ⟨roster.idle, roster.init, roster.nodup, parents, roster.count, ?_, roster.hashNodup,
    ?_, ?_, ?_⟩
  · intro bucket c
    rw [roster.hashed]
    constructor
    · rintro ⟨listed, inBucket⟩
      exact ⟨listed, by rw [pids c listed]; exact inBucket⟩
    · rintro ⟨listed, inBucket⟩
      exact ⟨listed, by rw [← pids c listed]; exact inBucket⟩
  · rw [samePids]
    exact roster.pidSafe
  · rw [samePids]
    exact roster.pidNodup
  · rw [samePids]
    exact roster.pidRange

theorem Household.congr (house : Household state children) (lists : state.SameLists next)
    (same : ∀ p, state.Live p → (next.procs p).kin = (state.procs p).kin) :
    Household next children := by
  have sameKin := fun p live => Member.kin_eq (same p live)
  refine ⟨house.toRoster.congr lists ?_ ?_, ?_⟩
  · intro c listed
    obtain ⟨p, live, isParent⟩ := house.parents c listed
    exact ⟨p, live, (sameKin c (.inr listed)).1.trans isParent⟩
  · exact fun c listed => (sameKin c (.inr listed)).2.2.2.2
  obtain ⟨procs, rfl⟩ := lists.exists_procs
  apply house.kin.congr
  · exact fun p live => (sameKin p live).2.1
  · exact fun c => Iff.rfl
  · intro c listed
    have kinEq := sameKin c (.inr listed)
    exact ⟨kinEq.2.2.2.1, kinEq.2.2.1, kinEq.1⟩

/-- `find_proc` finds exactly the process with this pid. -/
theorem Roster.findProc_iff (house : Roster state) {pid : Int} {c : Nat} :
    state.findProc pid = some c ↔ c ∈ state.procList ∧ (state.procs c).pid = pid := by
  have pidMem : ∀ c ∈ state.procList, (state.procs c).pid ∈ state.pidList :=
    fun c listed => List.mem_map.mpr ⟨c, listed, rfl⟩
  constructor
  · intro found
    unfold FamilyState.findProc at found
    split at found
    · have matched := List.find?_some found
      have inBucket := List.mem_of_find?_eq_some found
      exact ⟨((house.hashed _ c).mp inBucket).1, by simpa using matched⟩
    · simp at found
  rintro ⟨listed, rfl⟩
  obtain ⟨low, high⟩ := house.pidRange _ (pidMem c listed)
  have inBucket : c ∈ state.hashList (pidHashfn (state.procs c).pid) :=
    (house.hashed _ c).mpr ⟨listed, rfl⟩
  have inRange : 0 < (state.procs c).pid ∧ (state.procs c).pid < MAX_PID := ⟨by omega, high⟩
  rw [FamilyState.findProc, if_pos inRange]
  obtain ⟨other, found⟩ : ∃ other, (state.hashList (pidHashfn (state.procs c).pid)).find?
      (fun p => (state.procs p).pid = (state.procs c).pid) = some other := by
    apply Option.isSome_iff_exists.mp
    rw [List.find?_isSome]
    exact ⟨c, inBucket, by simp⟩
  have matched : (state.procs other).pid = (state.procs c).pid := by
    simpa using List.find?_some found
  have otherListed := ((house.hashed _ other).mp (List.mem_of_find?_eq_some found)).1
  rw [found, List.inj_on_of_nodup_map house.pidNodup otherListed listed matched]

theorem Placed.frame (placed : Placed state p) (own : (next.procs p).place = (state.procs p).place ∧
      (next.procs p).state = (state.procs p).state ∧
      (next.procs p).waitState = (state.procs p).waitState)
    (draft : ∀ child, (state.procs p).place = .forking child → ¬ state.Live child →
      (state.procs child).parent = some p →
      ¬ next.Live child ∧ (next.procs child).parent = (state.procs child).parent ∧
        (next.procs child).state = (state.procs child).state ∧
        (next.procs child).place = (state.procs child).place ∧
        (next.procs child).cptr = (state.procs child).cptr)
    (zombies : (state.procs p).state = .sleeping →
      ∀ c ∈ next.procList, (next.procs c).parent = some p → next.Zombie c →
      c ∈ state.procList ∧ (state.procs c).parent = some p ∧ state.Zombie c ∧
        (next.procs c).pid = (state.procs c).pid)
    (reaped : ∀ c store, (state.procs p).place = .reaping c store → c ∈ state.procList →
      (state.procs c).parent = some p → state.Zombie c →
      c ∈ next.procList ∧ (next.procs c).parent = some p ∧ next.Zombie c) :
    Placed next p := by
  obtain ⟨placeEq, stateEq, waitEq⟩ := own
  have awakeEq : (next.procs p).Awake ↔ (state.procs p).Awake := by
    unfold Member.Awake
    rw [stateEq, waitEq]
  unfold Placed at placed ⊢
  rw [placeEq]
  revert placed
  cases place : (state.procs p).place with
  | outside | scanning | killed => exact awakeEq.mpr
  | forking child =>
    rintro ⟨awake, notLive, parentEq, uninit, outside, childless⟩
    obtain ⟨notLive', parentEq', stateEq', placeEq', cptrEq'⟩ := draft child place notLive parentEq
    exact ⟨awakeEq.mpr awake, notLive', parentEq'.trans parentEq,
      stateEq'.trans uninit, placeEq'.trans outside, cptrEq'.trans childless⟩
  | asleep pid store =>
    rintro (awake | ⟨sleeping, waiting, nothing⟩)
    · exact .inl (awakeEq.mpr awake)
    refine .inr ⟨stateEq.trans sleeping, waitEq.trans waiting, ?_⟩
    intro c listed isChild isZombie
    obtain ⟨listed', isChild', isZombie', pidEq⟩ := zombies sleeping c listed isChild isZombie
    rw [pidEq]
    exact nothing c listed' isChild' isZombie'
  | reaping child store =>
    rintro ⟨awake, listed, isChild, isZombie⟩
    exact ⟨awakeEq.mpr awake, reaped child store place listed isChild isZombie⟩
  | gone =>
    rintro ⟨dead, idle⟩
    exact ⟨stateEq.trans dead, waitEq.trans idle⟩

/-- The account depends on the serial numbers, states and codes of the listed
processes only. -/
theorem Ledger.congr (ledger : Ledger state) (lists : state.SameLists next)
    (same : ∀ c ∈ state.procList, (next.procs c).serial = (state.procs c).serial ∧
      (next.Zombie c ↔ state.Zombie c) ∧ (next.procs c).exitCode = (state.procs c).exitCode) :
    Ledger next := by
  obtain ⟨procs, rfl⟩ := lists.exists_procs
  refine ⟨?_, ?_, ledger.exits_lt, ledger.exits_nodup, ?_, ?_, ledger.reaps_nodup, ledger.reaped,
    ?_, ?_⟩
  · intro c listed
    rw [(same c listed).1]
    exact ledger.serial_lt c listed
  · intro c listed d listed' serialEq
    rw [(same c listed).1, (same d listed').1] at serialEq
    exact ledger.serial_inj c listed d listed' serialEq
  · intro c listed
    rw [(same c listed).1, (same c listed).2.1]
    exact ledger.zombie_iff c listed
  · intro c listed isZombie
    rw [(same c listed).1, (same c listed).2.2]
    exact ledger.exitCode c listed ((same c listed).2.1.mp isZombie)
  · intro c listed
    rw [(same c listed).1]
    exact ledger.unreaped c listed
  · intro serial linked unreaped
    obtain ⟨c, listed, serialEq⟩ := ledger.present serial linked unreaped
    exact ⟨c, listed, (same c listed).1.trans serialEq⟩

end Frames

end Family

end UcoreSmp
