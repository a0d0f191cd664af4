import UcoreSmp.FileTableCalls

/-!
# Descriptor tables of processes

The loops of `fs.c` over a whole table: `files_closeall` on exec, `files_destroy`
on exit and `dup_fs` on fork.
-/

namespace UcoreSmp

open FileState Finset Function

/-- Only slots of one table may be closed; they keep their inode pointer. -/
structure ClosesSlots (table : Nat) (state next : FileState) : Prop where
  elsewhere : ∀ t f, t ≠ table → next.file t f = state.file t f
  nodes : ∀ t f, (next.file t f).node = (state.file t f).node
  header : ∀ t, next.header t = state.header t
  shrinks : Shrinks state next

/-- Only slots of one table that were free may be opened. -/
structure OpensSlots (table : Nat) (state next : FileState) : Prop where
  elsewhere : ∀ t f, t ≠ table → next.file t f = state.file t f
  header : ∀ t, next.header t = state.header t
  grows : Grows state next

theorem ClosesSlots.refl (table : Nat) (state : FileState) : ClosesSlots table state state :=
  ⟨fun _ _ _ => rfl, fun _ _ => rfl, fun _ => rfl, Shrinks.of_same rfl rfl⟩

theorem ClosesSlots.trans {table : Nat} {state middle next : FileState}
    (notNegative : ∀ node, 0 ≤ (next.inodes node).openCount)
    (first : ClosesSlots table state middle) (second : ClosesSlots table middle next) :
    ClosesSlots table state next where
  elsewhere t f other := (second.elsewhere t f other).trans (first.elsewhere t f other)
  nodes t f := (second.nodes t f).trans (first.nodes t f)
  header t := (second.header t).trans (first.header t)
  shrinks := Shrinks.trans notNegative first.shrinks second.shrinks

variable {fd : Nat}

theorem TouchesOnly.closesSlots {table : Nat} {state next : FileState}
    (touches : TouchesOnly table fd state next) (shrinks : Shrinks state next)
    (sameNode : (next.file table fd).node = (state.file table fd).node) :
    ClosesSlots table state next := by
  refine ⟨?_, ?_, touches.header, shrinks⟩
  · intro t f other
    exact touches.files (t, f) fun same => other (congrArg Prod.fst same)
  intro t f
  by_cases same : (t, f) = (table, fd)
  · cases same
    exact sameNode
  · rw [touches.files (t, f) same]

section

variable (state : FileState) (table : Nat)

include state table

@[simp]
theorem FileState.setPwd_file (pwd : Option Nat) (t f : Nat) :
    (state.setPwd table pwd).file t f = state.file t f := by
  by_cases same : t = table
  · subst same
    simp [setPwd, file]
  · simp [setPwd, file, same]

@[simp]
theorem FileState.setPwd_header (pwd : Option Nat) (t : Nat) : (state.setPwd table pwd).header t =
      if t = table then (pwd, (state.header t).2) else state.header t := by
  by_cases same : t = table
  · subst same
    simp [setPwd, header]
  · simp [setPwd, header, same]

@[simp]
theorem FileState.setFilesCount_file (count : Int) (t f : Nat) :
    (state.setFilesCount table count).file t f = state.file t f := by
  by_cases same : t = table
  · subst same
    simp [setFilesCount, file]
  · simp [setFilesCount, file, same]

@[simp]
theorem FileState.setFilesCount_header (count : Int) (t : Nat) :
    (state.setFilesCount table count).header t =
      if t = table then ((state.header t).1, count) else state.header t := by
  by_cases same : t = table
  · subst same
    simp [setFilesCount, header]
  · simp [setFilesCount, header, same]

@[simp]
theorem FileState.setFilesCount_pwd (count : Int) (t : Nat) :
    ((state.setFilesCount table count).header t).1 = (state.header t).1 := by
  rw [setFilesCount_header]
  split_ifs <;> rfl

end

section Tables

variable {tables : Finset Nat} {holders openers : Nat × Nat → Nat} {others others' : Nat → Nat}
  {table : Nat} {state : FileState}

/-- The body of the loops of `files_closeall` and `files_destroy`. -/
theorem closeIfOpened_ends (accounts : Accounts tables holders openers others state)
    (inside : (table, fd) ∈ slotsOf tables) :
    Ends (closeIfOpened table fd) (fun _ next =>
        Accounts tables holders openers others next ∧
        ClosesSlots table state next ∧
        (∀ f, f ≠ fd → next.file table f = state.file table f) ∧
        (holders (table, fd) = 0 → openers (table, fd) = 0 → (next.file table fd).status = .none))
      (fun _ => False) state := by
  rw [closeIfOpened, ends_bind, ends_get, ends_ite]
  refine ⟨fun opened => ?_, fun notOpened => ?_⟩
  · refine (fdArrayClose_ends accounts inside opened).weaken ?_
    rintro _ next ⟨accounts', touches, shrinks, sameNode, status⟩
    refine ⟨accounts', touches.closesSlots shrinks sameNode, ?_, ?_⟩
    · intro f other
      exact touches.files (table, f) fun same => other (congrArg Prod.snd same)
    · intro notHeld _
      rw [status, if_pos notHeld]
  refine ⟨accounts, ClosesSlots.refl table state, fun _ _ => rfl, ?_⟩
  intro notHeld notOpening
  have slotOk := accounts.slotOk _ inside
  have notClosed := mt slotOk.closedHeld (by omega)
  have notInit := slotOk.initial
  cases status : (state.file table fd).status with
  | none => rfl
  | init => simp [status, notOpening] at notInit
  | opened => exact absurd status notOpened
  | closed => exact absurd status notClosed

theorem closeFds_ends (live : table ∈ tables) (count : Nat) : ∀ {state : FileState} {fd : Nat},
      Accounts tables holders openers others state →
      fd + count ≤ FILES_STRUCT_NENTRY →
      Ends (closeFds table fd count)
        (fun _ next => Accounts tables holders openers others next ∧ ClosesSlots table state next)
        (fun _ => False) state := by
  induction count with
  | zero =>
    intro state fd accounts _
    exact ⟨accounts, ClosesSlots.refl table state⟩
  | succ count ih =>
    intro state fd accounts bound
    have inside : (table, fd) ∈ slotsOf tables := mem_slotsOf.mpr ⟨live, by omega⟩
    simp only [closeFds, ends_bind]
    refine (closeIfOpened_ends accounts inside).weaken ?_
    rintro _ middle ⟨accounts', closes, -, -⟩
    refine (ih accounts' (by omega)).weaken ?_
    rintro _ next ⟨accounts'', closes'⟩
    exact ⟨accounts'', closes.trans accounts''.openCount_nonneg closes'⟩

theorem destroyFds_ends (live : table ∈ tables)
    (unused : ∀ f, holders (table, f) = 0 ∧ openers (table, f) = 0) (count : Nat) :
    ∀ {state : FileState} {fd : Nat}, Accounts tables holders openers others state →
      fd + count ≤ FILES_STRUCT_NENTRY →
      Ends (destroyFds table fd count) (fun _ next => Accounts tables holders openers others next ∧
          ClosesSlots table state next ∧
          (∀ f < fd, next.file table f = state.file table f) ∧
          ∀ f, fd ≤ f → f < fd + count → (next.file table f).status = .none)
        (fun _ => False) state := by
  induction count with
  | zero =>
    intro state fd accounts _
    refine ⟨accounts, ClosesSlots.refl table state, fun _ _ => rfl, ?_⟩
    intro f lower upper
    omega
  | succ count ih =>
    intro state fd accounts bound
    have inside : (table, fd) ∈ slotsOf tables := mem_slotsOf.mpr ⟨live, by omega⟩
    simp only [destroyFds, ends_bind, ends_get, ends_check]
    refine (closeIfOpened_ends accounts inside).weaken ?_
    rintro _ middle ⟨accounts', closes, same, freed⟩
    have freed := freed (unused fd).1 (unused fd).2
    refine ⟨fun _ => ?_, fun stuck => stuck freed⟩
    refine (ih accounts' (by omega)).weaken ?_
    rintro _ next ⟨accounts'', closes', before, after⟩
    refine ⟨accounts'', closes.trans accounts''.openCount_nonneg closes', ?_, ?_⟩
    · intro f below
      rw [before f (by omega), same f (by omega)]
    intro f lower upper
    by_cases first : f = fd
    · rw [first, before fd (by omega)]
      exact freed
    · exact after f (by omega) (by omega)

variable {target source : Nat}

theorem dupIfOpened_ends (accounts : Accounts tables holders openers others state)
    (inside : (target, fd) ∈ slotsOf tables) (fromInside : (source, fd) ∈ slotsOf tables)
    (distinct : target ≠ source) (free : (state.file target fd).status = .none) :
    Ends (dupIfOpened target source fd) (fun _ next =>
        Accounts tables holders openers others next ∧
        TouchesOnly target fd state next ∧ Grows state next)
      (fun _ => False) state := by
  have slotOk := accounts.slotOk _ inside
  have notHeld := slotOk.not_held (.inl free)
  have counted := slotOk.counted
  have numbered := slotOk.numbered
  have notOpening := slotOk.initial
  simp [free, notHeld] at counted numbered notOpening
  have touches := touchesOnly_setFile state target fd { state.file target fd with status := .init }
  have started : Accounts tables holders (update openers (target, fd) 1) others
      (state.setFile target fd { state.file target fd with status := .init }) := by
    refine accounts.retag inside touches rfl (fun _ _ => rfl) ?_ ?_ ?_
    · intro slot other
      simp [other]
    · constructor <;> simp [notHeld, counted, numbered]
    · intro n
      rw [File.pointsTo_eq_zero (.inl free), File.pointsTo_eq_zero (.inr (by simp))]
  simp only [dupIfOpened, ends_bind, ends_get, ends_ite, ends_modify, ends_pure]
  refine ⟨fun opened => ?_, fun _ => ⟨accounts, ⟨fun _ _ => rfl, fun _ => rfl⟩, Grows.refl state⟩⟩
  refine (fdArrayDup_ends started inside fromInside (by simp)
    (by simpa [distinct.symm] using opened)).weaken ?_
  rintro _ next ⟨accounts', touches', grows, -⟩
  have restored : update (update openers (target, fd) 1) (target, fd) 0 = openers := by
    rw [update_idem, ← notOpening, update_eq_self]
  rw [restored] at accounts'
  have marked : Grows state (state.setFile target fd
      { state.file target fd with status := .init }) := Grows.of_same rfl rfl
  exact ⟨accounts', touches.trans touches', marked.trans grows⟩

theorem dupFds_ends (targetLive : target ∈ tables)
    (sourceLive : source ∈ tables) (distinct : target ≠ source) (count : Nat) :
    ∀ {state : FileState} {fd : Nat}, Accounts tables holders openers others state →
      fd + count ≤ FILES_STRUCT_NENTRY →
      (∀ f, fd ≤ f → (state.file target f).status = .none) →
      Ends (dupFds target source fd count)
        (fun _ next => Accounts tables holders openers others next ∧ OpensSlots target state next)
        (fun _ => False) state := by
  induction count with
  | zero =>
    intro state fd accounts _ _
    exact ⟨accounts, fun _ _ _ => rfl, fun _ => rfl, Grows.refl state⟩
  | succ count ih =>
    intro state fd accounts bound free
    have inside : (target, fd) ∈ slotsOf tables := mem_slotsOf.mpr ⟨targetLive, by omega⟩
    have fromInside : (source, fd) ∈ slotsOf tables := mem_slotsOf.mpr ⟨sourceLive, by omega⟩
    simp only [dupFds, ends_bind]
    refine (dupIfOpened_ends accounts inside fromInside distinct (free fd (le_refl fd))).weaken ?_
    rintro _ middle ⟨accounts', touches, grows⟩
    refine (ih accounts' (by omega) ?_).weaken ?_
    · intro f lower
      have other : ((target, f) : Nat × Nat) ≠ (target, fd) := by
        simp
        omega
      have same := touches.files (target, f) other
      rw [same]
      exact free f (by omega)
    rintro _ next ⟨accounts'', opens⟩
    refine ⟨accounts'', ?_, ?_, grows.trans opens.grows⟩
    · intro t f other
      have notSlot : ((t, f) : Nat × Nat) ≠ (target, fd) := by
        simp [other]
      exact (opens.elsewhere t f other).trans (touches.files (t, f) notSlot)
    · intro t
      exact (opens.header t).trans (touches.header t)

/-- Reference counts of inodes change, and nothing else. -/
structure RefsOnly (tables : Finset Nat) (holders openers : Nat × Nat → Nat) (others : Nat → Nat)
    (state next : FileState) : Prop where
  accounts : Accounts tables holders openers others next
  files : next.files = state.files
  vopCloses : next.vopCloses = state.vopCloses
  opens : ∀ n, (next.inodes n).openCount = (state.inodes n).openCount

section

variable (accounts : Accounts tables holders openers others state)

include accounts

variable {pwd : Option Nat}

theorem Accounts.setRefCount {node : Nat} {count : Int}
    (same : ∀ n, node ≠ n → others' n = others n)
    (enough : (state.inodes node).refCount + others' node ≤ count + others node) :
    RefsOnly tables holders openers others' state
      (state.setInode node { state.inodes node with refCount := count }) := by
  have opens : ∀ n, ((state.setInode node { state.inodes node with
        refCount := count }).inodes n).openCount = (state.inodes n).openCount := by
    intro n
    by_cases here : n = node <;> simp [here]
  refine ⟨accounts.of_slots ?_ opens ?_, rfl, rfl, opens⟩
  · intro _ _
    rfl
  intro n
  by_cases here : node = n
  · subst here
    simpa using enough
  · simp [Ne.symm here, same n here]

theorem inodeRefDecOpt_ends (split : ∀ n, others n = others' n + if pwd = some n then 1 else 0) :
    Ends (inodeRefDecOpt pwd) (fun _ => RefsOnly tables holders openers others' state)
      (fun _ => False) state := by
  cases pwd with
  | none =>
    obtain rfl : others' = others := funext fun n => by simp [split n]
    exact ⟨accounts, rfl, rfl, fun _ => rfl⟩
  | some node =>
    have counted := split node
    have referenced := accounts.referenced node
    simp only [if_true] at counted
    simp only [inodeRefDecOpt, inodeRefDec, ends_bind, ends_get, ends_check, ends_set]
    constructor
    · intro _
      apply accounts.setRefCount
      · intro n other
        simp [split n, other]
      · omega
    · intro stuck
      omega

theorem inodeRefIncOpt_ends (split : ∀ n, others' n = others n + if pwd = some n then 1 else 0) :
    Ends (inodeRefIncOpt pwd) (fun _ => RefsOnly tables holders openers others' state)
      (fun _ => False) state := by
  cases pwd with
  | none =>
    obtain rfl : others' = others := funext fun n => by simp [split n]
    exact ⟨accounts, rfl, rfl, fun _ => rfl⟩
  | some node =>
    have counted := split node
    simp only [if_true] at counted
    apply accounts.setRefCount
    · intro n other
      simp [split n, other]
    · omega

theorem Accounts.erase_table
    (free : ∀ fd < FILES_STRUCT_NENTRY, (state.file table fd).status = .none) :
    Accounts (tables.erase table) holders openers others state := by
  have subset : slotsOf (tables.erase table) ⊆ slotsOf tables := by
    intro slot member
    rw [← Prod.mk.eta (p := slot), mem_slotsOf] at member ⊢
    exact ⟨mem_of_mem_erase member.1, member.2⟩
  have pointers : ∀ n, state.pointers (tables.erase table) n = state.pointers tables n := by
    intro n
    apply sum_subset subset
    intro slot member notMember
    rw [← Prod.mk.eta (p := slot), mem_slotsOf] at member notMember
    have isTable : slot.1 = table := by
      by_contra other
      exact notMember ⟨mem_erase.mpr ⟨other, member.1⟩, member.2⟩
    apply File.pointsTo_eq_zero
    left
    rw [isTable]
    exact free slot.2 member.2
  constructor
  · intro slot member
    exact accounts.slotOk slot (subset member)
  · intro n
    rw [pointers n]
    exact accounts.opened n
  · intro n
    rw [pointers n]
    exact accounts.referenced n

theorem Accounts.insert_table (fresh : table ∉ tables)
    (free : ∀ fd, (state.file table fd).status = .none ∧
      (state.file table fd).openCount = 0 ∧ (state.file table fd).fd = fd)
    (unused : ∀ f, holders (table, f) = 0 ∧ openers (table, f) = 0) :
    Accounts (insert table tables) holders openers others state := by
  have pointers : ∀ n, state.pointers (insert table tables) n = state.pointers tables n := by
    intro n
    symm
    apply sum_subset
    · intro slot member
      rw [← Prod.mk.eta (p := slot), mem_slotsOf] at member ⊢
      exact ⟨mem_insert_of_mem member.1, member.2⟩
    intro slot member notMember
    rw [← Prod.mk.eta (p := slot), mem_slotsOf] at member notMember
    have isTable : slot.1 = table := by
      by_contra other
      exact notMember ⟨mem_of_mem_insert_of_ne member.1 other, member.2⟩
    apply File.pointsTo_eq_zero
    left
    rw [isTable]
    exact (free slot.2).1
  constructor
  · intro slot member
    by_cases isTable : slot.1 = table
    · obtain ⟨t, fd⟩ := slot
      subst isTable
      obtain ⟨status, count, numbered⟩ := free fd
      obtain ⟨notHeld, notOpening⟩ := unused fd
      constructor <;> simp [status, count, numbered, notHeld, notOpening]
    · apply accounts.slotOk slot
      rw [← Prod.mk.eta (p := slot), mem_slotsOf] at member ⊢
      exact ⟨mem_of_mem_insert_of_ne member.1 isTable, member.2⟩
  · intro n
    rw [pointers n]
    exact accounts.opened n
  · intro n
    rw [pointers n]
    exact accounts.referenced n

theorem filesDestroy_ends (live : table ∈ tables)
    (unused : ∀ f, holders (table, f) = 0 ∧ openers (table, f) = 0)
    (released : (state.header table).2 = 0)
    (split : ∀ n, others n = others' n + if (state.header table).1 = some n then 1 else 0) :
    Ends (filesDestroy table) (fun _ next =>
        Accounts (tables.erase table) holders openers others' next ∧
        ClosesSlots table state next)
      (fun _ => False) state := by
  simp only [filesDestroy, ends_bind, ends_get, ends_check]
  refine ⟨fun _ => ?_, fun stuck => stuck released⟩
  apply (inodeRefDecOpt_ends accounts split).weaken
  rintro _ middle ⟨accounts', files, vopCloses, opens⟩
  apply (destroyFds_ends live unused FILES_STRUCT_NENTRY accounts' (by omega)).weaken
  rintro _ next ⟨accounts'', closes, -, freed⟩
  have sameFile := file_congr files
  constructor
  · apply accounts''.erase_table
    intro fd inside
    exact freed fd (Nat.zero_le fd) (by omega)
  constructor
  · intro t f other
    rw [closes.elsewhere t f other, sameFile]
  · intro t f
    rw [closes.nodes t f, sameFile]
  · intro t
    rw [closes.header t, header_congr files]
  constructor
  · intro n
    rw [← opens n]
    exact closes.shrinks.fewer n
  · intro n
    rw [closes.shrinks.closes n, opens n, vopCloses]

theorem filesCreate_ends (fresh : table ∉ tables)
    (unused : ∀ f, holders (table, f) = 0 ∧ openers (table, f) = 0) :
    Ends (filesCreate table) (fun _ next =>
        Accounts (insert table tables) holders openers others next ∧
        (∀ t f, t ≠ table → next.file t f = state.file t f) ∧
        (∀ t, t ≠ table → next.header t = state.header t) ∧
        next.header table = (none, 0) ∧
        (∀ f, (next.file table f).status = .none) ∧ Grows state next)
      (fun _ => False) state := by
  refine ⟨?_, ?_, ?_, ?_, ?_, Grows.of_same rfl rfl⟩
  · apply Accounts.insert_table _ fresh _ unused
    · apply accounts.of_slots
      · intro slot member
        rw [← Prod.mk.eta (p := slot), mem_slotsOf] at member
        have other : slot.1 ≠ table := fun same => fresh (same ▸ member.1)
        simp [file, other]
      · intro n
        rfl
      · intro n
        exact le_refl _
    · intro fd
      simp [file]
  · intro t f other
    simp [file, other]
  · intro t other
    simp [header, other]
  · simp [header]
  · intro f
    simp [file]

theorem Accounts.setFilesCount (count : Int) :
    Accounts tables holders openers others (state.setFilesCount table count) := by
  apply accounts.of_slots
  · intro slot _
    simp
  · intro n
    rfl
  · intro n
    exact le_refl _

theorem Accounts.setPwd (pwd : Option Nat) :
    Accounts tables holders openers others (state.setPwd table pwd) := by
  apply accounts.of_slots
  · intro slot _
    simp
  · intro n
    rfl
  · intro n
    exact le_refl _

theorem dupFs_ends (targetLive : target ∈ tables)
    (sourceLive : source ∈ tables) (distinct : target ≠ source)
    (unshared : (state.header target).2 = 0) (shared : 0 < (state.header source).2)
    (free : ∀ f, (state.file target f).status = .none)
    (split : ∀ n, others' n = others n + if (state.header source).1 = some n then 1 else 0) :
    Ends (dupFs target source) (fun _ next =>
        Accounts tables holders openers others' next ∧
        (∀ t f, t ≠ target → next.file t f = state.file t f) ∧
        (∀ t, t ≠ target → next.header t = state.header t) ∧
        next.header target = ((state.header source).1, 0) ∧ Grows state next)
      (fun _ => False) state := by
  simp only [dupFs, ends_bind, ends_get, ends_check, ends_set]
  refine ⟨fun _ => ?_, fun stuck => stuck ⟨unshared, shared⟩⟩
  have accounts' : Accounts tables holders openers others
      (state.setPwd target (state.files source).pwd) := accounts.setPwd _
  apply (inodeRefIncOpt_ends accounts' split).weaken
  rintro _ middle ⟨accounts'', files, vopCloses, opens⟩
  have sameFile : ∀ t f, middle.file t f = state.file t f := by
    intro t f
    rw [← setPwd_file state target (state.files source).pwd t f]
    simp only [file, files]
  have sameHeader : ∀ t, middle.header t =
      (state.setPwd target (state.files source).pwd).header t := by
    intro t
    simp only [header, files]
  apply (dupFds_ends targetLive sourceLive distinct FILES_STRUCT_NENTRY accounts''
    (by omega) (fun f _ => by rw [sameFile]; exact free f)).weaken
  rintro _ next ⟨final, elsewhere, header, grows⟩
  refine ⟨final, ?_, ?_, ?_, ?_⟩
  · intro t f other
    rw [elsewhere t f other, sameFile]
  · intro t other
    rw [header t, sameHeader t]
    simp [other]
  · rw [header target, sameHeader target]
    simp [unshared]
    rfl
  constructor
  · intro n
    have := opens n
    rw [show (state.inodes n).openCount = (middle.inodes n).openCount from this.symm]
    exact grows.more n
  · rw [grows.closes, vopCloses]
    rfl

end

end Tables

end UcoreSmp
