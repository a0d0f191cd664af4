import Mathlib
import UcoreSmp.ErrorCodes

/-!
# The descriptor tables of ucore_plus

`file_open` chooses an unused entry of the table, waits in `vfs_open` and then
claims the entry.  Threads may share a table.  A file object counts the entries
that refer to it and is freed with the last one.
-/

namespace UcoreSmp.Plus

open Function

/-- The assertions of the table, and accesses through pointers to no file object. -/
inductive DescFault where
  | badDescriptor
  | entryInUse
  | entryEmpty
  | nullFile
  | notAllocated

/-- A table of so many entries, and `open_count` of the allocated file objects. -/
structure Descriptors (size : Nat) where
  lastFreeDesc : Fin size
  openedFile : Fin size → Option Nat
  openCount : Nat → Option Int

def descIndex (size : Nat) (fd : Int) : Option (Fin size) :=
  if h : 0 ≤ fd ∧ fd.toNat < size then some ⟨fd.toNat, h.2⟩ else none

namespace Descriptors

variable {size : Nat} (table : Descriptors size)

def getFile (fd : Int) : Option Nat := (descIndex size fd).bind table.openedFile

def setCount (file : Nat) (count : Option Int) : Descriptors size :=
  { table with openCount := update table.openCount file count }

def setEntry (i : Fin size) (file : Option Nat) : Descriptors size :=
  { table with openedFile := update table.openedFile i file }

/-- `file` is the answer of `kernel_file_pool_allocate`. -/
def poolAllocate : Option Nat → Descriptors size
  | none => table
  | some file => table.setCount file (some 0)

/-- `kernel_file_pool_free`, unless there is no object. -/
def poolFree : Option Nat → Except DescFault (Descriptors size)
  | none => .ok table
  | some file =>
    match table.openCount file with
    | none => .error .notAllocated
    | some _ => .ok (table.setCount file none)

def associate (fd : Int) (file : Nat) : Except DescFault (Descriptors size) :=
  match descIndex size fd with
  | none => .error .badDescriptor
  | some i =>
    if table.openedFile i ≠ none then .error .entryInUse
    else
      match table.openCount file with
      | none => .error .notAllocated
      | some count => .ok ((table.setCount file (some (count + 1))).setEntry i (some file))

/-- `file_desc_table_dissociate`; `fopen_count_dec` frees the file at zero. -/
def dissociate (fd : Int) : Except DescFault (Descriptors size) :=
  match descIndex size fd with
  | none => .error .badDescriptor
  | some i =>
    match table.openedFile i with
    | none => .error .entryEmpty
    | some file =>
      match table.openCount file with
      | none => .error .notAllocated
      | some count =>
        let left := if count - 1 = 0 then none else some (count - 1)
        .ok ((table.setCount file left).setEntry i none)

theorem descIndex_val (i : Fin size) : descIndex size i = some i := by
  simp [descIndex]

/-- The descriptors that a call returns, with their files, or its error. -/
abbrev DescResult (size : Nat) :=
  Except DescFault (Except Int (List (Fin size × Nat)) × Descriptors size)

def fileClose (fd : Int) : DescResult size :=
  match table.getFile fd with
  | none => pure (.error (-E_BADF), table)
  | some _ => do
    let table ← table.dissociate fd
    pure (.ok [], table)

theorem fileClose_unused {table after : Descriptors size} {fd : Int}
    {result : Except Int (List (Fin size × Nat))}
    (closes : table.fileClose fd = .ok (result, after)) {i : Fin size}
    (unused : table.openedFile i = none) : after.openedFile i = none := by
  unfold fileClose at closes
  split at closes
  · cases closes
    exact unused
  next used =>
  obtain ⟨j, isJ, opened⟩ := Option.bind_eq_some_iff.mp used
  simp only [dissociate, isJ, opened] at closes
  split at closes
  · cases closes
  cases closes
  change update table.openedFile j none i = none
  rw [update_apply]
  split
  · rfl
  · exact unused

variable [NeZero size]

/-- The search loop; after the last entry it goes on with the first. -/
def searchUnused (stop : Fin size) : Nat → Fin size → Option (Fin size)
  | 0, _ => none
  | fuel + 1, i =>
    if i = stop then none
    else if table.openedFile i = none then some i
    else searchUnused stop fuel (i + 1)

def getUnused : Option (Fin size) × Descriptors size :=
  if table.openedFile table.lastFreeDesc = none then (some table.lastFreeDesc, table)
  else
    match table.searchUnused table.lastFreeDesc size (table.lastFreeDesc + 1) with
    | none => (none, table)
    | some i => (some i, { table with lastFreeDesc := i })

/-- `file_open` up to `vfs_open`: an error, or the file object and the descriptor. -/
def fileOpenBegin (openFlags : BitVec 32) (file : Option Nat) :
    Except DescFault (Except Int (Nat × Fin size) × Descriptors size) :=
  if openFlags &&& 3 = 3 then .ok (.error (-E_INVAL), table)
  else
    match file with
    | none => .error .nullFile
    | some file =>
      match (table.poolAllocate (some file)).getUnused with
      | (none, table) => .ok (.error (-E_MFILE), table)
      | (some fd, table) => .ok (.ok (file, fd), table)

/-- `file_open` from `vfs_open` on; `ret` is its result and that of `vop_fstat` after it. -/
def fileOpenEnd (file : Nat) (fd : Fin size) (ret : Int) : DescResult size :=
  if ret ≠ 0 then do
    let table ← table.poolFree (some file)
    pure (.error ret, table)
  else do
    let table ← table.associate fd file
    pure (.ok [(fd, file)], table)

variable {table}

theorem searchUnused_some {stop i found : Fin size} {fuel : Nat}
    (isFound : table.searchUnused stop fuel i = some found) : table.openedFile found = none := by
  induction fuel generalizing i with
  | zero => cases isFound
  | succ fuel ih =>
    rw [searchUnused] at isFound
    split at isFound
    · cases isFound
    split at isFound
    · next unused =>
      cases isFound
      exact unused
    · exact ih isFound

theorem getUnused_spec (table : Descriptors size) : table.getUnused.2.openedFile =
      table.openedFile ∧ ∀ i, table.getUnused.1 = some i → table.openedFile i = none := by
  unfold getUnused
  split
  · next unused =>
    refine ⟨rfl, ?_⟩
    rintro i isFound
    cases isFound
    exact unused
  split
  · exact ⟨rfl, nofun⟩
  next found =>
  refine ⟨rfl, ?_⟩
  rintro i isFound
  cases isFound
  exact searchUnused_some found

end Descriptors

def closedTable (size : Nat) [NeZero size] : Descriptors size := ⟨0, fun _ => none, fun _ => none⟩

/-- Threads that share a table, and the file and descriptor of those in `vfs_open`. -/
structure SharedTable (size : Nat) where
  table : Descriptors size
  inside : Nat → Option (Nat × Fin size)

/-- A thread calls `file_open`, comes back from `vfs_open`, or calls `file_close`. -/
inductive DescEvent where
  | openBegin (thread : Nat) (openFlags : BitVec 32) (file : Option Nat)
  | openEnd (thread : Nat) (ret : Int)
  | close (thread : Nat) (fd : Int)

namespace SharedTable

variable {size : Nat}

/-- The descriptors that have been chosen are unused, and there is at most one. -/
structure Distinct (shared : SharedTable size) : Prop where
  unused : ∀ thread opening, shared.inside thread = some opening →
    shared.table.openedFile opening.2 = none
  single : ∀ thread other, shared.inside thread ≠ none → shared.inside other ≠ none → thread = other

theorem distinct_of_nobody {shared : SharedTable size}
    (nobody : ∀ thread, shared.inside thread = none) : shared.Distinct where
  unused thread _ isInside := nomatch (nobody thread).symm.trans isInside
  single thread _ isInside _ := absurd (nobody thread) isInside

variable [NeZero size] {shared next : SharedTable size}

def step (shared : SharedTable size) : DescEvent → Except DescFault (SharedTable size)
  | .openBegin thread openFlags file =>
    (shared.table.fileOpenBegin openFlags file).map fun (result, table) =>
      match result with
      | .error _ => ⟨table, shared.inside⟩
      | .ok opening => ⟨table, update shared.inside thread (some opening)⟩
  | .openEnd thread ret =>
    match shared.inside thread with
    | none => pure shared
    | some (file, fd) =>
      (shared.table.fileOpenEnd file fd ret).map fun (_, table) =>
        ⟨table, update shared.inside thread none⟩
  | .close _ fd =>
    (shared.table.fileClose fd).map fun (_, table) => ⟨table, shared.inside⟩

/-- A thread in `vfs_open` makes no other call. -/
def Enabled (shared : SharedTable size) : DescEvent → Prop
  | .openBegin thread _ _ | .close thread _ => shared.inside thread = none
  | .openEnd thread _ => shared.inside thread ≠ none

/-- No `file_open` gets past `file_desc_table_get_unused` while another one is in `vfs_open`. -/
def Alone (shared : SharedTable size) : DescEvent → Prop
  | .openBegin _ openFlags file =>
    (∃ opening table, shared.table.fileOpenBegin openFlags file = .ok (.ok opening, table)) →
      ∀ thread, shared.inside thread = none
  | _ => True

inductive Reaches : SharedTable size → Prop
  | start {shared : SharedTable size} : (∀ thread, shared.inside thread = none) → Reaches shared
  | step {shared next : SharedTable size} (event : DescEvent) : Reaches shared →
      shared.Enabled event → shared.Alone event → shared.step event = .ok next → Reaches next

theorem fileOpenBegin_unused {table after : Descriptors size}
    {openFlags : BitVec 32} {file : Option Nat} {result : Except Int (Nat × Fin size)}
    (begins : table.fileOpenBegin openFlags file = .ok (result, after)) : after.openedFile =
      table.openedFile ∧ ∀ opening, result = .ok opening → table.openedFile opening.2 = none := by
  unfold Descriptors.fileOpenBegin at begins
  split at begins
  · cases begins
    exact ⟨rfl, nofun⟩
  split at begins
  · cases begins
  next file =>
  obtain ⟨entries, unused⟩ := (table.poolAllocate (some file)).getUnused_spec
  split at begins
  · next outcome =>
    rw [outcome] at entries
    cases begins
    exact ⟨entries, nofun⟩
  next outcome =>
  rw [outcome] at entries unused
  cases begins
  refine ⟨entries, ?_⟩
  rintro opening isOpening
  cases isOpening
  exact unused _ rfl

theorem exists_of_map_ok {ε α β : Type} {outcome : Except ε α} {f : α → β} {value : β}
    (isOk : outcome.map f = .ok value) : ∃ before, outcome = .ok before ∧ f before = value := by
  cases outcome with
  | error _ => cases isOk
  | ok before => exact ⟨before, rfl, Except.ok.inj isOk⟩

theorem Distinct.step (distinct : shared.Distinct) {event : DescEvent}
    (alone : shared.Alone event) (steps : shared.step event = .ok next) : next.Distinct := by
  cases event with
  | openBegin thread openFlags file =>
    obtain ⟨⟨result, table⟩, begins, rfl⟩ := exists_of_map_ok steps
    obtain ⟨entries, unused⟩ := fileOpenBegin_unused begins
    cases result with
    | error code =>
      exact ⟨fun other opening isInside =>
        (congrFun entries _).trans (distinct.unused other opening isInside), distinct.single⟩
    | ok opening =>
      have nobody := alone ⟨opening, table, begins⟩
      have mine : ∀ other, update shared.inside thread (some opening) other ≠ none →
          other = thread :=
        fun other isInside => by_contra fun apart =>
          isInside ((update_of_ne apart ..).trans (nobody other))
      refine ⟨fun other opening' isInside => ?_, fun first second isFirst isSecond =>
        (mine first isFirst).trans (mine second isSecond).symm⟩
      obtain rfl := mine other fun nothing => nomatch nothing.symm.trans isInside
      cases (update_self ..).symm.trans isInside
      exact (congrFun entries _).trans (unused opening rfl)
  | openEnd thread ret =>
    rw [SharedTable.step] at steps
    split at steps
    · cases steps
      exact distinct
    next inside =>
    obtain ⟨⟨-, table⟩, -, rfl⟩ := exists_of_map_ok steps
    refine distinct_of_nobody fun other => ?_
    change update shared.inside thread none other = none
    rw [update_apply]
    split
    · rfl
    next apart =>
    by_contra isInside
    exact apart (distinct.single other thread isInside fun nothing =>
      nomatch nothing.symm.trans inside)
  | close thread fd =>
    obtain ⟨⟨_, table⟩, closes, rfl⟩ := exists_of_map_ok steps
    exact ⟨fun other opening isInside =>
      Descriptors.fileClose_unused closes (distinct.unused other opening isInside), distinct.single⟩

theorem Reaches.distinct (reaches : Reaches shared) : shared.Distinct := by
  induction reaches with
  | start nobody => exact distinct_of_nobody nobody
  | step event _ _ alone steps ih => exact ih.step alone steps

end SharedTable

/-- If no two opens overlap, the descriptor that an open has chosen is unused and chosen by
nobody else when it is claimed, and the assertion holds. -/
theorem shared_opens_claim_unused {size : Nat} [NeZero size] {shared : SharedTable size}
    (reaches : SharedTable.Reaches shared) {thread file : Nat} {fd : Fin size}
    (isInside : shared.inside thread = some (file, fd)) :
    shared.table.openedFile fd = none ∧ (∀ other ≠ thread, shared.inside other = none) ∧
      ∀ ret, shared.step (.openEnd thread ret) ≠ .error .entryInUse := by
  have distinct := reaches.distinct
  have unused := distinct.unused thread _ isInside
  refine ⟨unused, fun other apart => ?_, fun ret stops => ?_⟩
  · by_contra isOther
    exact apart (distinct.single other thread isOther fun nothing =>
      nomatch nothing.symm.trans isInside)
  simp only [SharedTable.step, isInside, Descriptors.fileOpenEnd, Descriptors.associate,
    Descriptors.poolFree, Descriptors.descIndex_val, unused] at stops
  cases isCount : shared.table.openCount file <;> simp only [isCount] at stops <;>
    split at stops <;> cases stops

/-- A thread is between its choice and its claim of the second descriptor, while the first is in
use and an open of another thread has been refused. -/
theorem shared_opens_claim_unused_second : ∃ shared : SharedTable 3, shared.Reaches ∧
    shared.table.openedFile 0 = some 5 ∧ shared.inside 1 = some (6, 1) ∧
    shared.table.openedFile 1 = none ∧
    ∀ ret, shared.step (.openEnd 1 ret) ≠ .error .entryInUse := by
  have start : SharedTable.Reaches ⟨closedTable 3, fun _ => none⟩ := .start fun _ => rfl
  have opening := start.step (.openBegin 0 0 (some 5)) rfl (fun _ _ => rfl) rfl
  have opened := opening.step (.openEnd 0 0) (Option.some_ne_none _) trivial rfl
  have nobody (opening : Nat × Fin 3) (thread : Nat) :
      update (update (fun _ : Nat => none) 0 (some opening)) 0 none thread = none := by
    simp [update_apply]
  have chosen := opened.step (.openBegin 1 0 (some 6)) rfl (fun _ => nobody (5, 0)) rfl
  have refused := chosen.step (.openBegin 2 3 (some 7)) rfl (by rintro ⟨_, _, ⟨⟩⟩) rfl
  obtain ⟨shared, reaches, isOpen, isInside⟩ : ∃ shared : SharedTable 3, shared.Reaches ∧
      shared.table.openedFile 0 = some 5 ∧ shared.inside 1 = some (6, 1) := ⟨_, refused, rfl, rfl⟩
  obtain ⟨unused, -, claims⟩ := shared_opens_claim_unused reaches isInside
  exact ⟨shared, reaches, isOpen, isInside, unused, claims⟩

/-- Two opens that overlap choose the same descriptor. -/
theorem shared_opens_choose_twice : ∃ first second third : SharedTable 2,
    SharedTable.step ⟨closedTable 2, fun _ => none⟩ (.openBegin 0 0 (some 5)) = .ok first ∧
    first.step (.openBegin 1 0 (some 6)) = .ok second ∧
    second.step (.openEnd 0 0) = .ok third ∧
    third.step (.openEnd 1 0) = .error .entryInUse :=
  ⟨_, _, _, rfl, rfl, rfl, rfl⟩

end UcoreSmp.Plus
