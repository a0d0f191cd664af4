import UcoreSmp.PagingCalls
import UcoreSmp.ServedRequests

/-!
# The requests for memory that copying an address space makes

What `dup_mmap` does under memory exhaustion depends on the first request that fails.
The requests of `copy_range` follow from the page tables alone: one page for every
mapped page of the source, and one for the page table before it where the target
has none yet.
-/

namespace UcoreSmp

/-- What is asked for: a heap block, a page table, or a page that `copy_range` fills. -/
inductive MemoryRequest where
  | block
  | table
  | data
  deriving DecidableEq

/-- The free frames and heap blocks in use, and the answers of the allocators. -/
structure Supply where
  free : Finset Nat
  picks : List (Option Nat)
  heap : Finset Nat
  heapPicks : List (Option Nat)

namespace Supply

def servePage (supply : Supply) : Option Supply :=
  match supply.picks with
  | some frame :: rest =>
    if frame ∈ supply.free
    then some { supply with free := supply.free.erase frame, picks := rest }
    else none
  | _ => none

def serve (supply : Supply) : MemoryRequest → Option Supply
  | .block =>
    match supply.heapPicks with
    | some block :: rest =>
      if block ∈ supply.heap then none
      else some { supply with heap := insert block supply.heap, heapPicks := rest }
    | _ => none
  | .table | .data => supply.servePage

def withPhys (supply : Supply) (phys : PhysState) : Supply :=
  { supply with free := phys.free, picks := phys.picks }

end Supply

open Supply

variable {request : MemoryRequest}

section Requests

variable {state next : PhysState} {before : List MemoryRequest}

theorem serve_page (supply : Supply) (isPage : request = .table ∨ request = .data) :
    (supply.withPhys state).serve request =
      state.pick.map fun frame => supply.withPhys (state.take frame) := by
  have isServed : (supply.withPhys state).serve request = (supply.withPhys state).servePage := by
    cases isPage with
    | inl isTable => rw [isTable, serve]
    | inr isData => rw [isData, serve]
  rw [isServed]
  unfold PhysState.pick servePage withPhys PhysState.take
  cases state.picks with
  | nil => rfl
  | cons answer rest =>
    cases answer with
    | none => rfl
    | some found =>
      dsimp only
      split <;> rfl

theorem Spends.page {frame : Nat} (isPage : request = .table ∨ request = .data)
    (picked : state.pick = some frame) :
    Spends serve withPhys state [request] (state.take frame) := by
  intro supply
  rw [serveAll, serve_page supply isPage, picked]
  rfl

theorem Spends.congr {last : PhysState} (spent : Spends serve withPhys state before next)
    (free : last.free = next.free) (picks : last.picks = next.picks) :
    Spends serve withPhys state before last := by
  intro supply
  rw [spent supply, withPhys, withPhys, free, picks]

theorem Refuses.page (isPage : request = .table ∨ request = .data)
    (refused : state.pick = none) : Refuses serve withPhys state [request] request := by
  intro supply
  rw [firstRefused, serve_page supply isPage, refused]
  rfl

end Requests

/-- A refusal that stops the kernel: no page to copy to, or any single page, also
one for the heap, while pages could be swapped out. -/
def MemoryRequest.Fatal (swapInitOk : Bool) : MemoryRequest → Prop
  | .block | .table => swapInitOk = true
  | .data => True

/-- The steps of `dup_mmap`: a new area, or a page to copy. -/
inductive CopyStep where
  | area
  | page (page : Nat)

/-- The requests of some steps, with the page tables that the target has before. -/
def copyRequests (tables : Finset Nat) : List CopyStep → List MemoryRequest
  | [] => []
  | .area :: rest => .block :: copyRequests tables rest
  | .page page :: rest =>
    (if page / 1024 ∈ tables then [] else [.table]) ++
      .data :: copyRequests (insert (page / 1024) tables) rest

def copyTables (tables : Finset Nat) : List CopyStep → Finset Nat
  | [] => tables
  | .area :: rest => copyTables tables rest
  | .page page :: rest => copyTables (insert (page / 1024) tables) rest

theorem copyRequests_append (tables : Finset Nat) (before after : List CopyStep) :
    copyRequests tables (before ++ after) =
      copyRequests tables before ++ copyRequests (copyTables tables before) after := by
  induction before generalizing tables with
  | nil => rfl
  | cons step rest ih =>
    cases step with
    | area =>
      rw [List.cons_append, copyRequests, ih]
      rfl
    | page page =>
      rw [List.cons_append, copyRequests, ih, copyRequests, copyTables, List.append_assoc]
      rfl

theorem copyTables_append (tables : Finset Nat) (before after : List CopyStep) :
    copyTables tables (before ++ after) = copyTables (copyTables tables before) after := by
  induction before generalizing tables with
  | nil => rfl
  | cons step rest ih =>
    cases step with
    | area => exact ih tables
    | page page => exact ih (insert (page / 1024) tables)

def mappedSteps (state : PhysState) (dir first count : Nat) : List CopyStep :=
  ((List.range' first count).filter fun page => (state.mapped dir page).isSome).map .page

theorem mappedSteps_cons (state : PhysState) (dir : Nat) {page last : Nat} (below : page < last) :
    mappedSteps state dir page (last - page) =
      (if (state.mapped dir page).isSome then [.page page] else []) ++
        mappedSteps state dir (page + 1) (last - (page + 1)) := by
  obtain ⟨count, isCount⟩ : ∃ count, last - page = count + 1 := ⟨last - page - 1, by omega⟩
  have rest : last - (page + 1) = count := by omega
  rw [mappedSteps, isCount, rest, List.range'_succ, List.filter_cons]
  split
  · rfl
  · rfl

theorem mappedSteps_skip {state : PhysState} {dir page next last : Nat} (onwards : page ≤ next)
    (unmapped : ∀ spot, page ≤ spot → spot < next → spot < last → state.mapped dir spot = none) :
    mappedSteps state dir page (last - page) = mappedSteps state dir next (last - next) := by
  induction next, onwards using Nat.le_induction with
  | base => rfl
  | succ next onwards ih =>
    rw [ih fun spot above below => unmapped spot above (by omega)]
    by_cases below : next < last
    · rw [mappedSteps_cons state dir below, unmapped next onwards (Nat.lt_succ_self _) below]
      rfl
    · rw [Nat.sub_eq_zero_of_le (by omega), Nat.sub_eq_zero_of_le (by omega)]
      rfl

theorem mappedSteps_congr {state next : PhysState} {dir first last : Nat}
    (same : ∀ page, first ≤ page → page < last → next.mapped dir page = state.mapped dir page) :
    mappedSteps next dir first (last - first) = mappedSteps state dir first (last - first) := by
  unfold mappedSteps
  congr 1
  apply List.filter_congr
  intro page member
  rw [List.mem_range'_1] at member
  rw [same page member.1 (by omega)]

/-- The page tables that a directory has for user space. -/
def HasTables (state : PhysState) (dir : Nat) (tables : Finset Nat) : Prop :=
  ∀ index, index < USERTABLES → (index ∈ tables ↔ state.table dir index ≠ none)

section Steps

variable {ι σ : Type} (view : ι → σ → Supply) (has : σ → Finset Nat → Prop)

/-- The requests of some steps were served, and the target has the page tables. -/
def CopyServed (state : σ) (steps : List CopyStep) (next : σ) : Prop :=
  ∀ tables, has state tables → Spends serve view state (copyRequests tables steps) next ∧
    has next (copyTables tables steps)

/-- The first request of some steps that is refused. -/
def CopyStopped (state : σ) (steps : List CopyStep) (request : MemoryRequest) : Prop :=
  ∀ tables, has state tables → Refuses serve view state (copyRequests tables steps) request

variable {view has} {state next last : σ} {before after : List CopyStep}

theorem CopyServed.refl (state : σ) : CopyServed view has state [] state :=
  fun _ tables => ⟨fun _ => rfl, tables⟩

theorem CopyServed.trans (first : CopyServed view has state before next)
    (second : CopyServed view has next after last) :
    CopyServed view has state (before ++ after) last := by
  intro tables hasTables
  obtain ⟨served, hasTables'⟩ := first tables hasTables
  rw [copyRequests_append, copyTables_append]
  exact (second _ hasTables').imp_left served.trans

theorem CopyStopped.later (first : CopyServed view has state before next)
    (second : CopyStopped view has next after request) :
    CopyStopped view has state (before ++ after) request := by
  intro tables hasTables
  obtain ⟨served, hasTables'⟩ := first tables hasTables
  rw [copyRequests_append]
  exact Refuses.later served (second _ hasTables')

theorem CopyStopped.append (stopped : CopyStopped view has state before request)
    (after : List CopyStep) : CopyStopped view has state (before ++ after) request := by
  intro tables hasTables
  rw [copyRequests_append]
  exact (stopped tables hasTables).append _

end Steps

abbrev CopySpends (toDir : Nat) : PhysState → List CopyStep → PhysState → Prop :=
  CopyServed withPhys fun phys => HasTables phys toDir

abbrev CopyRefuses (toDir : Nat) : PhysState → List CopyStep → MemoryRequest → Prop :=
  CopyStopped withPhys fun phys => HasTables phys toDir

section Pages

variable {state next : PhysState} {toDir : Nat}
variable {dirs tables : Finset Nat} {role role' : Nat → FrameRole} {page table : Nat}

theorem HasTables.insert (has : HasTables state toDir tables)
    (touches : Touches dirs (OnPage toDir page) state role next role') (member : toDir ∈ dirs)
    (present : next.pte toDir page ≠ 0) : HasTables next toDir (insert (page / 1024) tables) := by
  intro index inside
  rw [Finset.mem_insert, has index inside]
  constructor
  · rintro (rfl | old) missing
    · exact present (PhysState.pte_of_none missing)
    obtain ⟨table, isTable⟩ := Option.ne_none_iff_exists'.mp old
    rw [touches.table member inside isTable] at missing
    cases missing
  intro found
  by_cases old : state.table toDir index = none
  · obtain ⟨spot, on, position⟩ := touches.tableNew member inside old found
    exact .inl (by rw [← position, on.2])
  · exact .inr old

/-- `get_pte` takes a page where the table is missing. -/
theorem TableFor.spends (found : TableFor state role toDir (page / 1024) next role' table)
    (paged : Paged state dirs role none) (isDir : role toDir = .directory)
    (inside : page / 1024 < USERTABLES) (has : HasTables state toDir tables) :
    Spends serve withPhys state (if page / 1024 ∈ tables then [] else [.table]) next := by
  cases found with
  | old isTable =>
    have present := (paged.layout.table_iff isDir inside).mpr isTable
    rw [if_pos ((has _ inside).mpr (by simp [present]))]
    exact fun _ => rfl
  | new picked missing =>
    rw [if_neg (fun member => (has _ inside).mp member missing)]
    exact (Spends.page (.inl rfl) picked).congr rfl rfl

theorem copyRefuses_table (inside : page / 1024 < USERTABLES)
    (missing : state.table toDir (page / 1024) = none) (refused : state.pick = none) :
    CopyRefuses toDir state [.page page] .table := by
  intro tables has
  rw [copyRequests, if_neg (fun member => (has _ inside).mp member missing)]
  exact (Refuses.page (.inl rfl) refused).append _

theorem TableFor.refuses (found : TableFor state role toDir (page / 1024) next role' table)
    (paged : Paged state dirs role none) (isDir : role toDir = .directory)
    (inside : page / 1024 < USERTABLES) (refused : next.pick = none) :
    CopyRefuses toDir state [.page page] .data := by
  intro tables has
  exact Refuses.later (found.spends paged isDir inside has) (Refuses.page (.inr rfl) refused)

end Pages

end UcoreSmp
