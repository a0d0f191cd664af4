import UcoreSmp.Paging
import UcoreSmp.References

/-!
# What the page tables map

A page directory read as a function from user pages to entries, and from there
to the frames that it maps.  A user page is named by its number, the address
divided by the page size.
-/

namespace UcoreSmp

def USERTABLES : Nat := 704

def USERPAGES : Nat := 720896

def entryFrame (entry : Nat) : Option Nat :=
  if entry &&& PTE_P = 0 then none else some (ppn entry)

section Entries

variable {entry frame flags : Nat}

theorem entryFrame_eq_none : entryFrame entry = none ↔ entry &&& PTE_P = 0 := by
  simp [entryFrame]

theorem entryFrame_eq_some :
    entryFrame entry = some frame ↔ entry &&& PTE_P ≠ 0 ∧ ppn entry = frame := by
  by_cases absent : entry &&& PTE_P = 0
  · simp [entryFrame, absent]
  · simp [entryFrame, absent]

theorem frame_of_present (present : entry &&& PTE_P ≠ 0) : ∃ frame, entryFrame entry = some frame :=
  ⟨_, entryFrame_eq_some.mpr ⟨present, rfl⟩⟩

@[simp]
theorem entryFrame_zero : entryFrame 0 = none :=
  rfl

theorem ppn_entryAddr (entry : Nat) : ppn (entryAddr entry) = ppn entry := by
  unfold ppn entryAddr PGSIZE
  omega

theorem ppn_page2pa (page : Nat) : ppn (page2pa page) = page := by
  unfold ppn page2pa PGSIZE
  omega

theorem page2pa_or (small : flags < PGSIZE) : page2pa frame ||| flags = frame * PGSIZE + flags := by
  have disjoint := Nat.two_pow_add_eq_or_of_lt (i := 12) (b := flags) small frame
  rw [page2pa, PGSIZE, Nat.mul_comm]
  exact disjoint.symm

theorem entryFrame_page2pa (small : flags < PGSIZE) (present : flags % 2 = 1) :
    entryFrame (page2pa frame ||| flags) = some frame := by
  rw [page2pa_or small, entryFrame_eq_some, PTE_P, Nat.and_one_is_mod, ppn]
  unfold PGSIZE at small ⊢
  omega

theorem page2pa_or_lt (small : flags < PGSIZE) (inside : frame < 2 ^ 20) :
    page2pa frame ||| flags < 2 ^ 32 := by
  rw [page2pa_or small]
  unfold PGSIZE at small ⊢
  omega

theorem tableEntry_eq (page : Nat) :
    page2pa page ||| PTE_U ||| PTE_W ||| PTE_P = page2pa page ||| 7 := by
  rw [Nat.or_assoc, Nat.or_assoc]
  rfl

theorem presentFlags_odd (perm : Nat) : (PTE_P ||| perm) % 2 = 1 := by
  have split := Nat.or_mod_two_pow (a := PTE_P) (b := perm) (n := 1)
  rw [split, PTE_P]
  rcases Nat.mod_two_eq_zero_or_one perm with even | odd
  · rw [even]; rfl
  · rw [odd]; rfl

theorem presentFlags_lt {perm : Nat} (small : perm < PGSIZE) : (PTE_P ||| perm) < PGSIZE :=
  Nat.or_lt_two_pow (n := 12) (by decide) small

theorem presentEntry_lt {perm : Nat} (fits : perm < PGSIZE) (inside : frame < 2 ^ 20) :
    page2pa frame ||| PTE_P ||| perm < 2 ^ 32 := by
  rw [Nat.or_assoc]
  exact page2pa_or_lt (presentFlags_lt fits) inside

theorem entryFrame_present {perm : Nat} (fits : perm < PGSIZE) :
    entryFrame (page2pa frame ||| PTE_P ||| perm) = some frame := by
  rw [Nat.or_assoc]
  exact entryFrame_page2pa (presentFlags_lt fits) (presentFlags_odd perm)

end Entries

namespace PhysState

variable {state next : PhysState} {frame index value : Nat}

theorem mem_setMem_self (bytes : Bytes) : (state.setMem frame bytes).mem frame = bytes :=
  Function.update_self _ _ _

variable {other dir page : Nat}

theorem mem_setMem_of_ne (distinct : other ≠ frame) (bytes : Bytes) :
    (state.setMem frame bytes).mem other = state.mem other :=
  Function.update_of_ne distinct _ _

theorem entry_congr (same : next.mem frame = state.mem frame) :
    next.entry frame index = state.entry frame index := by
  rw [entry, entry, same]

theorem entry_setEntry_self (fits : value < 2 ^ 32) :
    (state.setEntry frame index value).entry frame index = value := by
  rw [entry, setEntry, mem_setMem_self, leNat_blit_self]
  exact Nat.mod_eq_of_lt fits

theorem entry_setEntry_of_ne {place : Nat} (apart : other ≠ frame ∨ place ≠ index) :
    (state.setEntry frame index value).entry other place = state.entry other place := by
  by_cases same : other = frame
  · subst same
    rw [entry, setEntry, mem_setMem_self, leNat_blit_other (by omega)]
    rfl
  · exact entry_congr (mem_setMem_of_ne same _)

theorem entry_cleared (state : PhysState) (frame : Nat) (inside : index < 1024) :
    (state.setMem frame ((state.mem frame).blit 0 (fun _ => 0) 0 PGSIZE)).entry frame index =
      0 := by
  rw [entry, mem_setMem_self]
  refine Eq.trans ?_ (leNat_zero 4 (4 * index))
  apply leNat_congr
  intro j small
  exact Bytes.blit_inside _ (by unfold PGSIZE; omega)

def table (state : PhysState) (dir index : Nat) : Option Nat :=
  entryFrame (state.entry dir index)

def pte (state : PhysState) (dir page : Nat) : Nat :=
  match state.table dir (page / 1024) with
  | none => 0
  | some table => state.entry table (page % 1024)

def mapped (state : PhysState) (dir page : Nat) : Option Nat :=
  entryFrame (state.pte dir page)

/-- The present entries, over all user pages of the directories, that map a
frame. -/
def mappers (state : PhysState) (dirs : Finset Nat) (frame : Nat) : Nat :=
  references (dirs ×ˢ Finset.range USERPAGES) (fun place => state.mapped place.1 place.2) frame

theorem table_congr (same : next.mem dir = state.mem dir) :
    next.table dir index = state.table dir index := by
  rw [table, table, entry_congr same]

theorem pte_of_table {table : Nat} (found : state.table dir (page / 1024) = some table) :
    state.pte dir page = state.entry table (page % 1024) := by
  rw [pte, found]

theorem pte_of_none (missing : state.table dir (page / 1024) = none) : state.pte dir page = 0 := by
  rw [pte, missing]

theorem pte_congr (sameTable : next.table dir (page / 1024) = state.table dir (page / 1024))
    (same : ∀ table, state.table dir (page / 1024) = some table →
      next.entry table (page % 1024) = state.entry table (page % 1024)) :
    next.pte dir page = state.pte dir page := by
  cases found : state.table dir (page / 1024) with
  | none => rw [pte_of_none found, pte_of_none (sameTable.trans found)]
  | some table =>
    rw [pte_of_table found, pte_of_table (sameTable.trans found), same table found]

theorem mapped_congr (same : next.pte dir page = state.pte dir page) :
    next.mapped dir page = state.mapped dir page := by
  rw [mapped, mapped, same]

end PhysState

def pageNumber (la : Nat) : Nat := la / PGSIZE

section Addresses

variable {la : Nat}

theorem pdx_eq (user : la < USERTOP) : pdx la = pageNumber la / 1024 := by
  unfold pdx pageNumber PGSIZE PTSIZE
  unfold USERTOP at user
  omega

theorem ptx_eq (la : Nat) : ptx la = pageNumber la % 1024 :=
  rfl

theorem pageNumber_lt (user : la < USERTOP) : pageNumber la < USERPAGES := by
  unfold pageNumber PGSIZE USERPAGES
  unfold USERTOP at user
  omega

theorem pdx_lt (user : la < USERTOP) : pdx la < USERTABLES := by
  unfold pdx PTSIZE USERTABLES
  unfold USERTOP at user
  omega

end Addresses

end UcoreSmp
