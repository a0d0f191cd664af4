import UcoreSmp.UserMemory

/-!
# Pages above user space

The loops of `load_icode` follow the sizes in a program header, and where their
sums wrap around, they map pages between `USERTOP` and the kernel as well.  The
page tables and frames of such pages count as frames of the kernel here, known
to this directory only, so that user space stays well formed.
-/

namespace UcoreSmp

open Function PhysState

def KERNTABLES : Nat := 768

def KERNPAGES : Nat := 786432

def HighTable (index : Nat) : Prop := USERTABLES ≤ index ∧ index < KERNTABLES

def HighPage (page : Nat) : Prop := USERPAGES ≤ page ∧ page < KERNPAGES

variable {page dir perm : Nat} {dirs : Finset Nat} {role role' : Nat → FrameRole}
  {state next : PhysState} {faulty : MmFault → Prop}

theorem HighPage.table (high : HighPage page) : HighTable (page / 1024) := by
  obtain ⟨lower, upper⟩ := high
  unfold USERPAGES at lower
  unfold KERNPAGES at upper
  unfold HighTable USERTABLES KERNTABLES
  omega

/-- A place above user space that leads to a frame. -/
inductive HighUse where
  | table (index : Nat)
  | page (page : Nat)
  deriving DecidableEq

def HighUse.High : HighUse → Prop
  | .table index => HighTable index
  | .page page => HighPage page

def PhysState.use (state : PhysState) (dir : Nat) : HighUse → Option Nat
  | .table index => state.table dir index
  | .page page => state.mapped dir page

/-- Well-formed memory, with pages of this directory above user space: each of their tables and
frames is a frame of the kernel of its own. -/
structure Loose (dirs : Finset Nat) (dir : Nat) (state : PhysState) (role : Nat → FrameRole) :
    Prop where
  paged : Paged state dirs role none
  isDir : role dir = .directory
  kernel : ∀ (use : HighUse) {frame}, use.High → state.use dir use = some frame →
    role frame = .kernel
  injective : ∀ (use use' : HighUse) {frame}, use.High → use'.High →
    state.use dir use = some frame → state.use dir use' = some frame → use = use'

/-- A frame of the kernel that the pages above user space do not use. -/
structure Fresh (dir : Nat) (state : PhysState) (role : Nat → FrameRole) (frame : Nat) : Prop where
  kernel : role frame = .kernel
  unused : ∀ use : HighUse, use.High → state.use dir use ≠ some frame

structure HighStep (dirs : Finset Nat) (dir : Nat) (state : PhysState)
    (role : Nat → FrameRole) (next : PhysState) (role' : Nat → FrameRole) : Prop where
  loose : Loose dirs dir next role'
  pte : ∀ {other page}, other ∈ dirs → page < USERPAGES → next.pte other page = state.pte other page
  mem : ∀ {frame}, role frame = .user → next.mem frame = state.mem frame
  user : ∀ {frame}, role frame = .user → role' frame = .user

theorem HighStep.trans {middle : PhysState} {role'' : Nat → FrameRole}
    (first : HighStep dirs dir state role middle role')
    (second : HighStep dirs dir middle role' next role'') :
    HighStep dirs dir state role next role'' where
  loose := second.loose
  pte member inside := (second.pte member inside).trans (first.pte member inside)
  mem isUser := (second.mem (first.user isUser)).trans (first.mem isUser)
  user isUser := second.user (first.user isUser)

theorem Loose.unchanged (loose : Loose dirs dir state role) :
    HighStep dirs dir state role state role :=
  ⟨loose, fun _ _ => rfl, fun _ => rfl, id⟩

/-- Free frames and frames of the kernel change, and nothing that user space is
made of. -/
theorem Paged.rearrange (paged : Paged state dirs role none) (npage : next.npage = state.npage)
    (kept : ∀ {other} (third : FrameRole), third ≠ .free → third ≠ .kernel →
      (role' other = third ↔ role other = third))
    (table : ∀ {dir index}, role dir = .directory → index < USERTABLES →
      next.table dir index = state.table dir index)
    (mem : ∀ {frame dir index}, role frame = .table dir index → next.mem frame = state.mem frame)
    (free : ∀ frame, frame ∈ next.free ↔ role' frame = .free)
    (ref : ∀ {frame}, role frame = .user ∨ role frame = .held → next.ref frame = state.ref frame)
    (idle : ∀ {frame}, role' frame = .free → next.ref frame = 0) :
    Paged next dirs role' none ∧ ∀ {dir page}, dir ∈ dirs → page < USERPAGES →
      next.pte dir page = state.pte dir page := by
  have pte : ∀ {dir page}, role dir = .directory → page < USERPAGES →
      next.pte dir page = state.pte dir page := by
    intro dir page isDir inside
    apply pte_congr (table isDir (page_table_lt inside))
    intro found isFound
    have isTable := (paged.layout.table_iff isDir (page_table_lt inside)).mp isFound
    exact entry_congr (mem isTable)
  have mappers : ∀ frame, next.mappers dirs frame = state.mappers dirs frame :=
    mappers_congr fun member inside =>
      mapped_congr (pte (paged.isDir member) inside)
  refine ⟨?_, fun member inside => pte (paged.isDir member) inside⟩
  constructor
  · exact npage ▸ paged.small
  · intro frame inside
    rw [npage]
    apply paged.inside
    rwa [Ne, ← kept .outside (by simp) (by simp)]
  · exact free
  · intro dir
    rw [kept .directory (by simp) (by simp)]
    exact paged.dirs_iff dir
  · exact paged.layout.congr table pte (fun _ => kept .directory (by simp) (by simp))
      (fun _ _ _ => kept (.table _ _) (by simp) (by simp))
      (fun _ => (kept .user (by simp) (by simp)).mpr)
  · exact fun owed => nomatch owed
  · intro frame isUser
    rw [kept .user (by simp) (by simp)] at isUser
    rw [ref (.inl isUser), mappers]
    exact paged.counted isUser
  · intro frame isUser free'
    rw [kept .user (by simp) (by simp)] at isUser
    rw [mappers]
    exact paged.used isUser free'
  rintro frame (isFree | isHeld)
  · exact idle isFree
  rw [kept .held (by simp) (by simp)] at isHeld
  rw [ref (.inr isHeld)]
  exact paged.idle (.inr isHeld)

variable {frame la table value : Nat}

variable {use use' : HighUse}

/-- The pages above user space depend on the directory and on frames of the
kernel only. -/
theorem Loose.congr (loose : Loose dirs dir state role) (paged : Paged next dirs role' none)
    (isDir : role' dir = .directory)
    (same : ∀ {use}, HighUse.High use → next.use dir use = state.use dir use)
    (kernel : ∀ (use : HighUse) {frame}, use.High → state.use dir use = some frame →
      role' frame = .kernel) : Loose dirs dir next role' where
  paged := paged
  isDir := isDir
  kernel use _ high found := kernel use high ((same high).symm.trans found)
  injective use use' _ high high' found found' := loose.injective use use' high high'
    ((same high).symm.trans found) ((same high').symm.trans found')

theorem Loose.use_eq
    (table : ∀ {index}, HighTable index → next.table dir index = state.table dir index)
    (mem : ∀ {index frame}, HighTable index → state.table dir index = some frame →
      next.mem frame = state.mem frame) (high : use.High) :
    next.use dir use = state.use dir use := by
  cases use with
  | table index => exact table high
  | page page =>
    apply mapped_congr
    apply pte_congr (table (HighPage.table high))
    intro found isFound
    exact entry_congr (mem (HighPage.table high) isFound)

/-- One place gets a fresh frame, or none. -/
theorem Loose.redirect (loose : Loose dirs dir state role) (paged : Paged next dirs role none)
    (spot : HighUse) {value : Option Nat}
    (uses : ∀ {use}, HighUse.High use →
      next.use dir use = if use = spot then value else state.use dir use)
    (points : ∀ {frame}, value = some frame → Fresh dir state role frame) :
    Loose dirs dir next role := by
  refine ⟨paged, loose.isDir, ?_, ?_⟩
  · intro use frame high found
    rw [uses high] at found
    split at found
    · exact (points found).kernel
    · exact loose.kernel use high found
  intro use use' frame high high' found found'
  rw [uses high] at found
  rw [uses high'] at found'
  split at found <;> split at found'
  · next isSpot isSpot' => exact isSpot.trans isSpot'.symm
  · exact absurd found' ((points found).unused use' high')
  · exact absurd found ((points found').unused use high)
  · exact loose.injective use use' high high' found found'

section

variable (loose : Loose dirs dir state role)

include loose

/-- A step that leaves the frames of the high tables and the roles of the frames
of the kernel alone. -/
theorem Loose.still (npage : next.npage = state.npage)
    (mem : ∀ {other}, role other ≠ .kernel → next.mem other = state.mem other)
    (tables : ∀ {index other}, HighTable index → state.table dir index = some other →
      next.mem other = state.mem other) (free : next.free = state.free)
    (ref : ∀ {other}, role other ≠ .kernel → next.ref other = state.ref other) :
    HighStep dirs dir state role next role := by
  have table : ∀ {other index}, role other = .directory →
      next.table other index = state.table other index := fun isDir =>
    table_congr (mem (by simp [isDir]))
  obtain ⟨paged, pte⟩ := loose.paged.rearrange npage (fun _ _ _ => Iff.rfl)
    (fun isDir _ => table isDir) (fun isTable => mem (by simp [isTable]))
    (free ▸ loose.paged.free_iff)
    (fun either => ref (owned_ne either (by simp) (by simp)))
    (fun isFree => (ref (by simp [isFree])).trans (loose.paged.idle (.inl isFree)))
  refine ⟨?_, pte, fun isUser => mem (by simp [isUser]), id⟩
  exact loose.congr paged loose.isDir
    (Loose.use_eq (fun _ => table loose.isDir) tables) loose.kernel

theorem Loose.setRef (isKernel : role frame = .kernel) (ref : Int) :
    HighStep dirs dir state role (state.setRef frame ref) role := by
  refine loose.still rfl (fun _ => rfl) (fun _ _ => rfl) rfl ?_
  intro other notKernel
  apply update_of_ne
  rintro rfl
  exact notKernel isKernel

theorem Loose.fill (isKernel : role frame = .kernel)
    (noTable : ∀ {index}, HighTable index → state.table dir index ≠ some frame) (bytes : Bytes) :
    HighStep dirs dir state role (state.setMem frame bytes) role := by
  refine loose.still rfl ?_ ?_ rfl (fun _ => rfl)
  · intro other notKernel
    apply mem_setMem_of_ne
    rintro rfl
    exact notKernel isKernel
  intro index other high found
  apply mem_setMem_of_ne
  rintro rfl
  exact noTable high found

theorem Loose.reassign {new : FrameRole} (old : role frame = .free ∨ role frame = .kernel)
    (isNew : new = .free ∨ new = .kernel) (npage : next.npage = state.npage)
    (mem : next.mem = state.mem)
    (free : ∀ other, other ∈ next.free ↔ update role frame new other = .free)
    (ref : ∀ {other}, other ≠ frame → next.ref other = state.ref other)
    (idle : new = .free → next.ref frame = 0) (unused : new = .free → Fresh dir state role frame) :
    HighStep dirs dir state role next (update role frame new) := by
  have kept : ∀ {other} (third : FrameRole), third ≠ .free → third ≠ .kernel →
      (update role frame new other = third ↔ role other = third) := by
    intro other third notFree notKernel
    apply update_role_iff
    · rintro rfl
      exact old.elim notFree notKernel
    · rintro rfl
      exact isNew.elim notFree notKernel
  have table : ∀ {other index}, next.table other index = state.table other index :=
    table_congr (congrFun mem _)
  have ne : ∀ {other}, role other = .user ∨ role other = .held → other ≠ frame := by
    rintro other either rfl
    rcases either with is | is <;> rcases old with was | was <;> rw [is] at was <;> cases was
  obtain ⟨paged, pte⟩ := loose.paged.rearrange npage kept (fun _ _ => table)
    (fun _ => congrFun mem _) free (fun either => ref (ne either)) (by
      intro other isFree
      by_cases same : other = frame
      · subst same
        rw [update_self] at isFree
        exact idle isFree
      rw [update_of_ne same] at isFree
      rw [ref same]
      exact loose.paged.idle (.inl isFree))
  refine ⟨?_, pte, fun _ => congrFun mem _, fun isUser => (kept .user (by simp) (by simp)).mpr
    isUser⟩
  refine loose.congr paged ((kept .directory (by simp) (by simp)).mpr loose.isDir)
    (Loose.use_eq (fun _ => table) fun _ _ => congrFun mem _) ?_
  intro use other high found
  by_cases same : other = frame
  · subst same
    rw [update_self]
    exact isNew.resolve_left fun isFree => (unused isFree).unused use high found
  · rw [update_of_ne same]
    exact loose.kernel use high found

theorem Loose.take (isFree : role frame = .free) :
    HighStep dirs dir state role (state.take frame) (update role frame .kernel) ∧
      Fresh dir (state.take frame) (update role frame .kernel) frame := by
  constructor
  · exact loose.reassign (.inl isFree) (.inr rfl) rfl rfl (loose.paged.free_erase (by simp))
      (fun _ => rfl) (fun is => nomatch is) (fun is => nomatch is)
  refine ⟨update_self _ _ _, fun use high found => ?_⟩
  have isKernel := loose.kernel use high found
  rw [isFree] at isKernel
  cases isKernel

theorem Loose.give (fresh : Fresh dir state role frame) :
    HighStep dirs dir state role (state.give frame) (update role frame .free) :=
  loose.reassign (.inr fresh.kernel) (.inl rfl) rfl rfl loose.paged.free_insert
    (fun distinct => update_of_ne distinct _ _)
    (fun _ => update_self _ _ _) (fun _ => fresh)

end

section

variable (loose : Loose dirs dir state role) (high : HighPage page)
  (found : state.table dir (page / 1024) = some table) (fits : value < 2 ^ 32)

include loose high found fits

theorem Loose.use_setEntry (high' : use.High) :
    (state.setEntry table (page % 1024) value).use dir use =
      if use = .page page then entryFrame value else state.use dir use := by
  have isTable := loose.kernel (.table _) high.table found
  have same : ∀ {index}, (state.setEntry table (page % 1024) value).table dir index =
      state.table dir index :=
    table_congr (mem_setEntry (ne_of_role loose.isDir isTable (by simp)))
  cases use with
  | table index => exact same
  | page other =>
    by_cases here : other = page
    · subst here
      rw [if_pos rfl, PhysState.use, mapped, pte_of_table (same.trans found),
        entry_setEntry_self fits]
    rw [if_neg (mt HighUse.page.inj here)]
    apply mapped_congr
    apply pte_congr same
    intro found' isFound
    apply entry_setEntry_of_ne
    by_cases sameTable : found' = table
    · subst sameTable
      have position := HighUse.table.inj
        (loose.injective (.table _) (.table _) (HighPage.table high') high.table isFound found)
      right
      omega
    · exact .inl sameTable

theorem Loose.setEntry
    (points : ∀ {frame}, entryFrame value = some frame → Fresh dir state role frame) :
    HighStep dirs dir state role (state.setEntry table (page % 1024) value) role := by
  have isTable := loose.kernel (.table _) high.table found
  have mem : ∀ {other}, role other ≠ .kernel →
      (state.setEntry table (page % 1024) value).mem other = state.mem other := by
    intro other notKernel
    apply mem_setEntry
    rintro rfl
    exact notKernel isTable
  have npage : (state.setEntry table (page % 1024) value).npage = state.npage := rfl
  obtain ⟨paged, pte⟩ := loose.paged.rearrange npage (fun _ _ _ => Iff.rfl)
    (fun isDir _ => table_congr (mem (by simp [isDir]))) (fun isOther => mem (by simp [isOther]))
    loose.paged.free_iff (fun _ => rfl) (fun isFree => loose.paged.idle (.inl isFree))
  refine ⟨?_, pte, fun isUser => mem (by simp [isUser]), id⟩
  exact loose.redirect paged (.page page) (loose.use_setEntry high found fits) points

end

theorem Loose.addTable (loose : Loose dirs dir state role) {index : Nat} (high : HighTable index)
    (missing : state.table dir index = none) (fresh : Fresh dir state role table) :
    HighStep dirs dir state role (state.addTable dir index table) role ∧
      (state.addTable dir index table).table dir index = some table ∧ ∀ {frame}, frame ≠ table →
      Fresh dir state role frame → Fresh dir (state.addTable dir index table) role frame := by
  have isKernel := fresh.kernel
  have small : table < 2 ^ 20 :=
    (loose.paged.inside (by simp [isKernel])).trans_le loose.paged.small
  have notDir : table ≠ dir := ne_of_role isKernel loose.isDir (by simp)
  have notTable : ∀ {other}, role other ≠ .kernel → other ≠ table := by
    rintro other notKernel rfl
    exact notKernel isKernel
  have atIndex : (state.addTable dir index table).table dir index = some table :=
    table_addTable_self small
  have elsewhere : ∀ {other position}, role other = .directory → other ≠ dir ∨ position ≠ index →
      (state.addTable dir index table).table other position = state.table other position := by
    intro other position isDir apart
    rw [PhysState.table, PhysState.table, entry_addTable_dir (notTable (by simp [isDir])) apart]
  have uses : ∀ {use}, HighUse.High use → (state.addTable dir index table).use dir use =
      if use = .table index then some table else state.use dir use := by
    rintro (position | page) isHigh
    · split
      · next here => exact HighUse.table.inj here ▸ atIndex
      · next here => exact elsewhere loose.isDir (.inr fun same => here (same ▸ rfl))
    apply mapped_congr
    by_cases here : page / 1024 = index
    · subst here
      rw [pte_of_none missing, pte_of_table atIndex]
      exact entry_addTable_table notDir (Nat.mod_lt _ (by decide))
    apply pte_congr (elsewhere loose.isDir (.inr here))
    intro found isFound
    have isTable := HighPage.table isHigh
    apply entry_addTable_dir
    · rintro rfl
      exact fresh.unused (.table _) isTable isFound
    · exact .inl (ne_of_role (loose.kernel (.table _) isTable isFound) loose.isDir (by simp))
  have npage : (state.addTable dir index table).npage = state.npage := rfl
  have ref : ∀ {other}, role other ≠ .kernel →
      (state.addTable dir index table).ref other = state.ref other :=
    fun notKernel => update_of_ne (notTable notKernel) _ _
  obtain ⟨paged, pte⟩ := loose.paged.rearrange npage (fun _ _ _ => Iff.rfl)
    (fun isDir inside => elsewhere isDir (.inr (by have := high.1; omega)))
    (fun isOther => mem_addTable (notTable (by simp [isOther]))
      (ne_of_role isOther loose.isDir (by simp)))
    loose.paged.free_iff
    (fun either => ref (owned_ne either (by simp) (by simp)))
    (fun isFree => (ref (by simp [isFree])).trans (loose.paged.idle (.inl isFree)))
  refine ⟨⟨loose.redirect paged (.table index) uses ?_, pte, ?_, id⟩, atIndex, ?_⟩
  · rintro _ ⟨⟩
    exact fresh
  · exact fun isUser => mem_addTable (notTable (by simp [isUser]))
      (ne_of_role isUser loose.isDir (by simp))
  refine fun distinct isFresh => ⟨isFresh.kernel, fun use isHigh isFound => ?_⟩
  rw [uses isHigh] at isFound
  split at isFound
  · exact distinct (Option.some.inj isFound).symm
  · exact isFresh.unused use isHigh isFound

/-! ## The routines on pages above user space -/

section Calls

variable {failed : Int → PhysState → Prop}

theorem Fresh.congr (fresh : Fresh dir state role frame) (kernel : role' frame = .kernel)
    (same : next.use dir = state.use dir) : Fresh dir next role' frame :=
  ⟨kernel, same ▸ fresh.unused⟩

theorem pdx_high (high : HighPage (pageNumber la)) : pdx la = pageNumber la / 1024 := by
  have upper := high.2
  unfold KERNPAGES at upper
  have split : pdx la = pageNumber la / 1024 % 1024 := by
    unfold pdx pageNumber PTSIZE PGSIZE
    omega
  omega

variable (loose : Loose dirs dir state role) (stuck : ∀ fault, faulty fault)

include loose stuck

theorem getPte_high {post : Option PtePtr → PhysState → Prop} (high : HighPage (pageNumber la))
    (fresh : Fresh dir state role frame) (short : ∀ next, post none next)
    (found : ∀ table next role', HighStep dirs dir state role next role' →
      next.table dir (pageNumber la / 1024) = some table → Fresh dir next role' frame →
      post (some ⟨table, pageNumber la % 1024⟩) next) :
    CallEnds (getPte dir la true) post failed faulty state := by
  have index := pdx_high high
  have here : ∀ {table next role'}, HighStep dirs dir state role next role' →
      next.table dir (pageNumber la / 1024) = some table → Fresh dir next role' frame →
      CallEnds (pteAt dir la) post failed faulty next := by
    intro table next role' step isFound isFresh
    have inside : table < next.npage :=
      step.loose.paged.inside (by rw [step.loose.kernel (.table _) high.table isFound]; simp)
    rw [← index] at isFound
    rw [callEnds_pteAt isFound inside]
    rw [index] at isFound
    exact found table next role' step isFound isFresh
  rw [getPte, callEnds_bind, callEnds_readPte, callEnds_ite]
  refine ⟨fun absent => ?_, fun present => ?_⟩
  · have missing : state.table dir (pageNumber la / 1024) = none := by
      rw [← index]
      exact entryFrame_eq_none.mpr absent
    rw [if_pos rfl, callEnds_bind, callEnds_allocPage]
    refine ⟨fun page picked => ?_, fun _ => ⟨fun _ => stuck _, fun _ => short _⟩⟩
    have isFree := loose.paged.free_of_pick picked
    obtain ⟨taken, isNew⟩ := loose.take isFree
    have distinct : frame ≠ page := ne_of_role fresh.kernel isFree (by simp)
    have still : Fresh dir (state.take page) (update role page .kernel) frame :=
      fresh.congr (by rw [update_of_ne distinct, fresh.kernel]) rfl
    obtain ⟨added, isTable, others⟩ := taken.loose.addTable high.table missing isNew
    have inside : ppn (page2pa page) < ((state.take page).setRef page 1).npage := by
      rw [ppn_page2pa]
      exact taken.loose.paged.inside (by rw [isNew.kernel]; simp)
    simp only [newTable, callEnds_bind, setPageRef, callEnds_modify, callEnds_kaddr inside,
      ppn_page2pa, clearPage, writePte, index]
    exact here (taken.trans added) isTable (others distinct still)
  have isFound : state.table dir (pageNumber la / 1024) =
      some (ppn (state.entry dir (pdx la))) := by
    rw [← index]
    exact entryFrame_eq_some.mpr ⟨present, rfl⟩
  exact here loose.unchanged isFound fresh

variable {post : PUnit → PhysState → Prop}

theorem pageRemovePte_high (high : HighPage page)
    (found : state.table dir (page / 1024) = some table) (fresh : Fresh dir state role frame)
    (done : ∀ next role', HighStep dirs dir state role next role' →
      next.table dir (page / 1024) = some table → Fresh dir next role' frame →
      post () next) :
    CallEnds (pageRemovePte ⟨table, page % 1024⟩) post failed faulty state := by
  have isTable := loose.kernel (.table _) high.table found
  rw [pageRemovePte, callEnds_bind, callEnds_readPte, callEnds_ite]
  refine ⟨fun present => ?_, fun _ => done state role loose.unchanged found fresh⟩
  obtain ⟨old, points⟩ := frame_of_present present
  have maps : state.mapped dir page = some old := by
    rw [mapped, pte_of_table found, points]
  have isKernel := loose.kernel (.page _) high maps
  have distinct : frame ≠ old := by
    rintro rfl
    exact fresh.unused (.page _) high maps
  rw [callEnds_bind, callEnds_pte2page points (loose.paged.inside (by simp [isKernel]))]
  simp only [pageRefDec, callEnds_bind, callEnds_get, callEnds_set, callEnds_pure]
  -- the counter, then the entry; the frame is free last, when nothing maps it
  have counted := loose.setRef isKernel (state.ref old - 1)
  set middle := state.setRef old (state.ref old - 1)
  have foundMiddle : middle.table dir (page / 1024) = some table := found
  have cleared := counted.loose.setEntry high foundMiddle (by decide : 0 < 2 ^ 32)
    (fun points => by cases points)
  have tables : ∀ {index}, (middle.setEntry table (page % 1024) 0).table dir index =
      state.table dir index :=
    table_congr (mem_setEntry (ne_of_role loose.isDir isTable (by simp)))
  have unused : ∀ {other}, role other = .kernel →
      (∀ use : HighUse, use.High → use ≠ .page page → state.use dir use ≠ some other) →
      Fresh dir (middle.setEntry table (page % 1024) 0) role other := by
    refine fun kernel none => ⟨kernel, fun use isHigh isUsed => ?_⟩
    rw [counted.loose.use_setEntry high foundMiddle (by decide) isHigh] at isUsed
    split at isUsed
    · cases isUsed
    · next elsewhere => exact none use isHigh elsewhere isUsed
  have still : Fresh dir (middle.setEntry table (page % 1024) 0) role frame :=
    unused fresh.kernel fun use isHigh _ => fresh.unused use isHigh
  have isFresh : Fresh dir (middle.setEntry table (page % 1024) 0) role old :=
    unused isKernel fun use isHigh elsewhere isUsed =>
      elsewhere (loose.injective use (.page page) isHigh high isUsed maps)
  rw [callEnds_ite]
  refine ⟨fun _ => ?_, fun _ => ?_⟩
  · rw [callEnds_bind, freePage, callEnds_bind, callEnds_get, callEnds_bind, callEnds_ensure]
    refine ⟨fun _ => ?_, fun _ => stuck _⟩
    have given := cleared.loose.give isFresh
    refine done _ _ ((counted.trans cleared).trans given) (tables.trans found) ?_
    exact still.congr (by rw [update_of_ne distinct, fresh.kernel]) rfl
  · exact done _ _ (counted.trans cleared) (tables.trans found) still

/-- `page_insert` above user space of a frame that was just allocated. -/
theorem pageInsert_high (high : HighPage (pageNumber la)) (fits : perm < PGSIZE)
    (fresh : Fresh dir state role frame)
    (done : ∀ next role', HighStep dirs dir state role next role' →
      next.mapped dir (pageNumber la) = some frame → post () next)
    (short : ∀ code next, failed code next) :
    CallEnds (pageInsert dir frame la perm) post failed faulty state := by
  rw [pageInsert, callEnds_bind]
  apply getPte_high loose stuck high fresh fun _ => short _ _
  intro table next role' found isTable isFresh
  have counted := found.loose.setRef isFresh.kernel (next.ref frame + 1)
  have stillFresh : Fresh dir (next.setRef frame (next.ref frame + 1)) role' frame :=
    isFresh.congr isFresh.kernel rfl
  simp only [pageRefInc, callEnds_bind, callEnds_get, callEnds_set, callEnds_pure]
  set middle := next.setRef frame (next.ref frame + 1)
  have isTableMiddle : middle.table dir (pageNumber la / 1024) = some table := isTable
  have write : ∀ last role'', HighStep dirs dir middle role' last role'' →
      last.table dir (pageNumber la / 1024) = some table → Fresh dir last role'' frame →
      CallEnds (writePte ⟨table, pageNumber la % 1024⟩ (page2pa frame ||| PTE_P ||| perm)) post
        failed faulty last := by
    intro last role'' step isLast lastFresh
    have small : frame < 2 ^ 20 := (step.loose.paged.inside
      (by rw [lastFresh.kernel]; simp)).trans_le step.loose.paged.small
    have points := @entryFrame_present frame _ fits
    have fitsEntry := presentEntry_lt fits small
    have written := step.loose.setEntry high isLast fitsEntry (by
      intro other isOther
      obtain rfl : frame = other := Option.some.inj (points.symm.trans isOther)
      exact lastFresh)
    refine done _ _ (((found.trans counted).trans step).trans written) ?_
    have isUse : HighUse.High (.page (pageNumber la)) := high
    exact (step.loose.use_setEntry high isLast fitsEntry isUse).trans ((if_pos rfl).trans points)
  rw [releasePte, callEnds_bind, callEnds_readPte, callEnds_ite]
  refine ⟨fun present => ?_, fun _ =>
    write _ _ counted.loose.unchanged isTableMiddle stillFresh⟩
  obtain ⟨old, points⟩ := frame_of_present present
  have maps : middle.mapped dir (pageNumber la) = some old := by
    rw [mapped, pte_of_table isTableMiddle, points]
  have isKernel := counted.loose.kernel (.page _) high maps
  rw [callEnds_bind,
    callEnds_pte2page points (counted.loose.paged.inside (by simp [isKernel])), callEnds_ite]
  refine ⟨fun same => ?_, fun _ => ?_⟩
  · rw [same] at maps
    exact absurd maps (stillFresh.unused (.page _) high)
  · exact pageRemovePte_high counted.loose stuck high isTableMiddle stillFresh write

theorem pgdirAllocPage_high {post : Option Nat → PhysState → Prop} (high : HighPage (pageNumber la))
    (fits : perm < PGSIZE)
    (done : ∀ frame next role', HighStep dirs dir state role next role' →
      next.mapped dir (pageNumber la) = some frame → post (some frame) next)
    (short : ∀ next, post none next) :
    CallEnds (pgdirAllocPage dir la perm) post failed faulty state := by
  rw [pgdirAllocPage, callEnds_bind, callEnds_allocPage]
  refine ⟨fun frame picked => ?_, fun _ => ⟨fun _ => stuck _, fun _ => short _⟩⟩
  obtain ⟨taken, fresh⟩ := loose.take (loose.paged.free_of_pick picked)
  rw [callEnds_bind, callEnds_attempt]
  apply pageInsert_high taken.loose stuck high fits fresh
  · intro next role' inserted maps
    exact done frame next role' (taken.trans inserted) maps
  intro code next
  rw [callEnds_bind, freePage, callEnds_bind, callEnds_get, callEnds_bind, callEnds_ensure]
  exact ⟨fun _ => short _, fun _ => stuck _⟩

end Calls

/-! ## The routines on pages of user space -/

/-- `page_remove_pte` writes to one frame only. -/
theorem pageRemovePte_mem (ptep : PtePtr) : CallEnds (pageRemovePte ptep)
      (fun _ next => ∀ frame, frame ≠ ptep.table → next.mem frame = state.mem frame)
      (fun _ _ => False) (fun _ => True) state := by
  have written : ∀ {next : PhysState} (value : Nat), next.mem = state.mem →
      ∀ frame, frame ≠ ptep.table →
        (next.setEntry ptep.table ptep.index value).mem frame = state.mem frame := by
    intro next value same frame distinct
    rw [mem_setEntry distinct, same]
  simp only [pageRemovePte, pte2page, pa2page, pageRefDec, freePage, writePte, callEnds_bind,
    callEnds_readPte, callEnds_ite, callEnds_ensure, callEnds_get, callEnds_set, callEnds_modify,
    callEnds_pure, implies_true, and_true]
  exact fun _ _ _ => ⟨fun _ _ => written 0 rfl, fun _ => written 0 rfl⟩

theorem releasePte_mem (ptep : PtePtr) (page : Nat) : CallEnds (releasePte ptep page)
      (fun _ next => ∀ frame, frame ≠ ptep.table → next.mem frame = state.mem frame)
      (fun _ _ => False) (fun _ => True) state := by
  simp only [releasePte, pte2page, pa2page, pageRefDec, callEnds_bind, callEnds_readPte,
    callEnds_ite, callEnds_ensure, callEnds_get, callEnds_set, callEnds_pure, implies_true,
    and_true]
  exact fun _ _ _ => ⟨fun _ _ _ => rfl, fun _ => pageRemovePte_mem ptep⟩

theorem pgdirAllocPage_upper (paged : Paged state dirs role none)
    (isDir : role dir = .directory) (user : la < USERTOP) :
    CallEnds (pgdirAllocPage dir la perm)
      (fun _ next => ∀ index, USERTABLES ≤ index → next.entry dir index = state.entry dir index)
      (fun _ _ => True) (fun _ => True) state := by
  rw [pgdirAllocPage, callEnds_bind, callEnds_allocPage]
  refine ⟨fun frame picked => ?_, fun _ => ⟨fun _ => trivial, fun _ _ _ => rfl⟩⟩
  have isFree := paged.free_of_pick picked
  have taken := paged.take isFree
  have isDir' : update role frame .held dir = .directory :=
    (update_role_iff (by simp [isFree]) (by simp)).mpr isDir
  have given : ∀ {next : PhysState}, next.mem = state.mem →
      CallEnds (do freePage frame; pure none : Paging (Option Nat))
        (fun _ last => ∀ index, USERTABLES ≤ index → last.entry dir index = state.entry dir index)
        (fun _ _ => True) (fun _ => True) next := by
    intro next same
    simp only [freePage, callEnds_bind, callEnds_get, callEnds_ensure, callEnds_set,
      callEnds_pure, implies_true, and_true]
    exact fun _ _ _ => entry_congr (congrFun same dir)
  rw [callEnds_bind, callEnds_attempt, pageInsert, callEnds_bind]
  apply getPte_create taken isDir' user
  · exact fun _ _ => ⟨fun _ => trivial, fun _ => given rfl⟩
  intro table next role' found
  have isTable := found.isTable
  have stillDir : role' dir = .directory :=
    (found.paged taken isDir' (pdx_lt user)).isDir (paged.mem_dirs isDir)
  have notTable : dir ≠ table := ne_of_role stillDir isTable (by simp)
  have upper : ∀ index, USERTABLES ≤ index → next.entry dir index = state.entry dir index := by
    intro index above
    have position := pdx_lt user
    cases found with
    | old _ => rfl
    | new _ _ => exact entry_addTable_dir notTable (.inr (by omega))
  rw [callEnds_bind, pageRefInc, callEnds_bind, callEnds_get, callEnds_bind, callEnds_set,
    callEnds_pure, callEnds_bind]
  refine (releasePte_mem _ _).mono ?_ (fun _ _ never => never.elim) (fun _ _ => trivial)
  intro _ last same index above
  rw [entry_setEntry_of_ne (.inl notTable), ← upper index above]
  exact entry_congr (same dir notTable)

theorem Loose.below {area : Nat → Nat → Prop}
    (loose : Loose dirs dir state role) (step : PagedStep dirs area state role next role')
    (upper : ∀ index, USERTABLES ≤ index → next.entry dir index = state.entry dir index) :
    Loose dirs dir next role' := by
  have isDir : role' dir = .directory :=
    step.paged.isDir (loose.paged.mem_dirs loose.isDir)
  have table : ∀ {index}, HighTable index → next.table dir index = state.table dir index := by
    intro index high
    rw [PhysState.table, PhysState.table, upper index high.1]
  refine loose.congr step.paged isDir (Loose.use_eq table ?_) ?_
  · exact fun high found => step.touches.kernelMem (loose.kernel (.table _) high found)
  · exact fun use _ high found => (step.touches.kernel _).mpr (loose.kernel use high found)

/-! ## An address space that is being filled -/

/-- As `Mapping`, with pages above user space. -/
structure Filling (dirs : Finset Nat) (dir mm : Nat) (state : MmState) : Prop where
  pgdir : (state.mms mm).pgdir = some dir
  member : dir ∈ dirs
  loose : ∃ role, Loose dirs dir state.phys role
  own : OwnFrames state.phys dirs dir

section Filling

variable {mm : Nat} {pages : Nat → Prop} {state next : MmState}

section

variable (filling : Filling dirs dir mm state)

include filling

variable {phys : PhysState}

theorem Filling.mapping : Mapping dirs dir mm state := by
  obtain ⟨role, loose⟩ := filling.loose
  exact ⟨filling.pgdir, filling.member, ⟨role, loose.paged⟩, filling.own⟩

theorem Filling.congr (phys : next.phys = state.phys)
    (pgdir : (next.mms mm).pgdir = (state.mms mm).pgdir) : Filling dirs dir mm next where
  pgdir := pgdir.trans filling.pgdir
  member := filling.member
  loose := phys ▸ filling.loose
  own := phys ▸ filling.own

theorem Filling.above
    (loose : Loose dirs dir state.phys role) (step : HighStep dirs dir state.phys role phys role') :
    PageStep (Filling dirs dir mm) dir pages state (state.setPhys phys) where
  formed := ⟨filling.pgdir, filling.member, ⟨role', step.loose⟩,
    filling.own.congr filling.member step.pte⟩
  bytes {addr} user _ := by
    have inside := pageNumber_lt user
    change phys.userByte dir addr = state.phys.userByte dir addr
    rw [userByte, userByte, mapped_congr (step.pte filling.member inside)]
    cases maps : state.phys.mapped dir (pageNumber addr) with
    | none => rfl
    | some frame =>
      have isUser := loose.paged.layout.user_of_mapped loose.isDir inside maps
      rw [Option.map_some, Option.map_some, step.mem isUser]
  mms := rfl

theorem Filling.onPage (loose : Loose dirs dir state.phys role)
    (step : PagedStep dirs (OnPage dir page) state.phys role phys role')
    (upper : ∀ index, USERTABLES ≤ index → phys.entry dir index = state.phys.entry dir index)
    (own : OwnFrames phys dirs dir) :
    PageStep (Filling dirs dir mm) dir (· = page) state (state.setPhys phys) where
  formed := ⟨filling.pgdir, filling.member, ⟨role', loose.below step upper⟩, own⟩
  bytes user apart :=
    step.touches.userByte filling.member user fun near => apart near.2
  mms := rfl

/-- `pgdir_alloc_page`, anywhere below the kernel. -/
theorem Filling.pgdirAllocPage {post : Option Nat → MmState → Prop}
    {failed : Int → MmState → Prop} (below : pageNumber la < KERNPAGES) (fits : perm < PGSIZE)
    (done : ∀ frame next, PageStep (Filling dirs dir mm) dir (· = pageNumber la) state next →
      next.phys.mapped dir (pageNumber la) = some frame → post (some frame) next)
    (short : ∀ next, post none next) (stuck : ∀ fault, faulty fault) :
    CallEnds (onPhys (UcoreSmp.pgdirAllocPage dir la perm)) post failed faulty state := by
  obtain ⟨role, loose⟩ := filling.loose
  rw [callEnds_onPhys]
  by_cases user : la < USERTOP
  · have ends : CallEnds (UcoreSmp.pgdirAllocPage dir la perm)
        (fun result phys => ∀ frame, result = some frame → ∃ role',
          PagedStep dirs (OnPage dir (pageNumber la)) state.phys role phys role' ∧
          OwnFrames phys dirs dir ∧ phys.mapped dir (pageNumber la) = some frame)
        (fun _ _ => False) (fun _ => True) state.phys := by
      apply pgdirAllocPage_ends loose.paged loose.isDir user fits
      · rintro frame phys role' isFree step pte _ ⟨⟩
        have maps : phys.mapped dir (pageNumber la) = some frame := by
          rw [mapped, pte, entryFrame_present fits]
        exact ⟨role', step,
          filling.own.alloc loose.paged filling.member isFree step.touches maps, maps⟩
      · exact fun _ _ _ _ _ isSome => by cases isSome
      · exact fun _ => trivial
    refine (ends.and (pgdirAllocPage_upper loose.paged loose.isDir user)).mono ?_
      (fun _ _ never => never.1.elim) (fun _ _ => stuck _)
    rintro result phys ⟨provided, upper⟩
    cases result with
    | none => exact short _
    | some frame =>
      obtain ⟨role', step, own, maps⟩ := provided frame rfl
      exact done frame _ (filling.onPage loose step upper own) maps
  have high : HighPage (pageNumber la) := by
    refine ⟨?_, below⟩
    unfold USERTOP at user
    unfold pageNumber PGSIZE USERPAGES
    omega
  refine pgdirAllocPage_high loose stuck high fits ?_ fun _ => short _
  intro frame phys role' step maps
  exact done frame _ (filling.above loose step) maps

theorem Filling.write (below : page < KERNPAGES)
    (maps : state.phys.mapped dir page = some frame) (bytes : Bytes) :
    PageStep (Filling dirs dir mm) dir (· = page) state
        (state.setPhys (state.phys.setMem frame bytes)) ∧
      (state.phys.setMem frame bytes).mapped dir page = some frame ∧
      ∀ addr, addr < USERTOP → pageNumber addr = page →
        (state.phys.setMem frame bytes).userByte dir addr = some (bytes (addr % PGSIZE)) := by
  obtain ⟨role, loose⟩ := filling.loose
  by_cases inside : page < USERPAGES
  · obtain ⟨step, pte⟩ := loose.paged.writePage filling.own filling.member inside maps bytes
    have isUser := loose.paged.layout.user_of_mapped loose.isDir inside maps
    have upper : ∀ index, USERTABLES ≤ index →
        (state.phys.setMem frame bytes).entry dir index = state.phys.entry dir index :=
      fun _ _ => entry_congr (mem_setMem_of_ne (ne_of_role loose.isDir isUser (by simp)) _)
    have still : (state.phys.setMem frame bytes).mapped dir page = some frame := by
      rw [mapped_congr (pte filling.member inside), maps]
    refine ⟨filling.onPage loose step upper (filling.own.congr filling.member pte), still, ?_⟩
    rintro addr _ rfl
    rw [userByte, still, Option.map_some, mem_setMem_self]
  have high : HighPage page := ⟨Nat.le_of_not_lt inside, below⟩
  have isKernel := loose.kernel (.page _) high maps
  have noTable : ∀ {index}, HighTable index → state.phys.table dir index ≠ some frame := by
    intro index isHigh found
    cases loose.injective (.table _) (.page _) isHigh high found maps
  have step := loose.fill isKernel noTable bytes
  have still : (state.phys.setMem frame bytes).mapped dir page = some frame := by
    rw [← maps]
    have isUse : HighUse.High (.page page) := high
    refine Loose.use_eq (fun _ => ?_) (fun isHigh found => ?_) isUse
    · exact table_congr (mem_setMem_of_ne (ne_of_role loose.isDir isKernel (by simp)) _)
    apply mem_setMem_of_ne
    rintro rfl
    exact noTable isHigh found
  refine ⟨filling.above loose step, still, ?_⟩
  rintro addr user rfl
  exact absurd (pageNumber_lt user) inside

end

end Filling

end UcoreSmp
