import UcoreSmp.ExecStack

/-!
# User memory checks and user strings

`user_mem_check` looks at one address of each area and goes on behind it, with
wrapping arithmetic for the end of the range.  `copy_string` checks and copies a
string page by page.
-/

namespace UcoreSmp

variable {mm : MmStruct} {vma other : Vma} {write : Bool} {addr start stop len : Nat}

theorem VmasOrdered.unique {list : List Vma} (ordered : VmasOrdered list) (member : vma ∈ list)
    (member' : other ∈ list) (here : vma.Contains addr) (here' : other.Contains addr) :
    vma = other := by
  have : Std.Symm fun vma other : Vma => ¬ (vma.Contains addr ∧ other.Contains addr) :=
    ⟨fun _ _ apart both => apart both.symm⟩
  have apart : list.Pairwise fun vma other => ¬ (vma.Contains addr ∧ other.Contains addr) := by
    refine ordered.sorted.imp ?_
    rintro vma other before ⟨⟨-, high⟩, low, -⟩
    omega
  by_contra distinct
  exact apart.forall member member' distinct ⟨here, here'⟩

theorem lookup_contains (found : mm.lookup addr = some vma) : vma.Contains addr := by
  unfold MmStruct.lookup at found
  grind

def accessFlag (write : Bool) : Nat := if write then VM_WRITE else VM_READ

/-- The loop of `user_mem_check`, with the cache of `find_vma`. -/
def userMemCheckLoop (mm : MmStruct) (write : Bool) (start stop : Nat) : Bool × MmStruct :=
  if start < stop then
    match found : mm.lookup start with
    | none => (false, mm)
    | some vma =>
      let mm := { mm with mmapCache := some vma }
      if start < vma.vmStart then (false, mm)
      else if vma.vmFlags &&& accessFlag write = 0 then (false, mm)
      else if write ∧ vma.vmFlags &&& VM_STACK ≠ 0 ∧ start < word (vma.vmStart + PGSIZE) then
        (false, mm)
      else
        have := (lookup_contains found).2
        userMemCheckLoop mm write vma.vmEnd stop
  else (true, mm)
termination_by stop - start

/-- `user_mem_check` of a process: its `mm` is not null. -/
def userMemCheck (mm : MmStruct) (addr len : Nat) (write : Bool) : Bool × MmStruct :=
  if UserAccess addr (word (addr + len)) then userMemCheckLoop mm write addr (word (addr + len))
  else (false, mm)

/-- A byte of an area of the right kind, and for a write not of the first page of
a stack. -/
def MmStruct.Allows (mm : MmStruct) (write : Bool) (addr : Nat) : Prop :=
  (∃ vma ∈ mm.mmapList, vma.Contains addr ∧ vma.vmFlags &&& accessFlag write ≠ 0) ∧
    (write → ∀ vma ∈ mm.mmapList, vma.vmFlags &&& VM_STACK ≠ 0 →
      ¬ (vma.vmStart ≤ addr ∧ addr < vma.vmStart + PGSIZE))

/-- Sorted and disjoint areas that are made of pages. -/
structure MmStruct.Areas (mm : MmStruct) : Prop where
  ordered : VmasOrdered mm.mmapList
  cached : mm.Cached
  aligned : ∀ vma ∈ mm.mmapList, vma.vmStart % PGSIZE = 0 ∧ vma.vmEnd % PGSIZE = 0

namespace MmStruct.Areas

variable (areas : mm.Areas)

include areas

theorem allows_iff (found : mm.lookup addr = some vma) : mm.Allows write addr ↔
    vma.vmFlags &&& accessFlag write ≠ 0 ∧
      ¬ (write ∧ vma.vmFlags &&& VM_STACK ≠ 0 ∧ addr < vma.vmStart + PGSIZE) := by
  obtain ⟨member, contains⟩ := lookup_some areas.cached found
  constructor
  · rintro ⟨⟨other, member', contains', allowed⟩, clear⟩
    rw [areas.ordered.unique member member' contains contains']
    exact ⟨allowed, fun guarded =>
      clear guarded.1 other member' guarded.2.1 ⟨contains'.1, guarded.2.2⟩⟩
  rintro ⟨allowed, clear⟩
  refine ⟨⟨vma, member, contains, allowed⟩, fun isWrite other member' stack first => ?_⟩
  have aligned := areas.aligned other member'
  have nonempty := areas.ordered.nonempty other member'
  -- The first page of an area is in the area.
  have contains' : other.Contains addr := ⟨first.1, by unfold PGSIZE at *; omega⟩
  rw [← areas.ordered.unique member member' contains contains'] at stack first
  exact clear ⟨isWrite, stack, first.2⟩

theorem userMemCheckLoop_iff (user : write → ∀ vma ∈ mm.mmapList, vma.vmEnd ≤ USERTOP) :
    (userMemCheckLoop mm write start stop).1 = true ↔
      ∀ addr, start ≤ addr → addr < stop → mm.Allows write addr := by
  fun_induction userMemCheckLoop mm write start stop with
  | case1 mm start inside missing =>
    simp only [Bool.false_eq_true, false_iff]
    intro all
    obtain ⟨vma, member, contains, -⟩ := (all start le_rfl inside).1
    exact lookup_none missing vma member contains
  | case2 mm start inside vma found mm' before =>
    exact absurd (lookup_contains found).1 (Nat.not_le.mpr before)
  | case3 mm start inside vma found mm' after denied =>
    simp only [Bool.false_eq_true, false_iff]
    intro all
    exact ((areas.allows_iff found).mp (all start le_rfl inside)).1 denied
  | case4 mm start inside vma found mm' after allowed guarded =>
    simp only [Bool.false_eq_true, false_iff]
    intro all
    exact ((areas.allows_iff found).mp (all start le_rfl inside)).2 ⟨guarded.1, guarded.2.1,
      guarded.2.2.trans_le (Nat.mod_le _ _)⟩
  | case5 mm start inside vma found mm' after allowed clear _ induction =>
    obtain ⟨member, low, high⟩ := lookup_some areas.cached found
    have areas' : mm'.Areas := ⟨areas.1, fun other same => by cases same; exact member, areas.3⟩
    rw [induction areas' user]
    refine ⟨fun rest addr above below => ?_, fun all addr above => all addr (high.le.trans above)⟩
    by_cases behind : vma.vmEnd ≤ addr
    · exact rest addr behind below
    have cached : mm'.lookup addr = some vma := by
      simp [MmStruct.lookup, mm', Vma.Contains, low.trans above, not_le.mp behind]
    refine (areas'.allows_iff cached).mpr ⟨allowed, fun guarded => clear ⟨guarded.1, guarded.2.1,
      ?_⟩⟩
    have bound := user guarded.1 vma member
    rw [word, Nat.mod_eq_of_lt (by unfold USERTOP PGSIZE at *; omega)]
    omega
  | case6 mm start done => simp; omega

theorem userMemCheck_iff (user : write → ∀ vma ∈ mm.mmapList, vma.vmEnd ≤ USERTOP)
    (short : len < 2 ^ 32) : (userMemCheck mm addr len write).1 = true ↔
      UserAccess addr (addr + len) ∧ ∀ i < len, mm.Allows write (addr + i) := by
  have access : UserAccess addr (word (addr + len)) ↔ UserAccess addr (addr + len) := by
    unfold UserAccess word USERTOP
    omega
  unfold userMemCheck
  split
  · next isUser =>
    have top := (access.mp isUser).2.2
    rw [word, Nat.mod_eq_of_lt (by unfold USERTOP at top; omega), areas.userMemCheckLoop_iff user]
    refine ⟨fun all => ⟨access.mp isUser, fun i inside => all _ (by omega) (by omega)⟩, ?_⟩
    rintro ⟨-, all⟩ other above below
    rw [← Nat.add_sub_cancel' above]
    exact all _ (by omega)
  · next outside => simp [access.not.mp outside]

end MmStruct.Areas

/-- `user_mem_check` decides for every byte of the range. -/
theorem user_mem_check_exact
    (mm : { mm : MmStruct // mm.Areas ∧ ∀ vma ∈ mm.mmapList, UserAccess vma.vmStart vma.vmEnd })
    (addr len : UInt32) (write : Bool) :
    (userMemCheck mm.1 addr.toNat len.toNat write).1 = true ↔
      UserAccess addr.toNat (addr.toNat + len.toNat) ∧
        ∀ i < len.toNat, mm.1.Allows write (addr.toNat + i) :=
  mm.2.1.userMemCheck_iff (fun _ vma member => (mm.2.2 vma member).2.2) len.toNat_lt

/-- A page to read, and behind it two pages to read and write. -/
def twoAreas : { mm : MmStruct // mm.Areas ∧
    ∀ vma ∈ mm.mmapList, UserAccess vma.vmStart vma.vmEnd } where
  val := ⟨[⟨0, 0x800000, 0x801000, VM_READ⟩, ⟨1, 0x801000, 0x803000, VM_READ ||| VM_WRITE⟩], none,
    none, 2, 1⟩
  property := ⟨⟨⟨by decide, by decide⟩, nofun, by decide⟩, by decide⟩

theorem twoAreas_allows (low : 0x800000 ≤ addr) (high : addr < 0x803000) :
    twoAreas.1.Allows false addr := by
  refine ⟨?_, nofun⟩
  by_cases first : addr < 0x801000
  · exact ⟨_, List.mem_cons_self, ⟨low, first⟩, by decide⟩
  · exact ⟨_, List.mem_cons_of_mem _ List.mem_cons_self, ⟨Nat.le_of_not_lt first, high⟩, by decide⟩

/-- A range across both areas can be read, but not be written. -/
theorem user_mem_check_exact_two_areas :
    (userMemCheck twoAreas.1 0x800800 0x1000 false).1 = true ∧
      (userMemCheck twoAreas.1 0x800800 0x1000 true).1 = false := by
  constructor
  · refine (user_mem_check_exact twoAreas 0x800800 0x1000 false).mpr ⟨by decide, ?_⟩
    intro i inside
    have short : i < 0x1000 := inside
    change twoAreas.1.Allows false (0x800800 + i)
    exact twoAreas_allows (by omega) (by omega)
  · refine Bool.eq_false_iff.mpr fun accepted => ?_
    have all := ((user_mem_check_exact twoAreas 0x800800 0x1000 true).mp accepted).2
    obtain ⟨⟨vma, member, contains, writable⟩, -⟩ := all 0 (by decide)
    rcases List.mem_pair.mp member with rfl | rfl
    · exact writable (by decide)
    · exact absurd contains.1 (by decide)

/-! ## User strings -/

open Exec

def MmStruct.Readable (mm : MmStruct) (addr : Nat) : Prop :=
  USERBASE ≤ addr ∧ addr < USERTOP ∧ mm.Allows false addr

/-- A run of `copy_string`: its answer, the buffer, and the ranges of user memory
that it read. -/
structure CopyRun where
  copied : Bool
  dst : Bytes
  reads : List (Nat × Nat)

/-- The loop of `copy_string`, as `copyStringLoop`, with what it has done where it
returns 0.  What `user_mem_check` answers does not depend on the cache. -/
def copyStringRun (mm : MmStruct) (memory : Bytes) : Nat → Bytes → Nat → Nat → Nat → Nat → CopyRun
  | 0, dst, _, _, _, _ => ⟨false, dst, []⟩
  | fuel + 1, dst, done, src, maxn, part =>
    let part := min part maxn
    let bytes : Bytes := fun i => memory (word (src + i))
    if (userMemCheck mm src part false).1 then
      let alen := strnlen bytes part
      if alen < part then ⟨true, dst.blit done bytes 0 (alen + 1), [(src, alen + 1)]⟩
      else if part = maxn then ⟨false, dst, [(src, part)]⟩
      else
        let rest := copyStringRun mm memory fuel (dst.blit done bytes 0 part) (done + part)
          (word (src + part)) (maxn - part) PGSIZE
        { rest with reads := (src, part) :: rest.reads }
    else ⟨false, dst, []⟩

/-- The loop without the record of its reads is the one that `exec` uses. -/
theorem copyStringLoop_eq_run {memory : Bytes} (fuel : Nat) (dst : Bytes)
    (done src maxn part : Nat) :
    copyStringLoop ⟨memory, fun addr len => (userMemCheck mm addr len false).1⟩ fuel dst done src
      maxn part =
        if (copyStringRun mm memory fuel dst done src maxn part).copied then
          some (copyStringRun mm memory fuel dst done src maxn part).dst
        else none := by
  induction fuel generalizing dst done src maxn part with
  | zero => rfl
  | succ fuel induction =>
    simp only [copyStringLoop, copyStringRun, induction]
    split_ifs <;> simp_all

/-- A readable string of `k` characters. -/
def MmStruct.StringAt (mm : MmStruct) (memory : Bytes) (src k : Nat) : Prop :=
  EndsAt (fun i => memory (src + i)) k ∧ ∀ i ≤ k, mm.Readable (src + i)

structure CopyRun.Exact (mm : MmStruct) (memory dst : Bytes) (src maxn : Nat) (run : CopyRun) :
    Prop where
  copied : run.copied = true ↔ ∃ k < maxn, mm.StringAt memory src k
  content : ∀ k < maxn, mm.StringAt memory src k → run.dst = dst.blit 0 memory src (k + 1)
  reads : ∀ range ∈ run.reads, ∀ i < range.2, mm.Readable (range.1 + i)
  outside : ∀ i ≥ maxn, run.dst i = dst i

namespace MmStruct.Areas

variable (areas : mm.Areas) {memory : Bytes} {src done maxn : Nat}

include areas

theorem check_iff (some : 0 < len) (short : len < 2 ^ 32) :
    (userMemCheck mm addr len false).1 = true ↔ ∀ i < len, mm.Readable (addr + i) := by
  rw [areas.userMemCheck_iff (by simp) short]
  constructor
  · rintro ⟨⟨low, -, high⟩, all⟩ i inside
    exact ⟨by omega, by omega, all i inside⟩
  intro all
  have first := (all 0 some).1
  have last := (all (len - 1) (by omega)).2.1
  exact ⟨⟨first, by omega, by omega⟩, fun i inside => (all i inside).2.2⟩

theorem readable_page (readable : mm.Readable start) (same : start / PGSIZE = stop / PGSIZE) :
    mm.Readable stop := by
  obtain ⟨low, high, ⟨vma, member, ⟨first, last⟩, allowed⟩, -⟩ := readable
  have := areas.aligned vma member
  refine ⟨?_, ?_, ⟨vma, member, ⟨?_, ?_⟩, allowed⟩, nofun⟩ <;>
    unfold PGSIZE USERBASE USERTOP at * <;> omega

/-- The loop after `done` bytes that are readable and not zero. -/
theorem copyStringRun_exact {fuel : Nat} (dst : Bytes) (part : Nat) (enough : maxn - done < fuel)
    (inside : done ≤ maxn) (passed : ∀ i < done, memory (src + i) ≠ 0)
    (readable : ∀ i < done, mm.Readable (src + i)) (some : 0 < part)
    (page : (src + done + part) % PGSIZE = 0) (short : part ≤ PGSIZE) :
    (copyStringRun mm memory fuel (dst.blit 0 memory src done) done (src + done) (maxn - done)
      part).Exact mm memory dst src maxn := by
  induction fuel generalizing done part with
  | zero => omega
  | succ fuel induction =>
    rw [copyStringRun]
    generalize isMin : min part (maxn - done) = bytes
    have isShort : bytes < 2 ^ 32 := by unfold PGSIZE at short; omega
    have outside : ∀ len ≤ maxn, ∀ i ≥ maxn, dst.blit 0 memory src len i = dst i :=
      fun len inside i away => Bytes.blit_outside _ (by omega)
    dsimp only
    split
    · next checked =>
      have positive : 0 < bytes := by
        have := ((areas.userMemCheck_iff (by simp) isShort).mp checked).1.2.1
        omega
      have next := (areas.check_iff positive isShort).mp checked
      have top := (next (bytes - 1) (by omega)).2.1
      have same : ∀ i < bytes, memory (word (src + done + i)) = memory (src + (done + i)) := by
        intro i inside
        rw [word, Nat.mod_eq_of_lt (by unfold USERTOP at top; omega), Nat.add_assoc]
      have copies : ∀ len ≤ bytes, (dst.blit 0 memory src done).blit done
          (fun i => memory (word (src + done + i))) 0 len = dst.blit 0 memory src (done + len) := by
        intro len inside
        rw [← Bytes.blit_append, Nat.zero_add]
        refine Bytes.blit_congr fun j below => ?_
        rw [Nat.zero_add, same j (by omega), Nat.add_assoc]
      obtain ⟨before, bound, last⟩ :=
        strnlenLoop_spec (fun i => memory (word (src + done + i))) bytes 0 (by simp)
      rw [← strnlen] at before bound last
      generalize strnlen (fun i => memory (word (src + done + i))) bytes = alen at *
      have passed : ∀ i < done + alen, memory (src + i) ≠ 0 := by
        intro i inside
        by_cases early : i < done
        · exact passed i early
        · rw [← Nat.add_sub_cancel' (not_lt.mp early), ← same _ (by omega)]
          exact before _ (by omega)
      have readable : ∀ i < done + bytes, mm.Readable (src + i) := by
        intro i inside
        by_cases early : i < done
        · exact readable i early
        · rw [← Nat.add_sub_cancel' (not_lt.mp early), ← Nat.add_assoc]
          exact next _ (by omega)
      have starts : ∀ k, mm.StringAt memory src k → done + alen ≤ k := fun k string =>
        not_lt.mp fun early => passed k early string.1.last
      split
      · next ends =>
        have string : mm.StringAt memory src (done + alen) :=
          ⟨⟨passed, same alen ends ▸ last (by omega)⟩, fun i inside => readable i (by omega)⟩
        rw [copies _ ends]
        refine ⟨by simpa using ⟨_, by omega, string⟩, fun k inside other => ?_,
          by simpa using fun i inside => next i (by omega), outside _ (by omega)⟩
        have most := not_lt.mp fun less => other.1.before _ less string.1.last
        rw [le_antisymm most (starts k other), Nat.add_assoc]
      next whole =>
      split
      · next all =>
        have none : ∀ k < maxn, ¬ mm.StringAt memory src k := by
          intro k inside string
          have := starts k string
          omega
        exact ⟨by simpa using none, fun k inside string => absurd string (none k inside),
          by simpa using next, outside _ (by omega)⟩
      next more =>
      obtain rfl : bytes = part := by omega
      have rest := @induction (done + bytes) PGSIZE (by omega) (by omega)
        (fun i inside => passed i (by omega)) readable (by decide)
        (by unfold PGSIZE at *; omega) le_rfl
      rw [copies _ le_rfl, word, Nat.mod_eq_of_lt (by unfold USERTOP at top; omega),
        Nat.add_assoc, Nat.sub_sub]
      exact ⟨rest.1, rest.2, by simpa using ⟨next, fun a b => rest.reads (a, b)⟩, rest.4⟩
    next denied =>
    have none : ∀ k < maxn, ¬ mm.StringAt memory src k := by
      intro k inside string
      have := not_lt.mp fun early => passed k early string.1.last
      refine denied ((areas.check_iff (by omega) isShort).mpr fun i below => ?_)
      exact areas.readable_page (string.2 done this) (by unfold PGSIZE at *; omega)
    exact ⟨by simpa using none, fun k inside string => absurd string (none k inside), by simp,
      outside _ inside⟩

end MmStruct.Areas

/-- `copy_string` finds and copies exactly the readable strings that fit. -/
theorem copy_string_exact (mm : { mm : MmStruct // mm.Areas }) (memory dst : Bytes) (src : UInt32)
    (maxn : Nat) :
    (copyStringRun mm.1 memory (maxn + 1) dst 0 src.toNat maxn
      (wordSub (rounddown (word (src.toNat + PGSIZE)) PGSIZE) src.toNat)).Exact mm.1 memory dst
      src.toNat maxn := by
  have small := src.toNat_lt
  have looped := mm.2.copyStringRun_exact dst
    (wordSub (rounddown (word (src.toNat + PGSIZE)) PGSIZE) src.toNat) (Nat.lt_succ_self maxn)
    (Nat.zero_le maxn) (by simp : ∀ i < 0, memory (src.toNat + i) ≠ 0) (by simp)
  rw [Bytes.blit_zero] at looped
  apply looped <;> unfold wordSub rounddown word PGSIZE <;> omega

/-- A string of two characters, one in each of the areas. -/
theorem copy_string_exact_two_areas :
    let memory : Bytes := fun addr => if addr = 0x800FFF ∨ addr = 0x801000 then 97 else 0
    let run := copyStringRun twoAreas.1 memory 9 (fun _ => 0) 0 0x800FFF 8 1
    run.copied = true ∧ run.dst = Bytes.blit (fun _ => 0) 0 memory 0x800FFF 3 := by
  intro memory run
  have copy := copy_string_exact ⟨twoAreas.1, twoAreas.2.1⟩ memory (fun _ => 0) 0x800FFF 8
  have string : twoAreas.1.StringAt memory 0x800FFF 2 := by
    refine ⟨⟨by decide, rfl⟩, fun i small => ?_⟩
    exact ⟨by unfold USERBASE; omega, by unfold USERTOP; omega,
      twoAreas_allows (by omega) (by omega)⟩
  exact ⟨copy.copied.mpr ⟨2, by decide, string⟩, copy.content 2 (by decide) string⟩

end UcoreSmp
