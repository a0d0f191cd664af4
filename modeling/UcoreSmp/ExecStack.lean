import UcoreSmp.AddressSpaceRun
import UcoreSmp.LoadSegments

/-!
# The stack of a new program

`load_icode` writes the arguments, the pointers to them and their number below
the top of the user stack.  The writes go to user addresses, so a page that is
missing is provided on the way; what has been written before stays.
-/

namespace UcoreSmp

open List

namespace Exec

/-- The address space after writes to these addresses: every other byte that was
there before is still there. -/
structure StoreStep (dirs : Finset Nat) (dir mm : Nat) (addrs : Nat → Prop)
    (state next : MmState) : Prop where
  mapping : Mapping dirs dir mm next
  keeps : ∀ {addr byte}, addr < USERTOP → ¬ addrs addr →
    state.phys.userByte dir addr = some byte → next.phys.userByte dir addr = some byte
  list : (next.mms mm).mmapList = (state.mms mm).mmapList

/-- The bytes are in user memory from the address on. -/
def Holds (phys : PhysState) (dir addr : Nat) (bytes : Bytes) (len : Nat) : Prop :=
  ∀ j < len, phys.userByte dir (addr + j) = some (bytes j)

/-! ## Strings -/

/-- The string has this many bytes before its end. -/
structure EndsAt (string : Bytes) (len : Nat) : Prop where
  before : ∀ j < len, string j ≠ 0
  last : string len = 0

/-- What the loop of `strnlen` has passed is not zero, and it stops at a zero. -/
theorem strnlenLoop_spec (string : Bytes) (left cnt : Nat) (passed : ∀ j < cnt, string j ≠ 0) :
    (∀ j < strnlenLoop string left cnt, string j ≠ 0) ∧ strnlenLoop string left cnt ≤ cnt + left ∧
      (strnlenLoop string left cnt < cnt + left → string (strnlenLoop string left cnt) = 0) := by
  induction left generalizing cnt with
  | zero => exact ⟨passed, le_rfl, fun short => absurd short (lt_irrefl _)⟩
  | succ left induction =>
    rw [strnlenLoop]
    by_cases stop : string cnt = 0
    · rw [if_neg (not_not.mpr stop)]
      exact ⟨passed, by omega, fun _ => stop⟩
    rw [if_pos stop]
    have passed' : ∀ j < cnt + 1, string j ≠ 0 := by
      intro j inside
      by_cases here : j = cnt
      · rw [here]
        exact stop
      · exact passed j (by omega)
    obtain ⟨before, bound, last⟩ := induction (cnt + 1) passed'
    exact ⟨before, by omega, fun short => last (by omega)⟩

variable {len i maxn dir mm dst src : Nat} {dirs : Finset Nat} {post : PUnit → MmState → Prop}
  {failed : Int → MmState → Prop} {faulty : ExecFault → Prop} {state middle next : MmState}
  {kargv : List Bytes} {addrs : Nat → Prop}

theorem EndsAt.strnlen_eq {string : Bytes} (ends : EndsAt string len)
    (short : len < maxn) : strnlen string maxn = len := by
  obtain ⟨before, bound, last⟩ := strnlenLoop_spec string maxn 0 (by simp)
  rcases lt_trichotomy (strnlenLoop string maxn 0) len with less | same | more
  · exact absurd (last (by omega)) (ends.before _ less)
  · exact same
  · exact absurd ends.last (before len more)

variable (stuck : ∀ fault : ExecFault, ¬ fault.Astray → faulty fault)

section Stores

variable {addrs' : Nat → Prop}

theorem StoreStep.refl (mapping : Mapping dirs dir mm state) :
    StoreStep dirs dir mm addrs state state :=
  ⟨mapping, fun _ _ there => there, rfl⟩

theorem StoreStep.trans (first : StoreStep dirs dir mm addrs state middle)
    (second : StoreStep dirs dir mm addrs middle next) :
    StoreStep dirs dir mm addrs state next where
  mapping := second.mapping
  keeps user apart there := second.keeps user apart (first.keeps user apart there)
  list := second.list.trans first.list

theorem StoreStep.mono (step : StoreStep dirs dir mm addrs state next)
    (wider : ∀ addr, addrs addr → addrs' addr) : StoreStep dirs dir mm addrs' state next where
  mapping := step.mapping
  keeps user apart := step.keeps user fun near => apart (wider _ near)
  list := step.list

variable {addr : Nat} {bytes : Bytes}

theorem StoreStep.holds (step : StoreStep dirs dir mm addrs state next)
    (user : addr + len ≤ USERTOP) (apart : ∀ j < len, ¬ addrs (addr + j))
    (there : Holds state.phys dir addr bytes len) : Holds next.phys dir addr bytes len :=
  fun j inside => step.keeps (by omega) (apart j inside) (there j inside)

/-- These bytes have been written from the address on. -/
structure Stored (dirs : Finset Nat) (dir mm addr : Nat) (bytes : Bytes) (len : Nat)
    (state next : MmState) : Prop where
  step : StoreStep dirs dir mm (fun a => addr ≤ a ∧ a < addr + len) state next
  holds : Holds next.phys dir addr bytes len

theorem Stored.nil (mapping : Mapping dirs dir mm state) (addr : Nat)
    (bytes : Bytes) : Stored dirs dir mm addr bytes 0 state state :=
  ⟨StoreStep.refl mapping, fun _ impossible => absurd impossible (Nat.not_lt_zero _)⟩

theorem Stored.snoc
    (stored : Stored dirs dir mm addr bytes len state middle) (user : addr + len < USERTOP)
    (step : StoreStep dirs dir mm (· = addr + len) middle next)
    (byte : next.phys.userByte dir (addr + len) = some (bytes len)) :
    Stored dirs dir mm addr bytes (len + 1) state next where
  step := by
    apply (stored.step.mono _).trans (step.mono _)
    · intro a range
      omega
    · intro a same
      omega
  holds := by
    intro j inside
    by_cases last : j = len
    · rw [last]
      exact byte
    · have earlier : j < len := by omega
      exact step.keeps (by omega) (by omega) (stored.holds j earlier)

theorem Mapping.poke (mapping : Mapping dirs dir mm state) {frame : Nat}
    (user : addr < USERTOP) (found : writable state dir addr = some frame) (byte : UInt8) :
    StoreStep dirs dir mm (· = addr) state (poke state frame (addr % PGSIZE) byte) ∧
      (poke state frame (addr % PGSIZE) byte).phys.userByte dir addr = some byte := by
  have inside := pageNumber_lt user
  have maps : state.phys.mapped dir (pageNumber addr) = some frame := by
    unfold writable at found
    split at found
    · cases found
    · exact found
  obtain ⟨step, bytes⟩ := mapping.write inside maps
    (Function.update (state.phys.mem frame) (addr % PGSIZE) byte)
  refine ⟨⟨step.formed, ?_, rfl⟩, ?_⟩
  · intro other value isUser distinct there
    by_cases near : pageNumber other = pageNumber addr
    · have place : other % PGSIZE ≠ addr % PGSIZE := by
        unfold pageNumber at near
        intro same
        exact distinct (by rw [← Nat.div_add_mod other PGSIZE, near, same, Nat.div_add_mod])
      rw [PhysState.userByte, near, maps, Option.map_some] at there
      refine (bytes other near).trans ?_
      rw [Function.update_of_ne place]
      exact there
    · exact (step.bytes isUser near).trans there
  · refine (bytes addr rfl).trans ?_
    rw [Function.update_self]

include stuck

theorem storeByte_ends (mapping : Mapping dirs dir mm state) (user : addr < USERTOP)
    (byte : UInt8) (done : ∀ next, StoreStep dirs dir mm (· = addr) state next →
      next.phys.userByte dir addr = some byte → post () next) :
    CallEnds (storeByte mm dir addr byte) post failed faulty state := by
  rw [storeByte, callEnds_bind, callEnds_get]
  cases found : writable state dir addr with
  | some frame =>
    obtain ⟨step, stored⟩ := Mapping.poke mapping user found byte
    exact done _ step stored
  | none =>
    rw [callEnds_bind, callEnds_attempt, callEnds_onMm]
    apply mapping.doPgfault user
    · intro next provided list bytes unmapped
      rw [callEnds_bind, callEnds_get]
      cases found : writable next dir addr with
      | none => exact stuck _ id
      | some frame =>
        obtain ⟨step, stored⟩ := Mapping.poke provided user found byte
        refine done _ ⟨step.mapping, ?_, ?_⟩ stored
        · intro other value isUser distinct there
          apply step.keeps isUser distinct
          rw [bytes isUser]
          · exact there
          -- there was nothing on the page of a fault
          intro near
          rw [PhysState.userByte, near, unmapped] at there
          cases there
        · exact step.list.trans list
    · intro code next
      exact stuck _ id
    · intro fault
      exact stuck _ id

theorem storeWord_ends (mapping : Mapping dirs dir mm state) {value : Nat}
    (user : addr + 4 ≤ USERTOP)
    (done : ∀ next, Stored dirs dir mm addr (leBytes value) 4 state next → post () next) :
    CallEnds (storeWord mm dir addr value) post failed faulty state := by
  have nothing := Stored.nil mapping addr (leBytes value)
  rw [storeWord, callEnds_bind]
  apply storeByte_ends stuck mapping (by omega)
  intro s₁ step₁ stored₁
  have first := nothing.snoc (by omega) step₁ stored₁
  rw [callEnds_bind]
  apply storeByte_ends stuck step₁.mapping (by omega)
  intro s₂ step₂ stored₂
  have second := first.snoc (by omega) step₂ stored₂
  rw [callEnds_bind]
  apply storeByte_ends stuck step₂.mapping (by omega)
  intro s₃ step₃ stored₃
  have third := second.snoc (by omega) step₃ stored₃
  apply storeByte_ends stuck step₃.mapping (by omega)
  intro s₄ step₄ stored₄
  exact done _ (third.snoc (by omega) step₄ stored₄)

/-- `strcpy`, with the bytes before `i` copied. -/
theorem strcpy_ends {src : Bytes} (ends : EndsAt src len) (user : dst + len < USERTOP)
    (done : ∀ next, Stored dirs dir mm dst src (len + 1) state next → post () next)
    (fuel i : Nat) (inside : i ≤ len) (copied : Stored dirs dir mm dst src i state middle) :
    CallEnds (strcpy mm dir dst src fuel i) post failed faulty middle := by
  induction fuel generalizing i middle with
  | zero => exact stuck _ id
  | succ fuel induction =>
    have address : word (dst + i) = dst + i := by
      unfold word
      unfold USERTOP at user
      omega
    rw [strcpy, callEnds_bind, address]
    apply storeByte_ends stuck copied.step.mapping (by omega)
    intro next step byte
    have more := copied.snoc (by omega) step byte
    rw [callEnds_ite]
    constructor
    · intro goesOn
      have notLast : i ≠ len := by
        rintro rfl
        exact goesOn ends.last
      exact induction (i + 1) (by omega) more
    intro stops
    have isLast : i = len := by
      by_contra notLast
      exact stops (ends.before i (by omega))
    subst isLast
    exact done _ more

end Stores

/-! ## The arguments -/

def ArgOk (arg : Bytes) : Prop := ∃ len ≤ EXEC_MAX_ARG_LEN, EndsAt arg len

def argOffset (kargv : List Bytes) (i : Nat) : Nat := ((kargv.take i).map argSize).sum

variable (small : ∀ arg ∈ kargv, ArgOk arg) (few : kargv.length ≤ EXEC_MAX_ARG_NUM)

section Layout

variable {arg : Bytes}

theorem ArgOk.size (ok : ArgOk arg) :
    argSize arg ≤ EXEC_MAX_ARG_LEN + 1 ∧ EndsAt arg (argSize arg - 1) := by
  obtain ⟨len, bound, ends⟩ := ok
  have size : argSize arg = len + 1 := by
    rw [argSize, ends.strnlen_eq (by omega)]
  rw [size]
  exact ⟨by omega, ends⟩

theorem argOffset_succ (isArg : kargv[i]? = some arg) :
    argOffset kargv (i + 1) = argOffset kargv i + argSize arg := by
  simp [argOffset, take_add_one, isArg]

theorem argOffset_le {j : Nat} (ordered : i ≤ j) : argOffset kargv i ≤ argOffset kargv j := by
  have split := take_add (l := kargv) (i := i) (j := j - i)
  rw [Nat.add_sub_cancel' ordered] at split
  rw [argOffset, argOffset, split, map_append, sum_append]
  exact Nat.le_add_right _ _

theorem argOffset_length_le (small : ∀ arg ∈ kargv, ArgOk arg) (i : Nat) :
    argOffset kargv i ≤ kargv.length * (EXEC_MAX_ARG_LEN + 1) := by
  have whole : argOffset kargv i ≤ argOffset kargv (i + kargv.length) :=
    argOffset_le (Nat.le_add_right _ _)
  refine whole.trans ?_
  rw [argOffset, take_of_length_le (by omega)]
  have bound := sum_le_card_nsmul (kargv.map argSize) (EXEC_MAX_ARG_LEN + 1) (by
    intro size member
    obtain ⟨arg, isArg, rfl⟩ := mem_map.mp member
    exact (small arg isArg).size.1)
  simpa using bound

theorem argvSize_eq (small : argOffset kargv kargv.length < 2 ^ 32) :
    argvSize kargv = argOffset kargv kargv.length := by
  have sums : ∀ (list : List Bytes) (start : Nat), start + (list.map argSize).sum < 2 ^ 32 →
      list.foldl (fun size arg => word (size + argSize arg)) start =
        start + (list.map argSize).sum := by
    intro list
    induction list with
    | nil => simp
    | cons arg rest induction =>
      intro start bound
      rw [map_cons, sum_cons] at bound
      rw [foldl_cons, map_cons, sum_cons]
      have fits : word (start + argSize arg) = start + argSize arg := Nat.mod_eq_of_lt (by omega)
      rw [fits, induction _ (by omega), Nat.add_assoc]
  rw [argOffset, take_length] at small ⊢
  have total := sums kargv 0 (by omega)
  rw [Nat.zero_add] at total
  exact total

/-- The places of the strings, the pointers and the count. -/
structure StackPlan (kargv : List Bytes) : Prop where
  strings : stringsBase kargv + argOffset kargv kargv.length < USTACKTOP
  pointers : uargvBase kargv + 4 * kargv.length = stringsBase kargv
  count : stackPointer kargv + 4 = uargvBase kargv
  bottom : USTACKTOP - USTACKSIZE ≤ stackPointer kargv

include small few in
theorem stackPlan : StackPlan kargv := by
  have total := argOffset_length_le small kargv.length
  unfold EXEC_MAX_ARG_NUM at few
  unfold EXEC_MAX_ARG_LEN at total
  have size := argvSize_eq (by omega : argOffset kargv kargv.length < 2 ^ 32)
  constructor
  all_goals
    simp only [stackPointer, uargvBase, stringsBase, size, wordSub, word, USTACKTOP, USTACKSIZE,
      USERTOP, PGSIZE]
    omega

end Layout

/-- The `i`-th argument and the pointer to it are in place. -/
structure Placed (phys : PhysState) (dir : Nat) (kargv : List Bytes) (i : Nat) : Prop where
  pointer : Holds phys dir (uargvBase kargv + 4 * i)
    (leBytes (stringsBase kargv + argOffset kargv i)) 4
  string : ∀ arg, kargv[i]? = some arg →
    Holds phys dir (stringsBase kargv + argOffset kargv i) arg (argSize arg)

section Arguments

theorem Placed.later
    (placed : Placed state.phys dir kargv i) (inside : i < kargv.length) (plan : StackPlan kargv)
    (step : StoreStep dirs dir mm addrs state next)
    (pointers : ∀ a, uargvBase kargv + 4 * i ≤ a → a < uargvBase kargv + 4 * i + 4 → ¬ addrs a)
    (strings : ∀ a, stringsBase kargv + argOffset kargv i ≤ a →
      a < stringsBase kargv + argOffset kargv (i + 1) → ¬ addrs a) :
    Placed next.phys dir kargv i := by
  have top : USTACKTOP = USERTOP := rfl
  have bottom := plan.strings
  have pointerEnd := plan.pointers
  have offset : argOffset kargv (i + 1) ≤ argOffset kargv kargv.length :=
    argOffset_le (by omega)
  constructor
  · exact step.holds (by omega) (fun j bound => pointers _ (by omega) (by omega)) placed.pointer
  intro arg isArg
  have next := argOffset_succ isArg
  exact step.holds (by omega) (fun j bound => strings _ (by omega) (by omega))
    (placed.string _ isArg)

include stuck small few

theorem pushArgs_ends (before rest : List Bytes) (all : kargv = before ++ rest)
    (step : StoreStep dirs dir mm (fun a => uargvBase kargv ≤ a ∧ a < USTACKTOP) state middle)
    (placed : ∀ i < before.length, Placed middle.phys dir kargv i)
    (done : ∀ next, StoreStep dirs dir mm
        (fun a => uargvBase kargv ≤ a ∧ a < USTACKTOP) state next →
      (∀ i < kargv.length, Placed next.phys dir kargv i) → post () next) :
    CallEnds (pushArgs mm dir (stringsBase kargv) (uargvBase kargv) rest before.length
      (argOffset kargv before.length)) post failed faulty middle := by
  induction rest generalizing before middle with
  | nil =>
    rw [append_nil] at all
    subst all
    exact done _ step placed
  | cons arg rest induction =>
    have plan := stackPlan small few
    have top : USTACKTOP = USERTOP := rfl
    have limit : USERTOP < 2 ^ 32 := by decide
    have strings := plan.strings
    have pointers := plan.pointers
    have here : kargv[before.length]? = some arg := by simp [all]
    have inside : before.length < kargv.length := by simp [all]
    have offset := argOffset_succ here
    have within : argOffset kargv (before.length + 1) ≤ argOffset kargv kargv.length :=
      argOffset_le (by omega)
    obtain ⟨size, ends⟩ := (small arg (by simp [all])).size
    have dst : word (stringsBase kargv + argOffset kargv before.length) =
        stringsBase kargv + argOffset kargv before.length := Nat.mod_eq_of_lt (by omega)
    have slot : word (uargvBase kargv + 4 * before.length) =
        uargvBase kargv + 4 * before.length := Nat.mod_eq_of_lt (by omega)
    have following : word (argOffset kargv before.length + argSize arg) =
        argOffset kargv (before ++ [arg]).length := by
      rw [length_append, length_singleton, offset]
      exact Nat.mod_eq_of_lt (by omega)
    rw [pushArgs, callEnds_bind, dst]
    apply strcpy_ends stuck ends (by omega) _ _ 0 (by omega) (Stored.nil step.mapping _ _)
    intro s₁ copied
    rw [callEnds_bind, slot]
    apply storeWord_ends stuck copied.step.mapping (by omega)
    intro s₂ pointed
    have count : before.length + 1 = (before ++ [arg]).length := by simp
    rw [following, count]
    apply induction (before ++ [arg]) (by simp [all])
    · apply (step.trans (copied.step.mono _)).trans (pointed.step.mono _)
      · intro a range
        omega
      · intro a range
        omega
    intro i isDone
    by_cases earlier : i < before.length
    · have order : argOffset kargv (i + 1) ≤ argOffset kargv before.length :=
        argOffset_le (by omega)
      refine ((placed i earlier).later (by omega) plan copied.step ?_ ?_).later (by omega) plan
        pointed.step ?_ ?_
      all_goals
        intro a _ _
        omega
    obtain rfl : i = before.length := by omega
    refine ⟨pointed.holds, fun other isOther => ?_⟩
    cases here.symm.trans isOther
    exact pointed.step.holds (by omega) (fun j bound => by omega) copied.holds

theorem pushArgv_ends (mapping : Mapping dirs dir mm state) (done : ∀ next, StoreStep dirs dir mm
        (fun a => stackPointer kargv ≤ a ∧ a < USTACKTOP) state next →
      Holds next.phys dir (stackPointer kargv) (leBytes kargv.length) 4 →
      (∀ i < kargv.length, Placed next.phys dir kargv i) → post () next) :
    CallEnds (pushArgv mm dir kargv) post failed faulty state := by
  have plan := stackPlan small few
  have top : USTACKTOP = USERTOP := rfl
  have strings := plan.strings
  have pointers := plan.pointers
  have count := plan.count
  rw [pushArgv, callEnds_bind]
  apply pushArgs_ends stuck small few [] kargv rfl (StoreStep.refl mapping) (by simp)
  intro s₁ step placed
  apply storeWord_ends stuck step.mapping (by omega)
  intro s₂ counted
  refine done _ ?_ counted.holds fun i inside => ?_
  · apply (step.mono _).trans (counted.step.mono _)
    · intro a range
      omega
    · intro a range
      omega
  refine (placed i inside).later inside plan counted.step ?_ ?_
  all_goals
    intro a _ _
    omega

end Arguments

/-! ## What `copy_kargv` accepts -/

variable {user : UserSource}

variable {buffer result : Bytes} {argv : Nat} {buffers : List (Option Bytes)}

theorem copyStringLoop_ok {fuel part : Nat}
    (passed : ∀ j < dst, buffer j ≠ 0) (room : dst + maxn = EXEC_MAX_ARG_LEN + 1)
    (accepted : copyStringLoop user fuel buffer dst src maxn part = some result) :
    ArgOk result := by
  induction fuel generalizing buffer dst src maxn part with
  | zero => cases accepted
  | succ fuel induction =>
    rw [copyStringLoop] at accepted
    dsimp only at accepted
    split at accepted
    · have spec := strnlenLoop_spec (fun i => user.bytes (word (src + i))) (min part maxn) 0
        (by simp)
      obtain ⟨before, bound, last⟩ := spec
      rw [Nat.zero_add] at bound last
      have passed' : ∀ {size j}, strnlen (fun i => user.bytes (word (src + i))) (min part maxn) ≤
            size → j < dst + strnlen (fun i => user.bytes (word (src + i))) (min part maxn) →
          buffer.blit dst (fun i => user.bytes (word (src + i))) 0 size j ≠ 0 := by
        unfold strnlen
        intro size j whole inside
        by_cases copied : dst ≤ j
        · rw [Bytes.blit_inside _ (by omega), Nat.zero_add]
          exact before _ (by omega)
        · rw [Bytes.blit_outside _ (by omega)]
          exact passed j (by omega)
      split at accepted
      · next short =>
        cases accepted
        refine ⟨dst + strnlen (fun i => user.bytes (word (src + i))) (min part maxn), by omega,
          fun j => passed' (Nat.le_succ _), ?_⟩
        · rw [Bytes.blit_inside _ (by omega), Nat.zero_add, Nat.add_sub_cancel_left]
          exact last short
      next long =>
      split at accepted
      · cases accepted
      · refine induction (fun j inside => passed' bound ?_) (by omega) accepted
        omega
    · cases accepted

theorem copyString_ok (accepted : copyString user buffer src (EXEC_MAX_ARG_LEN + 1) = some result) :
    ArgOk result :=
  copyStringLoop_ok (fun j impossible => absurd impossible (Nat.not_lt_zero j)) (Nat.zero_add _)
    accepted

theorem copyArgs_ok (accepted : copyArgs user argv buffers i = .ok kargv) :
    kargv.length = buffers.length ∧ ∀ arg ∈ kargv, ArgOk arg := by
  induction buffers generalizing i kargv with
  | nil =>
    cases accepted
    simp
  | cons buffer rest induction =>
    cases buffer with
    | none => cases accepted
    | some buffer =>
      rw [copyArgs] at accepted
      cases copied : copyString user buffer (user.argv argv i) (EXEC_MAX_ARG_LEN + 1) with
      | none => simp [copied] at accepted
      | some arg =>
        cases others : copyArgs user argv rest (i + 1) with
        | error code => simp [copied, others] at accepted
        | ok tail =>
          simp only [copied, others, Except.ok.injEq] at accepted
          subst accepted
          obtain ⟨length, ok⟩ := induction others
          refine ⟨by simp [length], ?_⟩
          intro other member
          rcases mem_cons.mp member with rfl | inTail
          · exact copyString_ok copied
          · exact ok other inTail

theorem copyKargv_ok (accepted : copyKargv user argv buffers = .ok kargv) :
    kargv.length = buffers.length ∧ ∀ arg ∈ kargv, ArgOk arg := by
  unfold copyKargv at accepted
  split at accepted
  · exact copyArgs_ok accepted
  · cases accepted

/-! ## The whole stack -/

theorem stackStart : rounddown (USTACKTOP - USTACKSIZE) PGSIZE = USTACKTOP - USTACKSIZE := by
  decide

theorem stackLast : roundup (word (USTACKTOP - USTACKSIZE + USTACKSIZE)) PGSIZE = USTACKTOP := by
  decide

section

include stuck

theorem stackPages_ends {pages : Nat} (mapping : Mapping dirs dir mm state) (few : pages ≤ 256)
    (done : ∀ next, PageStep (Mapping dirs dir mm) dir (USERPAGES - pages ≤ ·) state next →
      post () next) : CallEnds (stackPages dir pages) post failed faulty state := by
  induction pages generalizing post with
  | zero => exact done _ (PageStep.refl mapping)
  | succ pages induction =>
    have number : pageNumber (USTACKTOP - (pages + 1) * PGSIZE) = USERPAGES - (pages + 1) := by
      simp only [pageNumber, USTACKTOP, USERTOP, PGSIZE, USERPAGES]
      omega
    have user : USTACKTOP - (pages + 1) * PGSIZE < USERTOP := by
      simp only [USTACKTOP, USERTOP, PGSIZE]
      omega
    rw [stackPages, callEnds_bind]
    apply induction (by omega)
    intro middle first
    rw [callEnds_bind, callEnds_onMm]
    apply first.formed.pgdirAllocPage user (by decide)
    · intro frame next step _
      refine done _ ((first.mono ?_).trans (step.mono ?_))
      · intro p near
        omega
      · rintro p rfl
        omega
    · intro next _
      exact stuck _ id
    · exact stuck _ id

/-- `argc`, the pointers and the strings lie on the stack, one after the other. -/
structure ArgvOnStack (phys : PhysState) (dir esp : Nat) (kargv : List Bytes)
    (pointer : Nat → Nat) : Prop where
  argc : Holds phys dir esp (leBytes kargv.length) 4
  pointers : ∀ i < kargv.length, Holds phys dir (esp + 4 + 4 * i) (leBytes (pointer i)) 4
  strings : ∀ i arg, kargv[i]? = some arg →
    ∃ len, EndsAt arg len ∧ Holds phys dir (pointer i) arg (len + 1) ∧
      esp + 4 + 4 * kargv.length ≤ pointer i ∧ pointer i + (len + 1) ≤ USTACKTOP ∧
      ∀ j < kargv.length, i < j → pointer i + (len + 1) ≤ pointer j
  bottom : USTACKTOP - USTACKSIZE ≤ esp

omit stuck in
include small few in
theorem argvOnStack {phys : PhysState}
    (counted : Holds phys dir (stackPointer kargv) (leBytes kargv.length) 4)
    (placed : ∀ i < kargv.length, Placed phys dir kargv i) :
    ArgvOnStack phys dir (stackPointer kargv) kargv
      fun i => stringsBase kargv + argOffset kargv i := by
  have plan := stackPlan small few
  have strings := plan.strings
  have pointers := plan.pointers
  have count := plan.count
  refine ⟨counted, fun i inside => ?_, fun i arg isArg => ?_, plan.bottom⟩
  · rw [count]
    exact (placed i inside).pointer
  obtain ⟨inside, isHere⟩ := List.getElem?_eq_some_iff.mp isArg
  have member : arg ∈ kargv := isHere ▸ getElem_mem inside
  have size : argSize arg - 1 + 1 = argSize arg := Nat.succ_pred_eq_of_pos (Nat.succ_pos _)
  have offset := argOffset_succ isArg
  have whole : argOffset kargv (i + 1) ≤ argOffset kargv kargv.length := argOffset_le (by omega)
  refine ⟨argSize arg - 1, (small arg member).size.2, ?_, by omega, by omega, ?_⟩
  · exact (placed i inside).string arg isArg
  intro j _ later
  have order : argOffset kargv (i + 1) ≤ argOffset kargv j := argOffset_le later
  omega

include small few in
theorem buildStack_ends {post : Nat → MmState → Prop} (mapping : Mapping dirs dir mm state)
    (done : ∀ next, Mapping dirs dir mm next → (next.mms mm).mmapList = (state.mms mm).mmapList →
      (∀ {addr byte}, addr < USTACKTOP - USTACKSIZE →
        state.phys.userByte dir addr = some byte → next.phys.userByte dir addr = some byte) →
      ArgvOnStack next.phys dir (stackPointer kargv) kargv
        (fun i => stringsBase kargv + argOffset kargv i) → post (stackPointer kargv) next) :
    CallEnds (buildStack mm dir kargv) post failed faulty state := by
  have plan := stackPlan small few
  have bottom := plan.bottom
  have top : USTACKTOP = USERTOP := rfl
  rw [buildStack, callEnds_bind]
  apply stackPages_ends stuck mapping (by decide)
  intro paged pages
  rw [callEnds_bind, callEnds_modify, callEnds_bind]
  have counted : Mapping dirs dir mm (paged.addCount mm 1) := by
    refine pages.formed.congr rfl ?_
    rw [MmState.addCount, mms_setMm]
  apply pushArgv_ends stuck small few counted
  intro next step argc placed
  refine done next step.mapping ?_ ?_ (argvOnStack small few argc placed)
  · rw [step.list, MmState.addCount, mms_setMm, pages.mms]
  intro addr byte low there
  apply step.keeps (by omega) (by omega)
  refine (pages.bytes (by omega) ?_).trans there
  simp only [USTACKTOP, USTACKSIZE, USERTOP, PGSIZE] at low
  simp only [pageNumber, USERPAGES, PGSIZE]
  omega

variable {file : ExecFile}

/-- `load_icode` returns only after its segments and its stack. -/
theorem loadIcode_ends {post : Program → MmState → Prop} (fails : ∀ code next, failed code next)
    (image : ∀ mm dir fresh, newSpace state = .ok (.ok mm, fresh) →
      (fresh.mms mm).pgdir = some dir →
      CallEnds (loadImage file mm dir) (fun _ areas => CallEnds (buildStack mm dir kargv)
          (fun esp next => post ⟨mm, esp, file.elfhdr.eEntry⟩ next) failed faulty areas)
        (fun _ _ => True) faulty fresh) :
    CallEnds (loadIcode file kargv) post failed faulty state := by
  have onlyFails : ∀ {α : Type} (call : MmCall PUnit) (code : Int) (next : MmState)
      {post : α → MmState → Prop},
      CallEnds (do onMm call; throw code : ExecCall α) post failed faulty next := by
    intro α call code next post
    rw [callEnds_bind, callEnds_onMm]
    exact CallEnds.of_forall (fun _ _ => fails _ _) (fun _ _ => fails _ _)
      fun _ => stuck _ id
  rw [loadIcode, callEnds_ite]
  refine ⟨fun _ => stuck _ id, fun _ => ?_⟩
  rw [callEnds_bind, callEnds_onMm]
  refine CallEnds.of_result ?_ (fun _ _ => fails _ _) (fun _ => stuck _ id)
  intro mm fresh made
  rw [callEnds_bind, callEnds_onMm]
  cases pgdir : (fresh.mms mm).pgdir with
  | none =>
    simp only [pgdirOf, callEnds_bind, callEnds_get, pgdir, callEnds_panicWith]
    exact stuck _ id
  | some dir =>
    rw [callEnds_pgdirOf pgdir, callEnds_bind, callEnds_attempt]
    apply loadIcodeRead_ends
    · intro _ _
      rw [callEnds_ite]
      refine ⟨fun _ => onlyFails _ _ _, fun _ => ?_⟩
      rw [callEnds_bind, callEnds_attempt]
      refine (image mm dir fresh made pgdir).mono ?_ (fun _ _ _ => onlyFails _ _ _)
        (fun _ faulted => faulted)
      intro _ areas built
      rw [callEnds_bind]
      exact built
    · exact fun _ => onlyFails _ _ _

/-- The segment ends below an address. -/
structure SegmentBelow (ph : Proghdr) (limit : Nat) : Prop where
  sizes : ph.pFilesz ≤ ph.pMemsz
  limit : ph.pVa + ph.pMemsz ≤ limit

/-- The part of `load_icode` that makes the areas: the segments are loaded, and the
area of the stack is above them. -/
theorem loadImage_ends (fails : ∀ code next, failed code next)
    (wild : ¬ file.Plain → faulty .outsidePage) (loading : Loading dirs dir mm state)
    (done : ∀ vma next, Loading dirs dir mm next → vma ∈ (next.mms mm).mmapList →
      vma.vmStart = USTACKTOP - USTACKSIZE → vma.vmEnd = USTACKTOP →
      (file.Plain → ∀ phnum < file.elfhdr.ePhnum, (file.header phnum).Loads →
        SegmentLoaded file (file.header phnum) dir next.phys ∧
          SegmentBelow (file.header phnum) (USTACKTOP - USTACKSIZE)) → post () next) :
    CallEnds (loadImage file mm dir) post failed faulty state := by
  rw [loadImage, callEnds_bind]
  apply loadProghdrs_ends fails stuck wild (Nat.zero_add _) loading
  · exact fun _ phnum early => absurd early (Nat.not_lt_zero phnum)
  intro segments loaded settled
  rw [mapStack, callEnds_onMm]
  apply loaded.mmMap fails fun _ => stuck _ id
  intro vma next mapped phys added isStart isLast
  rw [stackStart] at isStart
  rw [stackLast] at isLast
  refine done vma next mapped ((added.mem vma).mpr (.inl rfl)) isStart isLast ?_
  intro plain phnum inside loads
  obtain ⟨sizes, segment⟩ := settled plain phnum inside loads
  refine ⟨phys ▸ segment.loaded, sizes, ?_⟩
  obtain ⟨own, isOwn, first, last⟩ := segment.area
  have user := segment.user
  have positive := loads.2
  have top : USTACKTOP = USERTOP := rfl
  rcases added.fits own isOwn with above | below <;> omega

end

/-- `exec` with any arguments that `copy_kargv` accepts: when `load_icode` succeeds,
the stack pointer of the new program is at `argc`, the pointers follow, and each of
them points to a copy of its argument, all of them apart from each other, and
inside the area of the stack. -/
theorem exec_stack {user : UserSource} {argv : Nat} {buffers : List (Option Bytes)}
    (accepted : copyKargv user argv buffers = .ok kargv) (few : buffers.length ≤ EXEC_MAX_ARG_NUM)
    {state next : MmState} {program : Program} (memory : MemoryOk state)
    (loaded : loadIcode file kargv state = .ok (.ok program, next)) :
    kargv.length = buffers.length ∧ ∃ dir pointer, (next.mms program.mm).pgdir = some dir ∧
      (∃ vma ∈ (next.mms program.mm).mmapList,
        vma.vmStart = USTACKTOP - USTACKSIZE ∧ vma.vmEnd = USTACKTOP) ∧
      ArgvOnStack next.phys dir program.tfEsp kargv pointer := by
  obtain ⟨length, small⟩ := copyKargv_ok accepted
  rw [← length] at few
  refine ⟨length, ?_⟩
  have ends : CallEnds (loadIcode file kargv) (fun program next => ∃ dir pointer,
      (next.mms program.mm).pgdir = some dir ∧
      (∃ vma ∈ (next.mms program.mm).mmapList,
        vma.vmStart = USTACKTOP - USTACKSIZE ∧ vma.vmEnd = USTACKTOP) ∧
      ArgvOnStack next.phys dir program.tfEsp kargv pointer)
      (fun _ _ => True) (fun _ => True) state := by
    refine loadIcode_ends (fun _ _ => trivial) (fun _ _ => trivial) ?_
    intro mm dir fresh made pgdir
    obtain ⟨dirs, loading⟩ := (newSpace_loading memory).result made dir pgdir
    apply loadImage_ends (fun _ _ => trivial) (fun _ _ => trivial) (fun _ => trivial) loading
    intro vma areas mapped isVma isStart isLast _
    apply buildStack_ends (fun _ _ => trivial) small few mapped.filling.mapping
    intro next still list _ onStack
    refine ⟨dir, _, still.pgdir, ⟨vma, ?_, isStart, isLast⟩, onStack⟩
    rw [list]
    exact isVma
  exact ends.result loaded

/-! ## A program with one segment and one argument -/

/-- A file with one segment, whose file part has two bytes at most. -/
@[irreducible] def tinyProgram (va filesz memsz : Nat) : ExecFile where
  size := 86
  bytes := [(0, ELF_MAGIC), (28, sizeofElfhdr), (44, 1), (52, ELF_PT_LOAD), (56, 84), (60, va),
      (68, filesz), (72, memsz), (76, ELF_PF_R ||| ELF_PF_W), (84, 0xBBAA)].foldl
    (fun bytes field => bytes.blit field.1 (leBytes field.2) 0 4) fun _ => 0
  refuses := fun _ _ => none

/-- A user address space with `argv` at 0, the string `"a"` at 8 and `"bc"` at 16. -/
def twoArguments : UserSource where
  bytes := [(0, 8), (4, 16), (8, 0x61), (16, 0x6362)].foldl
    (fun bytes field => bytes.blit field.1 (leBytes field.2) 0 4) fun _ => 0
  readable := fun _ _ => true

def twoKargv : List Bytes :=
  match copyKargv twoArguments 0 [some fun _ => 0, some fun _ => 0] with
  | .ok kargv => kargv
  | .error _ => []

/-- Memory with the kernel's directory only, and room for a small program. -/
def roomyState : MmState where
  phys := bareMemory 1 ([1, 2, 3, 4, 5, 6, 7].map some)
  heap := ∅
  heapPicks := [some 0, some 1, some 2]
  mms := fun _ => ⟨[], none, none, 0, 0⟩
  bootPgdir := 0

theorem roomyState_ok : MemoryOk roomyState := by
  have memory := bareMemory_kept Nat.one_pos (by decide) ([1, 2, 3, 4, 5, 6, 7].map some)
  refine ⟨⟨_, _, memory.paged, rfl, ?_⟩, ?_⟩
  · exact fun index _ => table_bareMemory 1 _ 0 index
  · exact fun index _ => table_bareMemory 1 _ 0 index

def execs (file : ExecFile) (kargv : List Bytes) (state : MmState) : Bool :=
  match loadIcode file kargv state with
  | .ok (.ok _, _) => true
  | _ => false

theorem exists_of_execs (succeeds : execs file kargv state = true) :
    ∃ program next, loadIcode file kargv state = .ok (.ok program, next) := by
  unfold execs at succeeds
  split at succeeds
  · exact ⟨_, _, by assumption⟩
  · cases succeeds

theorem exec_stack_two_arguments :
    ∃ program next, loadIcode (tinyProgram 0xAFC00000 2 4) twoKargv roomyState =
        .ok (.ok program, next) ∧
      twoKargv.length = 2 ∧ ∃ dir pointer, (next.mms program.mm).pgdir = some dir ∧
        (∃ vma ∈ (next.mms program.mm).mmapList,
          vma.vmStart = USTACKTOP - USTACKSIZE ∧ vma.vmEnd = USTACKTOP) ∧
        ArgvOnStack next.phys dir program.tfEsp twoKargv pointer := by
  have accepted : copyKargv twoArguments 0 [some fun _ => 0, some fun _ => 0] = .ok twoKargv := rfl
  have succeeds : execs (tinyProgram 0xAFC00000 2 4) twoKargv roomyState = true := by
    decide +kernel
  obtain ⟨program, next, loaded⟩ := exists_of_execs succeeds
  exact ⟨program, next, loaded, exec_stack accepted (by decide) roomyState_ok loaded⟩

end Exec

end UcoreSmp
