import Mathlib.Data.BitVec
import UcoreSmp.ErrorCodes
import UcoreSmp.KernelCall

/-!
# The bitmap of free blocks

`kern/fs/sfs/bitmap.c`.  A set bit is a free index.  The functions work on whole
words; `isFree` is the set they represent.
-/

namespace UcoreSmp

open Function

def WORD_BITS : Nat := 32

structure Bitmap where
  nbits : Nat
  nwords : Nat
  map : Nat → BitVec 32

inductive BitmapFault where
  | size
  | lastWord
  | overbits
  | scan
  | index
  | alreadyFree
  deriving DecidableEq

abbrev BitmapM := Call BitmapFault Bitmap

def bitMask (offset : Nat) : BitVec 32 := 1#32 <<< offset

/-- The loop of `bitmap_create` that marks the bits from `overbits` on in use. -/
def clearOverbits (word : BitVec 32) (overbits : Nat) : Nat → BitVec 32
  | 0 => word
  | left + 1 => clearOverbits (word ^^^ bitMask overbits) (overbits + 1) left

/-- `bitmap_create`; the two flags say whether the calls of `kmalloc` succeed,
and `none` is the null pointer. -/
def bitmapCreate (nbits : Nat) (gotBitmap gotMap : Bool) : Except BitmapFault (Option Bitmap) :=
  if ¬ (nbits ≠ 0 ∧ nbits < (nbits + WORD_BITS) % 2 ^ 32) then .error .size
  else if gotBitmap = false ∨ gotMap = false then .ok none
  else
    let nwords := (nbits + WORD_BITS - 1) / WORD_BITS
    let map : Nat → BitVec 32 := fun ix => if ix < nwords then BitVec.allOnes 32 else 0
    if nbits ≠ nwords * WORD_BITS then
      let ix := nwords - 1
      let overbits := nbits - ix * WORD_BITS
      if nbits / WORD_BITS ≠ ix then .error .lastWord
      else if ¬ (0 < overbits ∧ overbits < WORD_BITS) then .error .overbits
      else .ok (some
        { nbits, nwords
          map := update map ix (clearOverbits (map ix) overbits (WORD_BITS - overbits)) })
    else .ok (some { nbits, nwords, map })

/-- The inner loop of `bitmap_alloc`: the first set bit from `offset` on. -/
def scanWord (word : BitVec 32) (offset : Nat) : Nat → Option Nat
  | 0 => none
  | left + 1 =>
    if word &&& bitMask offset ≠ 0 then some offset
    else scanWord word (offset + 1) left

/-- The outer loop of `bitmap_alloc` from word `ix` on. -/
def scanMap (ix : Nat) : Nat → BitmapM Nat
  | 0 => throw (-E_NO_MEM)
  | left + 1 => do
    let bitmap ← get
    if bitmap.map ix ≠ 0 then
      match scanWord (bitmap.map ix) 0 WORD_BITS with
      | none => panicWith BitmapFault.scan
      | some offset => do
        set { bitmap with
          map := update bitmap.map ix (bitmap.map ix ^^^ bitMask offset) }
        pure (ix * WORD_BITS + offset)
    else scanMap (ix + 1) left

def bitmapAlloc : BitmapM Nat := do
  let bitmap ← get
  scanMap 0 bitmap.nwords

def bitmapTranslate (index : Nat) : BitmapM (Nat × BitVec 32) := do
  let bitmap ← get
  ensure (index < bitmap.nbits) .index
  pure (index / WORD_BITS, bitMask (index % WORD_BITS))

def bitmapTest (index : Nat) : BitmapM Bool := do
  let (ix, mask) ← bitmapTranslate index
  let bitmap ← get
  pure (bitmap.map ix &&& mask ≠ 0)

def bitmapFree (index : Nat) : BitmapM PUnit := do
  let (ix, mask) ← bitmapTranslate index
  let bitmap ← get
  ensure (bitmap.map ix &&& mask = 0) .alreadyFree
  set { bitmap with map := update bitmap.map ix (bitmap.map ix ||| mask) }

namespace Bitmap

def isFree (bitmap : Bitmap) (index : Nat) : Bool :=
  (bitmap.map (index / WORD_BITS)).getLsbD (index % WORD_BITS)

/-- The words cover the bits, and no bit outside is free. -/
structure Ok (bitmap : Bitmap) : Prop where
  nwords : bitmap.nwords = (bitmap.nbits + WORD_BITS - 1) / WORD_BITS
  inside : ∀ index, bitmap.isFree index = true → index < bitmap.nbits

def take (bitmap : Bitmap) (index : Nat) : Bitmap :=
  { bitmap with
    map := update bitmap.map (index / WORD_BITS)
      (bitmap.map (index / WORD_BITS) ^^^ bitMask (index % WORD_BITS)) }

def give (bitmap : Bitmap) (index : Nat) : Bitmap :=
  { bitmap with
    map := update bitmap.map (index / WORD_BITS)
      (bitmap.map (index / WORD_BITS) ||| bitMask (index % WORD_BITS)) }

end Bitmap

variable {offset : Nat} {word : BitVec 32} {bitmap : Bitmap}

theorem bitMask_getLsbD {bit : Nat} (inside : offset < WORD_BITS) :
    (bitMask offset).getLsbD bit = decide (offset = bit) := by
  unfold WORD_BITS at inside
  rw [bitMask, ← BitVec.twoPow_eq, BitVec.getLsbD_twoPow]
  simp [inside]

theorem and_bitMask (inside : offset < WORD_BITS) :
    word &&& bitMask offset = 0 ↔ word.getLsbD offset = false := by
  constructor
  · intro zero
    have bit := congrArg (fun masked => masked.getLsbD offset) zero
    simpa [bitMask_getLsbD inside] using bit
  intro zero
  apply BitVec.eq_of_getLsbD_eq
  intro bit _
  rw [BitVec.getLsbD_and, bitMask_getLsbD inside]
  by_cases same : offset = bit
  · subst same
    simp [zero]
  · simp [same]

theorem scanWord_clear {left bit : Nat} (within : offset + left ≤ WORD_BITS) (low : offset ≤ bit)
    (high : bit < (scanWord word offset left).getD (offset + left)) : word.getLsbD bit = false := by
  induction left generalizing offset with
  | zero =>
    simp only [scanWord, Option.getD_none] at high
    omega
  | succ left ih =>
    rw [scanWord] at high
    by_cases clear : word &&& bitMask offset = 0
    · rw [if_neg (not_not.mpr clear), ← Nat.add_assoc, Nat.add_right_comm] at high
      by_cases first : offset = bit
      · subst first
        exact (and_bitMask (by omega)).mp clear
      · exact ih (by omega) (by omega) high
    · rw [if_pos clear, Option.getD_some] at high
      omega

theorem scanWord_some {left found : Nat} (within : offset + left ≤ WORD_BITS)
    (scanned : scanWord word offset left = some found) :
    found < offset + left ∧ word.getLsbD found = true := by
  induction left generalizing offset with
  | zero => cases scanned
  | succ left ih =>
    rw [scanWord] at scanned
    split at scanned
    case isTrue isSet =>
      cases scanned
      exact ⟨by omega, by simpa using mt (and_bitMask (by omega)).mpr isSet⟩
    case isFalse =>
      have ⟨bound, isSet⟩ := ih (by omega) scanned
      exact ⟨by omega, isSet⟩

namespace Bitmap

variable {index other : Nat}

theorem index_lt : index % WORD_BITS < WORD_BITS :=
  Nat.mod_lt _ (by decide)

theorem isFree_update (word : BitVec 32) :
    ({ bitmap with map := update bitmap.map (index / WORD_BITS) word } : Bitmap).isFree other =
      if other / WORD_BITS = index / WORD_BITS then word.getLsbD (other % WORD_BITS)
      else bitmap.isFree other := by
  unfold isFree
  by_cases same : other / WORD_BITS = index / WORD_BITS
  · simp [same]
  · simp [same]

@[simp]
theorem isFree_take (free : bitmap.isFree index = true) :
    (bitmap.take index).isFree other = (bitmap.isFree other && decide (other ≠ index)) := by
  rw [take, isFree_update]
  by_cases same : other / WORD_BITS = index / WORD_BITS
  · rw [if_pos same, BitVec.getLsbD_xor, bitMask_getLsbD index_lt]
    by_cases isIndex : other = index
    · subst isIndex
      have isSet : (bitmap.map (other / WORD_BITS)).getLsbD (other % WORD_BITS) = true := free
      simp [isSet]
    have apart : index % WORD_BITS ≠ other % WORD_BITS := by
      unfold WORD_BITS at same ⊢
      omega
    simp [isIndex, apart, isFree, same]
  rw [if_neg same]
  have isOther : other ≠ index := by
    intro isIndex
    exact same (by rw [isIndex])
  simp [isOther]

@[simp]
theorem isFree_give :
    (bitmap.give index).isFree other = (bitmap.isFree other || decide (other = index)) := by
  rw [give, isFree_update]
  by_cases same : other / WORD_BITS = index / WORD_BITS
  · rw [if_pos same, BitVec.getLsbD_or, bitMask_getLsbD index_lt]
    have bits : (index % WORD_BITS = other % WORD_BITS) ↔ other = index := by
      unfold WORD_BITS at same ⊢
      omega
    simp [bits, isFree, same]
  rw [if_neg same]
  have isOther : other ≠ index := by
    intro isIndex
    exact same (by rw [isIndex])
  simp [isOther]

theorem Ok.take (ok : bitmap.Ok) (free : bitmap.isFree index = true) : (bitmap.take index).Ok where
  nwords := ok.nwords
  inside other isFree := by
    exact ok.inside other (by simp_all)

theorem Ok.give (ok : bitmap.Ok) (inside : index < bitmap.nbits) : (bitmap.give index).Ok where
  nwords := ok.nwords
  inside other isFree := by
    rw [isFree_give] at isFree
    rcases Bool.or_eq_true_iff.mp isFree with old | new
    · exact ok.inside other old
    · rw [of_decide_eq_true new]
      exact inside

end Bitmap

section Specs

variable {index : Nat} {failed : Int → Bitmap → Prop} {faulty : BitmapFault → Prop}

theorem scanMap_ends {ix left : Nat} (below : ∀ j, j < ix * WORD_BITS → bitmap.isFree j = false) :
    CallEnds (scanMap ix left) (fun found next => bitmap.isFree found = true ∧
        (∀ j, j < found → bitmap.isFree j = false) ∧ next = bitmap.take found)
      (fun code next => code = -E_NO_MEM ∧ next = bitmap ∧
        ∀ j, j < (ix + left) * WORD_BITS → bitmap.isFree j = false)
      (fun _ => False) bitmap := by
  induction left generalizing ix with
  | zero =>
    exact ⟨rfl, rfl, below⟩
  | succ left ih =>
    simp only [scanMap, callEnds_bind, callEnds_get, callEnds_ite]
    constructor
    · intro nonzero
      cases scanned : scanWord (bitmap.map ix) 0 WORD_BITS with
      | none =>
        -- a word without set bits is zero
        apply nonzero
        apply BitVec.eq_of_getLsbD_eq
        intro bit inside
        simp [scanWord_clear (Nat.zero_add _).le (Nat.zero_le bit) (by rwa [scanned])]
      | some offset =>
        obtain ⟨inside, isSet⟩ := scanWord_some (Nat.zero_add _).le scanned
        have word : (ix * WORD_BITS + offset) / WORD_BITS = ix := by
          unfold WORD_BITS at inside ⊢
          omega
        have bit : (ix * WORD_BITS + offset) % WORD_BITS = offset := by
          unfold WORD_BITS at inside ⊢
          omega
        refine ⟨?_, ?_, ?_⟩
        · rw [Bitmap.isFree, word, bit]
          exact isSet
        · intro j low
          by_cases early : j < ix * WORD_BITS
          · exact below j early
          have sameWord : j / WORD_BITS = ix := by
            unfold WORD_BITS at inside early low ⊢
            omega
          rw [Bitmap.isFree, sameWord]
          apply scanWord_clear (Nat.zero_add _).le (Nat.zero_le _)
          rw [scanned, Option.getD_some]
          unfold WORD_BITS at inside early low ⊢
          omega
        · rw [Bitmap.take, word, bit]
    intro zero
    rw [not_not] at zero
    apply (ih _).weaken
    · intro found next outcome
      exact outcome
    · intro code next outcome
      rwa [show ix + 1 + left = ix + (left + 1) by omega] at outcome
    intro j low
    by_cases early : j < ix * WORD_BITS
    · exact below j early
    have sameWord : j / WORD_BITS = ix := by
      unfold WORD_BITS at early low ⊢
      omega
    rw [Bitmap.isFree, sameWord, zero]
    simp

/-- `bitmap_alloc` takes the smallest free index, or fails if there is none. -/
theorem bitmapAlloc_ends (ok : bitmap.Ok) : CallEnds bitmapAlloc
      (fun found next => bitmap.isFree found = true ∧
        (∀ j, j < found → bitmap.isFree j = false) ∧ next = bitmap.take found)
      (fun code next => code = -E_NO_MEM ∧ next = bitmap ∧ ∀ j, bitmap.isFree j = false)
      (fun _ => False) bitmap := by
  apply (scanMap_ends (by simp)).weaken
  · intro found next outcome
    exact outcome
  rintro code next ⟨isCode, same, none⟩
  refine ⟨isCode, same, ?_⟩
  intro j
  by_contra free
  have inside := ok.inside j (by simpa using free)
  have words := ok.nwords
  apply free
  apply none
  rw [Nat.zero_add, words]
  unfold WORD_BITS
  omega

theorem bitmapTest_ends (inside : index < bitmap.nbits) {post : Bool → Bitmap → Prop} :
    CallEnds (bitmapTest index) post failed faulty bitmap ↔ post (bitmap.isFree index) bitmap := by
  have test : decide (bitmap.map (index / WORD_BITS) &&& bitMask (index % WORD_BITS) ≠ 0) =
      bitmap.isFree index := by
    simp only [Bitmap.isFree, ne_eq, and_bitMask Bitmap.index_lt]
    simp
  simp only [bitmapTest, bitmapTranslate, callEnds_bind, callEnds_get, callEnds_ensure,
    callEnds_pure, inside, test, true_implies, not_true_eq_false, false_implies, and_true]

theorem bitmapFree_ends (inside : index < bitmap.nbits) (inUse : bitmap.isFree index = false)
    {post : PUnit → Bitmap → Prop} :
    CallEnds (bitmapFree index) post failed faulty bitmap ↔ post () (bitmap.give index) := by
  have clear : bitmap.map (index / WORD_BITS) &&& bitMask (index % WORD_BITS) = 0 :=
    (and_bitMask Bitmap.index_lt).mpr inUse
  simp [bitmapFree, bitmapTranslate, inside, clear, Bitmap.give]

end Specs

section Refinement

/-- The words stand for the set of free indices below `nbits`. -/
structure Bitmap.Represents (nbits : Nat) (bitmap : Bitmap) (free : Finset Nat) : Prop where
  ok : bitmap.Ok
  nbits : bitmap.nbits = nbits
  mem : ∀ index, bitmap.isFree index = true ↔ index ∈ free

/-- What the calls do while `free` is the set of free indices. -/
structure Bitmap.Serves (nbits : Nat) (bitmap : Bitmap) (free : Finset Nat) : Prop where
  alloc : CallEnds bitmapAlloc
    (fun index next => IsLeast (free : Set Nat) index ∧ next.Represents nbits (free.erase index))
    (fun code next => code = -E_NO_MEM ∧ free = ∅ ∧ next = bitmap) (fun _ => False) bitmap
  test : ∀ index < nbits, CallEnds (bitmapTest index)
    (fun answer next => (answer = true ↔ index ∈ free) ∧ next = bitmap)
    (fun _ _ => False) (fun _ => False) bitmap
  free : ∀ index < nbits, index ∉ free → CallEnds (bitmapFree index)
    (fun _ next => next.Represents nbits (insert index free))
    (fun _ _ => False) (fun _ => False) bitmap

/-- The calls on a bitmap from its creation on, with the set of indices that
their answers leave free.  Only allocated indices are freed. -/
inductive BitmapRun (nbits : Nat) : Finset Nat → Bitmap → Prop
  | create {bitmap gotBitmap gotMap}
      (created : bitmapCreate nbits gotBitmap gotMap = .ok (some bitmap)) :
      BitmapRun nbits (Finset.range nbits) bitmap
  | alloc {free bitmap index next} (run : BitmapRun nbits free bitmap)
      (returns : bitmapAlloc bitmap = .ok (.ok index, next)) :
      BitmapRun nbits (free.erase index) next
  | allocFailed {free bitmap code next} (run : BitmapRun nbits free bitmap)
      (fails : bitmapAlloc bitmap = .ok (.error code, next)) : BitmapRun nbits free next
  | free {free bitmap index next} (run : BitmapRun nbits free bitmap)
      (allocated : index < nbits ∧ index ∉ free)
      (returns : bitmapFree index bitmap = .ok (.ok (), next)) :
      BitmapRun nbits (insert index free) next

variable {nbits overbits : Nat} {free : Finset Nat}

theorem clearOverbits_getLsbD {left bit : Nat} (within : overbits + left ≤ WORD_BITS) :
    (clearOverbits word overbits left).getLsbD bit =
      (word.getLsbD bit ^^ decide (overbits ≤ bit ∧ bit < overbits + left)) := by
  induction left generalizing word overbits with
  | zero =>
    rw [clearOverbits, decide_eq_false (by omega), Bool.xor_false]
  | succ left ih =>
    rw [clearOverbits, ih (by omega), BitVec.getLsbD_xor, bitMask_getLsbD (by omega),
      Bool.xor_assoc]
    congr 1
    by_cases first : overbits = bit
    · simp [first]
    have later : (overbits + 1 ≤ bit ∧ bit < overbits + 1 + left) ↔
        (overbits ≤ bit ∧ bit < overbits + (left + 1)) := by omega
    rw [decide_eq_false first, Bool.false_xor, decide_eq_decide]
    exact later

/-- An accepted size is created without a failed assertion, all indices free. -/
theorem bitmapCreate_result (accepted : nbits ≠ 0 ∧ nbits < (nbits + WORD_BITS) % 2 ^ 32)
    (gotBitmap gotMap : Bool) :
    bitmapCreate nbits gotBitmap gotMap = .ok none ∧ (gotBitmap = false ∨ gotMap = false) ∨
      ∃ bitmap, bitmapCreate nbits gotBitmap gotMap = .ok (some bitmap) ∧
        bitmap.Represents nbits (Finset.range nbits) := by
  rw [bitmapCreate, if_neg (not_not.mpr accepted)]
  by_cases memory : gotBitmap = false ∨ gotMap = false
  · exact .inl ⟨if_pos memory, memory⟩
  right
  rw [if_neg memory]
  extract_lets nwords full ix overbits
  have ones : ∀ word bit, bit < WORD_BITS → (full word).getLsbD bit = decide (word < nwords) := by
    intro word bit inside
    by_cases used : word < nwords
    · rw [show full word = BitVec.allOnes 32 from if_pos used, BitVec.getLsbD_allOnes]
      exact (decide_eq_true inside).trans (decide_eq_true used).symm
    · rw [show full word = 0 from if_neg used]
      simp [used]
  have words : nwords = (nbits + WORD_BITS - 1) / WORD_BITS := rfl
  have represents : ∀ map,
      (∀ index, (Bitmap.mk nbits nwords map).isFree index = decide (index < nbits)) →
      (Bitmap.mk nbits nwords map).Represents nbits (Finset.range nbits) :=
    fun map free => ⟨⟨rfl, by simp [free]⟩, rfl, by simp [free]⟩
  unfold WORD_BITS at words
  by_cases whole : nbits = nwords * WORD_BITS
  · refine ⟨_, if_neg (not_not.mpr whole), represents _ ?_⟩
    intro index
    rw [Bitmap.isFree, ones _ _ Bitmap.index_lt, decide_eq_decide]
    unfold WORD_BITS at *
    omega
  have last : nbits / WORD_BITS = ix := by
    unfold ix WORD_BITS at *
    omega
  have rest : overbits = nbits % WORD_BITS := by
    unfold overbits
    rw [← last]
    unfold WORD_BITS
    omega
  have partly : 0 < overbits ∧ overbits < WORD_BITS := by
    unfold WORD_BITS at *
    omega
  rw [if_pos whole, if_neg (not_not.mpr last), if_neg (not_not.mpr partly)]
  refine ⟨_, rfl, represents _ ?_⟩
  intro index
  -- the cleared bits are those of the last word from `nbits` on
  rw [← last]
  refine (@Bitmap.isFree_update ⟨nbits, nwords, full⟩ nbits index _).trans ?_
  rw [clearOverbits_getLsbD (by omega), ones _ _ Bitmap.index_lt, Bitmap.isFree,
    ones _ _ Bitmap.index_lt]
  split
  case isTrue same =>
    rw [decide_eq_true (by unfold WORD_BITS at *; omega), Bool.true_xor, ← decide_not,
      decide_eq_decide, rest]
    unfold WORD_BITS at *
    omega
  case isFalse apart =>
    rw [decide_eq_decide]
    unfold WORD_BITS at *
    omega

theorem Bitmap.Represents.serves (represents : bitmap.Represents nbits free) :
    bitmap.Serves nbits free where
  alloc := by
    apply (bitmapAlloc_ends represents.ok).weaken
    · rintro index next ⟨isFree, lowest, rfl⟩
      refine ⟨⟨(represents.mem index).mp isFree, ?_⟩, represents.ok.take isFree,
        represents.nbits, ?_⟩
      · intro other isOther
        by_contra before
        have taken := lowest other (by omega)
        rw [(represents.mem other).mpr isOther] at taken
        cases taken
      · intro other
        rw [isFree_take isFree, Finset.mem_erase, ← represents.mem other]
        simp [and_comm]
    rintro code next ⟨isCode, same, none⟩
    refine ⟨isCode, Finset.eq_empty_of_forall_notMem ?_, same⟩
    intro index member
    rw [← represents.mem, none index] at member
    cases member
  test index inside := by
    rw [bitmapTest_ends (represents.nbits.symm ▸ inside)]
    exact ⟨represents.mem index, rfl⟩
  free index inside allocated := by
    rw [← represents.nbits] at inside
    have inUse : bitmap.isFree index = false := by
      rwa [← Bool.not_eq_true, represents.mem]
    rw [bitmapFree_ends inside inUse]
    refine ⟨represents.ok.give inside, represents.nbits, ?_⟩
    intro other
    rw [isFree_give, Finset.mem_insert, ← represents.mem other]
    simp [or_comm]

theorem BitmapRun.represents (accepted : nbits ≠ 0 ∧ nbits < (nbits + WORD_BITS) % 2 ^ 32)
    (run : BitmapRun nbits free bitmap) : bitmap.Represents nbits free := by
  induction run with
  | @create bitmap gotBitmap gotMap created =>
    rcases bitmapCreate_result accepted gotBitmap gotMap with ⟨none, -⟩ | ⟨made, isMade, represents⟩
    · rw [created] at none
      cases none
    rw [created] at isMade
    cases isMade
    exact represents
  | alloc _ returns ih => exact (ih.serves.alloc.result returns).2
  | allocFailed _ fails ih =>
    have ends := ih.serves.alloc
    unfold CallEnds Ends ExceptT.run at ends
    rw [fails] at ends
    exact ends.2.2 ▸ ih
  | free _ allocated returns ih =>
    exact (ih.serves.free _ allocated.1 allocated.2).result returns

/-- The bitmap refines a finite set that starts with all numbers below `nbits`. -/
theorem bitmap_refines_set (accepted : nbits ≠ 0 ∧ nbits < (nbits + WORD_BITS) % 2 ^ 32) :
    (∀ gotBitmap gotMap fault, bitmapCreate nbits gotBitmap gotMap ≠ .error fault) ∧
    (∃ bitmap, bitmapCreate nbits true true = .ok (some bitmap)) ∧
    ∀ free bitmap, BitmapRun nbits free bitmap →
      free ⊆ Finset.range nbits ∧ bitmap.Serves nbits free := by
  refine ⟨?_, ?_, ?_⟩
  · intro gotBitmap gotMap fault stops
    rcases bitmapCreate_result accepted gotBitmap gotMap with ⟨none, -⟩ | ⟨made, isMade, -⟩
    · simp [none] at stops
    · simp [isMade] at stops
  · rcases bitmapCreate_result accepted true true with ⟨-, noMemory⟩ | ⟨made, isMade, -⟩
    · simp at noMemory
    · exact ⟨made, isMade⟩
  intro free bitmap run
  have represents := run.represents accepted
  refine ⟨?_, represents.serves⟩
  intro index member
  have inside := represents.ok.inside index ((represents.mem index).mpr member)
  rwa [represents.nbits, ← Finset.mem_range] at inside

/-- A bitmap with a partly used last word, from which 0 and 1 were taken and 0 was given back. -/
theorem bitmap_refines_set_of_33 : (33 ≠ 0 ∧ 33 < (33 + WORD_BITS) % 2 ^ 32) ∧
    ∃ bitmap, BitmapRun 33 ((Finset.range 33).erase 1) bitmap ∧
      bitmap.Serves 33 ((Finset.range 33).erase 1) := by
  have accepted : 33 ≠ 0 ∧ 33 < (33 + WORD_BITS) % 2 ^ 32 := by decide
  obtain ⟨-, -, serves⟩ := bitmap_refines_set accepted
  obtain ⟨bitmap, run⟩ : ∃ bitmap, BitmapRun 33 ((Finset.range 33).erase 1) bitmap := by
    have start := BitmapRun.create (show bitmapCreate 33 true true = .ok (some _) from rfl)
    have taken := (start.alloc rfl).alloc rfl
    have given := taken.free (show 0 < 33 ∧ 0 ∉ ((Finset.range 33).erase 0).erase 1 by decide) rfl
    exact ⟨_, given⟩
  exact ⟨accepted, bitmap, run, (serves _ bitmap run).2⟩

end Refinement

end UcoreSmp
