import Mathlib.Tactic.Ring

/-!
# Little-endian numbers in memory

Memory is a function from offsets to bytes.  A number of a given width is read
from it byte by byte, lowest byte first, and `blit` is `memcpy`.
-/

namespace UcoreSmp

abbrev Bytes := Nat → UInt8

/-- `memcpy(target + place, source + start, len)` -/
def Bytes.blit (target : Bytes) (place : Nat) (source : Bytes) (start len : Nat) : Bytes :=
  fun i => if place ≤ i ∧ i < place + len then source (start + (i - place)) else target i

def leBytes (value : Nat) : Bytes :=
  fun j => UInt8.ofNat (value / 256 ^ j)

/-- The number in the given count of bytes from an offset on. -/
def leNat : Nat → Bytes → Nat → Nat
  | 0, _, _ => 0
  | width + 1, bytes, offset => (bytes offset).toNat + 256 * leNat width bytes (offset + 1)

section Codec

variable {width offset place start len value : Nat} {bytes bytes' source : Bytes}

theorem Bytes.blit_inside {i : Nat} (source : Bytes) (inside : place ≤ i ∧ i < place + len) :
    bytes.blit place source start len i = source (start + (i - place)) :=
  if_pos inside

theorem Bytes.blit_outside {i : Nat} (source : Bytes) (outside : i < place ∨ place + len ≤ i) :
    bytes.blit place source start len i = bytes i := by
  apply if_neg
  omega

@[simp]
theorem Bytes.blit_zero (bytes source : Bytes) (place start : Nat) :
    bytes.blit place source start 0 = bytes := by
  funext i
  exact Bytes.blit_outside source (by omega)

theorem Bytes.blit_congr {source' : Bytes} {start' : Nat}
    (same : ∀ j, j < len → source (start + j) = source' (start' + j)) :
    bytes.blit place source start len = bytes.blit place source' start' len := by
  funext i
  by_cases inside : place ≤ i ∧ i < place + len
  · rw [Bytes.blit_inside source inside, Bytes.blit_inside source' inside]
    exact same (i - place) (by omega)
  · rw [Bytes.blit_outside source (by omega), Bytes.blit_outside source' (by omega)]

theorem Bytes.blit_append (bytes source : Bytes) (place start len len' : Nat) :
    (bytes.blit place source start len).blit (place + len) source (start + len) len' =
      bytes.blit place source start (len + len') := by
  funext i
  by_cases second : place + len ≤ i ∧ i < place + len + len'
  · rw [Bytes.blit_inside source second, Bytes.blit_inside source (by omega)]
    exact congrArg source (by omega)
  rw [Bytes.blit_outside source (by omega)]
  by_cases first : place ≤ i ∧ i < place + len
  · rw [Bytes.blit_inside source first, Bytes.blit_inside source (by omega)]
  · rw [Bytes.blit_outside source (by omega), Bytes.blit_outside source (by omega)]

theorem leNat_congr {offset' : Nat}
    (same : ∀ j, j < width → bytes (offset + j) = bytes' (offset' + j)) :
    leNat width bytes offset = leNat width bytes' offset' := by
  induction width generalizing offset offset' with
  | zero => rfl
  | succ width ih =>
    have first : bytes offset = bytes' offset' := same 0 (Nat.succ_pos width)
    have rest : leNat width bytes (offset + 1) = leNat width bytes' (offset' + 1) := by
      apply ih
      intro j inside
      have next := same (j + 1) (by omega)
      rwa [show offset + 1 + j = offset + (j + 1) by omega,
        show offset' + 1 + j = offset' + (j + 1) by omega]
    rw [leNat, leNat, first, rest]

theorem leBytes_succ (value j : Nat) : leBytes value (j + 1) = leBytes (value / 256) j := by
  simp only [leBytes]
  rw [Nat.div_div_eq_div_mul, pow_succ']

theorem leNat_eq (stored : ∀ j, j < width → bytes (offset + j) = leBytes value j) :
    leNat width bytes offset = value % 256 ^ width := by
  induction width generalizing offset value with
  | zero => simp [leNat, Nat.mod_one]
  | succ width ih =>
    have low : (bytes offset).toNat = value % 256 := by
      have first := stored 0 (Nat.succ_pos width)
      rw [Nat.add_zero] at first
      simp [first, leBytes]
    have high : leNat width bytes (offset + 1) = value / 256 % 256 ^ width := by
      apply ih
      intro j inside
      rw [← leBytes_succ, ← stored (j + 1) (by omega)]
      exact congrArg bytes (by omega)
    rw [leNat, low, high, pow_succ', Nat.mod_mul]

theorem leNat_eq_of_lt (fits : value < 2 ^ (8 * width))
    (stored : ∀ j, j < width → bytes (offset + j) = leBytes value j) :
    leNat width bytes offset = value := by
  rw [leNat_eq stored]
  apply Nat.mod_eq_of_lt
  rwa [pow_mul] at fits

theorem leNat_zero (width offset : Nat) : leNat width (fun _ => 0) offset = 0 := by
  induction width generalizing offset with
  | zero => rfl
  | succ width ih => simp [leNat, ih]

theorem leNat_blit_self (value : Nat) :
    leNat width (bytes.blit offset (leBytes value) 0 width) offset = value % 256 ^ width := by
  apply leNat_eq
  intro j inside
  rw [Bytes.blit_inside _ (by omega)]
  exact congrArg _ (by omega)

theorem leNat_blit_other (apart : offset + width ≤ place ∨ place + len ≤ offset) :
    leNat width (bytes.blit place source start len) offset = leNat width bytes offset := by
  apply leNat_congr
  intro j inside
  exact Bytes.blit_outside _ (by omega)

theorem leNat_blit_copy (source : Bytes) (start : Nat) :
    leNat width (bytes.blit offset source start width) offset = leNat width source start := by
  apply leNat_congr
  intro j inside
  rw [Bytes.blit_inside _ (by omega)]
  exact congrArg source (by omega)

end Codec

end UcoreSmp
