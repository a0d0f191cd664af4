import UcoreSmp.ByteCodec

/-!
# Arrays of bytes

A stretch of memory with a length is a list of bytes.  Copying to memory writes over a
part of the list and can make it longer; copying from memory reads a part of it.
-/

namespace UcoreSmp

open List Bytes

def Bytes.slice (bytes : Bytes) (start len : Nat) : List UInt8 :=
  (List.range len).map fun j => bytes (start + j)

/-- A list with `new` written over it from `offset` on. -/
def splice {α : Type} (old : List α) (offset : Nat) (new : List α) : List α :=
  old.take offset ++ new ++ old.drop (offset + new.length)

/-- A list cut off at `len` or made so long with zeros. -/
def resize (old : List UInt8) (len : Nat) : List UInt8 :=
  old.take len ++ replicate (len - old.length) 0

section Slices

variable {bytes bytes' source : Bytes} {start offset len size : Nat}

@[simp]
theorem Bytes.length_slice (bytes : Bytes) (start len : Nat) :
    (bytes.slice start len).length = len := by
  simp [slice]

@[simp]
theorem Bytes.getElem_slice {i : Nat} (inside : i < (bytes.slice start len).length) :
    (bytes.slice start len)[i] = bytes (start + i) := by
  simp [slice]

@[simp]
theorem splice_nil {α : Type} (old : List α) (offset : Nat) : splice old offset [] = old := by
  simp [splice]

theorem length_splice {α : Type} {old new : List α} (ordered : offset ≤ old.length) :
    (splice old offset new).length = max old.length (offset + new.length) := by
  simp only [splice, length_append, length_take, length_drop]
  omega

theorem Bytes.slice_blit (bytes source : Bytes) (ordered : offset ≤ size) (len : Nat) :
    (bytes.blit offset source 0 len).slice 0 (max size (offset + len)) =
      splice (bytes.slice 0 size) offset (source.slice 0 len) := by
  apply ext_getElem
  · rw [length_splice (by simpa using ordered)]
    simp
  intro i inside inside'
  rw [getElem_slice, Nat.zero_add]
  simp only [splice]
  by_cases before : i < offset
  · rw [blit_outside source (by omega), getElem_append_left (by
      simp only [length_append, length_take, length_slice]
      omega), getElem_append_left (by
      simp only [length_take, length_slice]
      omega)]
    simp
  by_cases written : i < offset + len
  · rw [blit_inside source ⟨by omega, written⟩, getElem_append_left (by
      simp only [length_append, length_take, length_slice]
      omega), getElem_append_right (by
      simp only [length_take, length_slice]
      omega)]
    simp [Nat.min_eq_left ordered]
  rw [blit_outside source (by omega), getElem_append_right (by
    simp only [length_append, length_take, length_slice]
    omega)]
  simp only [length_append, length_take, length_slice,
    Nat.min_eq_left ordered, getElem_drop, getElem_slice, Nat.zero_add]
  exact congrArg bytes (by omega)

theorem Bytes.take_drop_slice (bytes : Bytes) (size offset len : Nat) :
    ((bytes.slice 0 size).drop offset).take len =
      bytes.slice offset (min (offset + len) size - offset) := by
  apply ext_getElem
  · simp only [length_take, length_drop, length_slice]
    omega
  · intro i inside inside'
    simp

theorem Bytes.slice_blit_copy (bytes source : Bytes) (start len : Nat) :
    (bytes.blit 0 source start len).slice 0 len = source.slice start len := by
  apply ext_getElem
  · simp
  intro i inside inside'
  rw [length_slice] at inside
  rw [getElem_slice, getElem_slice, blit_inside source (by omega)]
  exact congrArg source (by omega)

theorem getElem?_splice_of_outside {α : Type} {old new : List α} {position : Nat}
    (ordered : offset ≤ old.length) (outside : position < offset ∨ offset + new.length ≤ position) :
    (splice old offset new)[position]? = old[position]? := by
  rcases outside with before | behind
  · rw [splice, append_assoc, getElem?_append_left (by simp; omega), getElem?_take_of_lt before]
  · rw [splice, getElem?_append_right (by simp; omega), getElem?_drop]
    congr 1
    simp
    omega

@[simp]
theorem length_resize (old : List UInt8) (len : Nat) : (resize old len).length = len := by
  simp [resize]
  omega

theorem getElem?_resize {old : List UInt8} {position : Nat} (inside : position < len) :
    (resize old len)[position]? = some (old[position]?.getD 0) := by
  rw [resize, getElem?_append]
  split_ifs with early
  · rw [length_take] at early
    rw [getElem?_take_of_lt inside, getElem?_eq_getElem (by omega)]
    rfl
  · rw [length_take] at early
    rw [getElem?_replicate_of_lt (by rw [length_take]; omega), getElem?_eq_none (by omega)]
    rfl

/-- A longer part of memory is a shorter one with zeros behind it when what was left out is
zero. -/
theorem Bytes.slice_eq_resize_iff (bytes : Bytes) (size len : Nat) :
    bytes.slice 0 len = resize (bytes.slice 0 size) len ↔
      ∀ position, size ≤ position → position < len → bytes position = 0 := by
  constructor
  · intro same position lower upper
    have byte := congrArg (·[position]?) same
    rw [getElem?_resize upper] at byte
    simpa [Bytes.slice, upper, lower] using byte
  intro zeros
  apply ext_getElem?
  intro position
  by_cases inside : position < len
  · rw [getElem?_resize inside, getElem?_eq_getElem (by simpa using inside), getElem_slice]
    by_cases old : position < size
    · simp [Bytes.slice, old]
    · simpa [Bytes.slice, old] using zeros position (by omega) inside
  · rw [getElem?_eq_none (by simpa using inside), getElem?_eq_none (by simpa using inside)]

end Slices

end UcoreSmp
