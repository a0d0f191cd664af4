import Mathlib.Data.List.TakeWhile

/-!
# Commands of the kernel monitor

`parse` of `kern/debug/kmonitor.c` cuts a line into arguments in place: white space
becomes NUL, and a pointer to each argument is stored in the next entry of `argv`.
The array of `runcmd` has `MAXARGS` entries; at the last one `parse` prints a
message and goes on.
-/

namespace UcoreSmp

namespace Kmonitor

open List

def MAXARGS : Nat := 16

/-- `WHITESPACE`: blank, tab, line feed and carriage return. -/
def isSpace (c : UInt8) : Bool := [32, 9, 10, 13].contains c

/-- What `parse` leaves from a byte of the line on: the pointers that it stores, as
distances from that byte, and the text. -/
structure Parsed where
  argv : List Nat
  text : List UInt8

/-- The byte at `buf` is left as `c`, and `buf` moves on. -/
def Parsed.next (c : UInt8) (rest : Parsed) : Parsed :=
  ⟨rest.argv.map (· + 1), c :: rest.text⟩

/-- The inner loops of `parse`.  The first one clears white space and ends at an
argument, which is stored; the second one, `inArg`, ends behind the argument. -/
def parseLoops (inArg : Bool) : List UInt8 → Parsed
  | [] => ⟨[], []⟩
  | c :: rest =>
    if isSpace c then (parseLoops false rest).next 0
    else
      let scanned := (parseLoops true rest).next c
      if inArg then scanned else ⟨0 :: scanned.argv, scanned.text⟩

/-- `parse`, on the bytes from `buf` on; the line ends at the first NUL. -/
def parse (buf : List UInt8) : Parsed := parseLoops false (buf.takeWhile (· ≠ 0))

/-- The strings that the entries of `argv` point to. -/
def Parsed.strings (parsed : Parsed) : List (List UInt8) :=
  parsed.argv.map fun ptr => (parsed.text.drop ptr).takeWhile (· ≠ 0)

/-- The longest runs of the line without white space. -/
def words (line : List UInt8) : List (List UInt8) := (line.splitOnP isSpace).filter (· ≠ [])

theorem strings_next (c : UInt8) (rest : Parsed) : (rest.next c).strings = rest.strings := by
  simp [Parsed.next, Parsed.strings, Function.comp_def]

/-- The first loop stores every piece that is not empty; the second one ends the
first piece and stores the others. -/
theorem parseLoops_pieces {line piece : List UInt8} {pieces : List (List UInt8)}
    (text : 0 ∉ line) (split : line.splitOnP isSpace = piece :: pieces) :
    (parseLoops false line).strings = (piece :: pieces).filter (· ≠ []) ∧
      (parseLoops true line).strings = pieces.filter (· ≠ []) ∧
      (parseLoops true line).text.takeWhile (· ≠ 0) = piece := by
  induction line generalizing piece pieces with
  | nil =>
    cases split
    exact ⟨rfl, rfl, rfl⟩
  | cons c rest ih =>
    obtain ⟨notNul, restText⟩ := not_or.mp fun nul => text (mem_cons.mpr nul)
    obtain ⟨first, others, splitRest⟩ := exists_cons_of_ne_nil (splitOnP_ne_nil isSpace rest)
    obtain ⟨cleared, scanned, ended⟩ := ih restText splitRest
    rw [splitOnP_cons_eq_if_modifyHead, splitRest] at split
    by_cases space : isSpace c
    · rw [if_pos space] at split
      cases split
      simp only [parseLoops, if_pos space, strings_next]
      exact ⟨cleared, cleared, rfl⟩
    rw [if_neg space] at split
    cases split
    have here : (c :: (parseLoops true rest).text).takeWhile (· ≠ 0) = c :: first := by
      rw [takeWhile_cons_of_pos (by simpa using Ne.symm notNul), ended]
    have later := (strings_next c (parseLoops true rest)).trans scanned
    simp only [parseLoops, if_neg space]
    exact ⟨congrArg₂ cons here later, later, here⟩

theorem parse_strings (buf : List UInt8) :
    (parse buf).strings = words (buf.takeWhile (· ≠ 0)) := by
  obtain ⟨piece, pieces, split⟩ :=
    exists_cons_of_ne_nil (splitOnP_ne_nil isSpace (buf.takeWhile (· ≠ 0)))
  rw [words, split]
  refine (parseLoops_pieces (fun nul => ?_) split).1
  simpa using mem_takeWhile_imp nul

/-- `parse` stores at most `MAXARGS` pointers, and each to its word with a NUL behind
it, if and only if the line has at most `MAXARGS` words. -/
theorem parse_inside_argv_iff (buf : List UInt8) :
    ((parse buf).argv.length ≤ MAXARGS ∧
      (parse buf).strings = (words (buf.takeWhile (· ≠ 0))).take MAXARGS) ↔
      (words (buf.takeWhile (· ≠ 0))).length ≤ MAXARGS := by
  have stored : (parse buf).argv.length = (words (buf.takeWhile (· ≠ 0))).length := by
    rw [← parse_strings, Parsed.strings, length_map]
  rw [parse_strings, stored]
  constructor
  · exact fun inside => inside.1
  · exact fun few => ⟨few, (take_of_length_le few).symm⟩

/-- The pointer to the last of 17 words is stored behind the array. -/
theorem parse_seventeen_words :
    MAXARGS < (parse (replicate 17 [97, 32]).flatten).argv.length := by
  decide

end Kmonitor

end UcoreSmp
