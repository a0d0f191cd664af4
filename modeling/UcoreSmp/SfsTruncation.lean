import UcoreSmp.SfsByteArray

/-!
# Truncations and writes of one file

As an array of bytes, a file is cut off or made longer with zeros by `sfs_truncfile`, and a write
behind its end leaves zeros between the two.  Blocks are given back as a whole, so the bytes that
a truncation leaves in the last block are still there.  The calls follow the law of the array as
long as none of them extends the file over such bytes, and the first one that does breaks it.
-/

namespace UcoreSmp

/-- A truncation or a write of a file that returned without an error. -/
inductive FileChange where
  | truncate (len : Nat)
  | write (offset : Nat) (bytes : List UInt8)

/-- What a change makes of an array of bytes. -/
def FileChange.apply (old : List UInt8) : FileChange → List UInt8
  | .truncate len => resize old len
  | .write offset bytes =>
    if bytes = [] then old else splice (resize old (max old.length offset)) offset bytes

/-- The bytes before this position are in the file afterwards without having been written. -/
def FileChange.extent : FileChange → Nat
  | .truncate len => len
  | .write offset bytes => if bytes = [] then 0 else offset

def FileChange.Writes (position : Nat) : FileChange → Prop
  | .truncate _ => False
  | .write offset bytes => offset ≤ position ∧ position < offset + bytes.length

/-- One call on the file `node`. -/
inductive FileStep (node : Nat) : SfsFs → FileChange → SfsFs → Prop
  | truncate {sfs next : SfsFs} {len : Int}
      (returns : sfsTruncfile node len sfs = .ok (.ok PUnit.unit, next)) :
      FileStep node sfs (.truncate len.toNat) next
  | write {sfs next : SfsFs} {buf : Bytes} {offset : Int} {len : Nat} {done : IoResult}
      (returns : sfsIoNolock node buf offset len true sfs = .ok (.ok done, next))
      (isZero : done.ret = 0) :
      FileStep node sfs (.write offset.toNat (buf.slice 0 done.alen)) next

/-- The blocks of a file hold only zeros between its size and `stop`. -/
def SfsFs.Blank (sfs : SfsFs) (node stop : Nat) : Prop :=
  ∀ position, (sfs.dinOf node).size ≤ position → position < stop →
    sfs.fileBytes node position = 0

/-- Calls that only extend the file over zeros. -/
inductive FileRun (node : Nat) (start : SfsFs) : List FileChange → SfsFs → Prop
  | start : FileRun node start [] start
  | step {changes : List FileChange} {change : FileChange} {sfs next : SfsFs}
      (run : FileRun node start changes sfs) (blank : sfs.Blank node change.extent)
      (step : FileStep node sfs change next) : FileRun node start (changes ++ [change]) next

/-- A regular file of a consistent file system. -/
structure RegularFile (sfs : SfsFs) (inodes : Finset Nat) (node : Nat) (sin : SfsInode) :
    Prop where
  consistent : sfs.Consistent inodes
  found : sfs.sins node = some sin
  isFile : sin.din.type = SFS_TYPE_FILE

section Law

variable {start sfs next : SfsFs} {inodes : Finset Nat} {node position : Nat} {sin : SfsInode}
  {old : List UInt8} {change : FileChange} {changes : List FileChange}

theorem length_contents (sfs : SfsFs) (node : Nat) :
    (sfs.contents node).length = (sfs.dinOf node).size :=
  Bytes.length_slice _ _ _

theorem RegularFile.truncate (file : RegularFile sfs inodes node sin) {len : Int}
    (returns : sfsTruncfile node len sfs = .ok (.ok PUnit.unit, next)) :
    (∃ sin', RegularFile next inodes node sin') ∧
      next.contents node = (sfs.fileBytes node).slice 0 len.toNat := by
  have ends := sfsTruncfile_ends file.consistent file.found len
  rw [CallEnds, Ends, ExceptT.run, returns] at ends
  rcases ends with ⟨rfl, size, -⟩ | ⟨sin', resized⟩
  · exact ⟨⟨sin, file⟩, by rw [contents_some file.found, size]⟩
  refine ⟨⟨sin', resized.consistent, resized.found, resized.type.trans file.isFile⟩, ?_⟩
  rw [contents_some resized.found, resized.size]
  apply List.map_congr_left
  intro position inside
  have upper := List.mem_range.mp inside
  apply resized.contents
  rw [resized.blocks]
  unfold roundupDiv SFS_BLKSIZE
  omega

theorem RegularFile.write (file : RegularFile sfs inodes node sin) {buf : Bytes} {offset : Int}
    {len : Nat} {done : IoResult}
    (returns : sfsIoNolock node buf offset len true sfs = .ok (.ok done, next))
    (isZero : done.ret = 0) :
    (∃ sin', RegularFile next inodes node sin') ∧
      ((done.alen = 0 ∧ next.contents node = sfs.contents node) ∨
        (0 < done.alen ∧ next.contents node =
          splice ((sfs.fileBytes node).slice 0 (max (sfs.dinOf node).size offset.toNat))
            offset.toNat (buf.slice 0 done.alen))) := by
  have ends := sfsIoNolock_ends file.consistent file.found file.isFile buf offset len true
  rw [CallEnds, Ends, ExceptT.run, returns] at ends
  rcases ends with ⟨rfl, -, rfl⟩ | ⟨⟨valid, notEmpty, -⟩, -, sin', served⟩
  · exact ⟨⟨sin, file⟩, .inl ⟨rfl, rfl⟩⟩
  have isFile := served.type.trans file.isFile
  refine ⟨⟨sin', served.consistent, served.found, isFile⟩, .inr ⟨?_, ?_⟩⟩
  · rcases served.ret with ⟨-, all⟩ | ⟨isCode, -⟩
    · rw [all]
      have maxBound : (0 : Int) < SFS_MAX_FILE_SIZE := by decide
      unfold IoInvalid at valid
      unfold ioStop ioEnd
      simp only [Bool.true_eq_false, false_and, if_false]
      split_ifs <;> omega
    · rw [isZero] at isCode
      exact absurd isCode (by decide)
  rw [contents_some served.found, served.contents, fileAfter, if_pos rfl, served.size,
    dinOf_some file.found, ← Bytes.slice_blit _ _ (le_max_right _ _)]
  congr 1
  omega

theorem splice_gap_iff {old old' new : List UInt8} (size : Nat) {offset : Nat}
    (length : old.length = max size offset) (length' : old'.length = max size offset)
    (same : old.take size = old'.take size) :
    splice old offset new = splice old' offset new ↔ old = old' := by
  refine ⟨fun spliced => ?_, fun equal => equal ▸ rfl⟩
  rcases Nat.le_total offset size with inside | behind
  · rw [max_eq_left inside] at length length'
    rwa [List.take_of_length_le length.le, List.take_of_length_le length'.le] at same
  · rw [max_eq_right behind] at length length'
    simp only [splice, List.take_of_length_le length.le, List.take_of_length_le length'.le,
      List.drop_of_length_le (length.le.trans (Nat.le_add_right _ _)),
      List.drop_of_length_le (length'.le.trans (Nat.le_add_right _ _)), List.append_nil] at spliced
    exact List.append_cancel_right spliced

/-- One call follows the law of the array exactly if it extends the file over zeros. -/
theorem FileStep.apply_iff (step : FileStep node sfs change next)
    (file : RegularFile sfs inodes node sin) :
    next.contents node = change.apply (sfs.contents node) ↔ sfs.Blank node change.extent := by
  have isGap := fun stop =>
    Bytes.slice_eq_resize_iff (sfs.fileBytes node) (sfs.dinOf node).size stop
  cases step with
  | truncate returns =>
    rw [(file.truncate returns).2]
    exact isGap _
  | @write _ buf offset len done returns isZero =>
    rcases (file.write returns isZero).2 with ⟨empty, same⟩ | ⟨nonempty, bytes⟩
    · have isNil : buf.slice 0 done.alen = [] := by
        rw [empty]
        rfl
      simp [FileChange.apply, FileChange.extent, SfsFs.Blank, isNil, same]
    have notNil : buf.slice 0 done.alen ≠ [] := by
      rw [← List.length_pos_iff, Bytes.length_slice]
      exact nonempty
    have padded : (resize (sfs.contents node) (max (sfs.dinOf node).size offset.toNat)).take
        (sfs.dinOf node).size = sfs.contents node := by
      rw [resize, length_contents, List.take_append_of_le_length, List.take_take, SfsFs.contents,
        List.take_of_length_le] <;> simp [length_contents]
    rw [FileChange.apply, FileChange.extent, if_neg notNil, if_neg notNil, bytes, length_contents,
      splice_gap_iff (sfs.dinOf node).size (Bytes.length_slice _ _ _) (length_resize _ _),
      SfsFs.contents, isGap]
    · -- a write inside the file leaves no gap
      exact forall_congr' fun position => forall_congr' fun behind => by
        rw [lt_max_iff, or_iff_right (by omega)]
    · rw [padded, SfsFs.contents, ← List.drop_zero (l := (sfs.fileBytes node).slice 0 _),
        Bytes.take_drop_slice]
      congr 1
      omega

theorem FileStep.file (step : FileStep node sfs change next)
    (file : RegularFile sfs inodes node sin) : ∃ sin', RegularFile next inodes node sin' := by
  cases step with
  | truncate returns => exact (file.truncate returns).1
  | write returns isZero => exact (file.write returns isZero).1

/-- A byte that is not written is a zero or not in the file if it was so before. -/
theorem FileChange.apply_absent (notWritten : ¬ change.Writes position)
    (absent : old[position]?.getD 0 = 0) : (change.apply old)[position]?.getD 0 = 0 := by
  have resized (len : Nat) : (resize old len)[position]?.getD 0 = 0 := by
    by_cases inside : position < len
    · rw [getElem?_resize inside, Option.getD_some, absent]
    · rw [List.getElem?_eq_none (by simpa using inside), Option.getD_none]
  cases change with
  | truncate len => exact resized len
  | write offset bytes =>
    rw [apply]
    split_ifs with empty
    · exact absent
    unfold FileChange.Writes at notWritten
    rw [getElem?_splice_of_outside (by simp) (by omega)]
    exact resized _

theorem FileRun.follows (run : FileRun node start changes sfs)
    (file : RegularFile start inodes node sin) :
    (∃ sin', RegularFile sfs inodes node sin') ∧
      sfs.contents node = changes.foldl FileChange.apply (start.contents node) := by
  induction run with
  | start => exact ⟨⟨sin, file⟩, rfl⟩
  | step run blank step ih =>
    obtain ⟨⟨sin', reached⟩, contents⟩ := ih
    refine ⟨step.file reached, ?_⟩
    rw [(step.apply_iff reached).mpr blank, contents, List.foldl_append]
    rfl

/-- What a truncation cut off stays zero or outside the array until it is written. -/
theorem foldl_apply_absent (notWritten : ∀ change ∈ changes, ¬ change.Writes position)
    (absent : old[position]?.getD 0 = 0) :
    (changes.foldl FileChange.apply old)[position]?.getD 0 = 0 := by
  induction changes generalizing old with
  | nil => exact absent
  | cons change changes ih =>
    apply ih fun change member => notWritten change (List.mem_cons_of_mem _ member)
    exact FileChange.apply_absent (notWritten change List.mem_cons_self) absent

end Law

/-- After truncations and writes that only extended a regular file over zeros, its contents are
those of the array after the same changes, so that a byte that a truncation cut off is a zero
or not in the file until it is written again; and the next call follows the law of the array
exactly if it too extends the file over zeros. -/
theorem sfs_truncations_follow_array {start sfs : SfsFs} {inodes : Finset Nat} {node : Nat}
    {sin : SfsInode} {changes : List FileChange} (consistent : start.Consistent inodes)
    (found : start.sins node = some sin) (isFile : sin.din.type = SFS_TYPE_FILE)
    (run : FileRun node start changes sfs) :
    sfs.contents node = changes.foldl FileChange.apply (start.contents node) ∧
      (∀ (before after : List FileChange) (len position : Nat),
        changes = before ++ .truncate len :: after → len ≤ position →
          (∀ change ∈ after, ¬ change.Writes position) →
          (sfs.contents node)[position]?.getD 0 = 0) ∧
      ∀ change next, FileStep node sfs change next →
        (next.contents node = change.apply (sfs.contents node) ↔
          sfs.Blank node change.extent) := by
  obtain ⟨⟨sin', file⟩, contents⟩ := run.follows ⟨consistent, found, isFile⟩
  refine ⟨contents, ?_, fun change next step => step.apply_iff file⟩
  rintro before after len position rfl beyond notWritten
  rw [contents, List.foldl_append, List.foldl_cons]
  apply foldl_apply_absent notWritten
  rw [FileChange.apply, List.getElem?_eq_none (by simpa using beyond), Option.getD_none]

/-- Three bytes are written and cut down to one, the two others are written again, and the file is
extended over zeros. -/
theorem sfs_truncations_follow_array_extended : ∃ last,
    FileRun 3 ((sampleImage 4).load 3)
      [.write 0 [65, 66, 67], .truncate 1, .write 1 [90, 91], .truncate 5] last ∧
    last.contents 3 = [65, 90, 91, 0, 0] := by
  have file := sampleImage_fileAt
  obtain ⟨done, written, shrunk, done', rewritten, last, writes, isZero, all, shrinks, covered,
      rewrites, isZero', all', lengthens, atEnd, blank⟩ :
      ∃ done written shrunk done' rewritten last,
      sfsIoNolock 3 (fun j => UInt8.ofNat (65 + j)) 0 3 true ((sampleImage 4).load 3) =
        .ok (.ok done, written) ∧ done.ret = 0 ∧ done.alen = 3 ∧
      sfsTruncfile 3 1 written = .ok (.ok PUnit.unit, shrunk) ∧
      written.Blank 3 (FileChange.truncate 1).extent ∧
      sfsIoNolock 3 (fun j => UInt8.ofNat (90 + j)) 1 2 true shrunk =
        .ok (.ok done', rewritten) ∧ done'.ret = 0 ∧ done'.alen = 2 ∧
      sfsTruncfile 3 5 rewritten = .ok (.ok PUnit.unit, last) ∧
      shrunk.Blank 3 1 ∧ rewritten.Blank 3 (FileChange.truncate 5).extent := by
    refine ⟨_, _, _, _, _, _, rfl, rfl, rfl, rfl, ?_, rfl, rfl, rfl, rfl, ?_, ?_⟩
    · exact fun position behind inside => absurd (Nat.lt_of_le_of_lt behind inside) (by decide)
    · exact fun position behind inside => absurd (Nat.lt_of_le_of_lt behind inside) (by decide)
    · intro position behind inside
      have lower : 3 ≤ position := behind
      have upper : position < 5 := inside
      obtain rfl | rfl : position = 3 ∨ position = 4 := by omega
      · rfl
      · rfl
  have first := FileStep.write writes isZero
  have third := FileStep.write rewrites isZero'
  rw [all] at first
  rw [all'] at third
  have run := ((FileRun.start.step ?_ first).step covered (.truncate shrinks)).step ?_ third
  · exact ⟨last, run.step blank (.truncate lengthens), (sfs_truncations_follow_array file.consistent
      file.found file.isFile (run.step blank (.truncate lengthens))).1⟩
  · exact fun position _ inside => absurd inside (Nat.not_lt_zero _)
  · exact atEnd

/-- Two bytes that were cut off are back when the file is extended, and one of them when the file
is written behind its end. -/
theorem sfs_truncfile_returns_cut_bytes :
    FileAt ((sampleImage 4).load 3) {1, 3} 3 ⟨emptyDin SFS_TYPE_FILE, false, 1, 1⟩ ∧
      ∃ done written shrunk last done' last',
        sfsIoNolock 3 (fun j => UInt8.ofNat (65 + j)) (0 : Nat) 3 true
          ((sampleImage 4).load 3) = .ok (.ok done, written) ∧
        sfsTruncfile 3 1 written = .ok (.ok PUnit.unit, shrunk) ∧ shrunk.contents 3 = [65] ∧
        sfsTruncfile 3 3 shrunk = .ok (.ok PUnit.unit, last) ∧
        last.contents 3 = [65, 66, 67] ∧
        sfsIoNolock 3 (fun _ => 90) (2 : Nat) 1 true shrunk = .ok (.ok done', last') ∧
        done'.ret = 0 ∧ last'.contents 3 = [65, 66, 90] :=
  ⟨sampleImage_fileAt, _, _, _, _, _, _, rfl, rfl, rfl, rfl, rfl, rfl, rfl, rfl⟩

end UcoreSmp
