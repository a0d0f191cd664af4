import UcoreSmp.ExecStack

/-!
# The image of a new program

When `load_icode` succeeds, the segments of the program are where its headers say,
and on the way every write to a page stays inside the page.  A header without a
file part is skipped, also when it asks for memory; and no segment may wrap around
to the page in which it starts, the one kind of wrapping that `mm_map` lets through.
-/

namespace UcoreSmp

namespace Exec

/-- For every file in which no loaded segment wraps around to its own page: every read
from the file and every `memset` stays inside the page frame just allocated, the
loops over the pages end, and when `load_icode` succeeds, every segment with a file
part is in user memory, with zeros after its file part. -/
theorem load_icode_image {user : UserSource} {argv : Nat} {buffers : List (Option Bytes)}
    {kargv : List Bytes} (accepted : copyKargv user argv buffers = .ok kargv)
    (few : buffers.length ≤ EXEC_MAX_ARG_NUM) {file : ExecFile} {state : MmState}
    (memory : MemoryOk state) (plain : file.Plain) :
    CallEnds (loadIcode file kargv)
      (fun program next => ∃ dir, (next.mms program.mm).pgdir = some dir ∧
        ∀ phnum < file.elfhdr.ePhnum, (file.header phnum).Loads →
          SegmentLoaded file (file.header phnum) dir next.phys)
      (fun _ _ => True) (fun fault => ¬ fault.Astray) state := by
  obtain ⟨length, small⟩ := copyKargv_ok accepted
  rw [← length] at few
  refine loadIcode_ends (fun _ other => other) (fun _ _ => trivial) ?_
  intro mm dir fresh made pgdir
  obtain ⟨dirs, loading⟩ := (newSpace_loading memory).result made dir pgdir
  apply loadImage_ends (fun _ other => other) (fun _ _ => trivial) (absurd plain) loading
  intro vma areas mapped isVma isStart isLast settled
  apply buildStack_ends (fun _ other => other) small few mapped.filling.mapping
  intro next still list kept onStack
  refine ⟨dir, still.pgdir, fun phnum inside loads => ?_⟩
  obtain ⟨segment, sizes, limit⟩ := settled plain phnum inside loads
  constructor
  · exact fun i early => kept (by omega) (segment.text i early)
  · exact fun i first early => kept (by omega) (segment.bss i first early)

theorem load_icode_image_two_bytes :
    (tinyProgram 0xAFC00000 2 4).Plain ∧ execs (tinyProgram 0xAFC00000 2 4) twoKargv roomyState ∧
      CallEnds (loadIcode (tinyProgram 0xAFC00000 2 4) twoKargv)
        (fun program next => ∃ dir, (next.mms program.mm).pgdir = some dir ∧
          ∀ phnum < (tinyProgram 0xAFC00000 2 4).elfhdr.ePhnum,
            ((tinyProgram 0xAFC00000 2 4).header phnum).Loads →
              SegmentLoaded (tinyProgram 0xAFC00000 2 4)
                ((tinyProgram 0xAFC00000 2 4).header phnum) dir next.phys)
        (fun _ _ => True) (fun fault => ¬ fault.Astray) roomyState := by
  have accepted : copyKargv twoArguments 0 [some fun _ => 0, some fun _ => 0] = .ok twoKargv := rfl
  have plain : (tinyProgram 0xAFC00000 2 4).Plain := by
    intro phnum inside _
    have count : (tinyProgram 0xAFC00000 2 4).elfhdr.ePhnum = 1 := by decide +kernel
    rw [count, Nat.lt_one_iff] at inside
    subst inside
    unfold Proghdr.WrapsToItself
    decide +kernel
  exact ⟨plain, by decide +kernel, load_icode_image accepted (by decide) roomyState_ok plain⟩

/-- What user memory holds at an address after `load_icode` succeeds. -/
def byteAfter (file : ExecFile) (addr : Nat) : Option (Option UInt8) :=
  match loadIcode file twoKargv roomyState with
  | .ok (.ok program, next) =>
    (next.mms program.mm).pgdir.map fun dir => next.phys.userByte dir addr
  | _ => none

/-- A segment without a file part is not there at all after `load_icode`, and one
whose end wraps around to its own page has the kernel clear memory beyond the
page. -/
theorem load_icode_skips_bss_segment : ((tinyProgram 0xAFC00000 0 4).header 0).pType = ELF_PT_LOAD ∧
      ((tinyProgram 0xAFC00000 0 4).header 0).pMemsz = 4 ∧
      byteAfter (tinyProgram 0xAFC00000 0 4) 0xAFC00000 = some none ∧
      faultOf (loadIcode (tinyProgram 0xAFC00FF0 2 0xFFFFFFFF) twoKargv) roomyState =
        some .outsidePage := by
  decide +kernel

end Exec

end UcoreSmp
