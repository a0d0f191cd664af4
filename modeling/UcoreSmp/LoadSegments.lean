import UcoreSmp.HighPages
import UcoreSmp.MmMapContract

/-!
# Loading the segments of a program

The loops of `load_icode` over the pages of a segment, for all values of the
fields of a program header.  A file is shorter than the gap between user space
and the kernel, so even a loop that leaves user space ends before the kernel's
part of the directory.
-/

namespace UcoreSmp

namespace Exec

open PhysState

variable {failed : Int → MmState → Prop} {faulty : ExecFault → Prop} {state : MmState}
  {dirs : Finset Nat} {dir mm offset : Nat} {post : PUnit → MmState → Prop} {cursor : Cursor}
  {file : ExecFile}

theorem callEnds_onMm {α : Type} {post : α → MmState → Prop} (call : MmCall α) :
    CallEnds (onMm call) post failed faulty state ↔
      CallEnds call post failed (fun fault => faulty (.mm fault)) state := by
  rw [onMm, callEnds_within]
  rfl

theorem wordSub_eq {a b : Nat} (le : b ≤ a) (small : a < 2 ^ 32) : wordSub a b = a - b := by
  unfold wordSub word
  omega

theorem word_eq {n : Nat} (small : n < 2 ^ 32) : word n = n :=
  Nat.mod_eq_of_lt small

theorem Proghdr.perm_lt (ph : Proghdr) : ph.perm < PGSIZE := by
  unfold Proghdr.perm
  split
  · decide
  · decide

variable {start last perm addr len : Nat} {next : MmState} {ph : Proghdr}

/-- The part of a page from an address on that lies before `last`. -/
theorem partSize_eq {la : Nat} (lower : la ≤ start) (upper : start ≤ la + PGSIZE)
    (more : start ≤ last) (small : la + PGSIZE < 2 ^ 32) :
    partSize (start - la) (la + PGSIZE) last = min last (la + PGSIZE) - start := by
  have page : wordSub PGSIZE (start - la) = PGSIZE - (start - la) :=
    wordSub_eq (by omega) (by decide)
  unfold partSize
  split
  · rw [wordSub_eq (by omega) small, wordSub_eq (by omega) (by omega)]
    omega
  · omega

section Pages

variable {la frame : Nat}

theorem segmentPage_ends {post : Nat → MmState → Prop}
    (filling : Filling dirs dir mm state) (below : pageNumber la < KERNPAGES) (fits : perm < PGSIZE)
    (fails : ∀ code next, failed code next) (stuck : ∀ fault, faulty (.mm fault))
    (done : ∀ frame next, PageStep (Filling dirs dir mm) dir (· = pageNumber la) state next →
      next.phys.mapped dir (pageNumber la) = some frame → post frame next) :
    CallEnds (segmentPage dir la perm) post failed faulty state := by
  rw [segmentPage, callEnds_bind, callEnds_onMm]
  apply filling.pgdirAllocPage below fits
  · exact done
  · exact fun _ => fails _ _
  · exact stuck

theorem writeFrame_ends {stop place : Nat} {source : Bytes}
    (filling : Filling dirs dir mm state) (below : pageNumber la < KERNPAGES)
    (aligned : la % PGSIZE = 0) (maps : state.phys.mapped dir (pageNumber la) = some frame)
    (lower : la ≤ start) (order : start ≤ stop) (upper : stop ≤ la + PGSIZE)
    (done : ∀ next, PageStep (Filling dirs dir mm) dir (· = pageNumber la) state next →
      next.phys.mapped dir (pageNumber la) = some frame →
      (∀ addr, start ≤ addr → addr < stop → addr < USERTOP →
        next.phys.userByte dir addr = some (source (place + (addr - start)))) →
      (∀ addr, la ≤ addr → addr < start → addr < USERTOP →
        next.phys.userByte dir addr = state.phys.userByte dir addr) → post () next) :
    CallEnds (writeFrame frame (start - la) (stop - start) source place) post failed faulty
      state := by
  have inside : start - la + (stop - start) ≤ PGSIZE := by omega
  obtain ⟨step, still, written⟩ := filling.write below maps
    ((state.phys.mem frame).blit (start - la) source place (stop - start))
  have here : ∀ addr, la ≤ addr → addr < la + PGSIZE →
      pageNumber addr = pageNumber la ∧ addr % PGSIZE = addr - la := by
    intro addr first last
    unfold pageNumber PGSIZE at *
    omega
  rw [writeFrame, if_pos inside, callEnds_modify]
  apply done _ step still
  · intro addr first last user
    obtain ⟨number, place'⟩ := here addr (by omega) (by omega)
    refine (written addr user number).trans ?_
    rw [place', Bytes.blit_inside source (by omega)]
    congr 3
    omega
  intro addr first last user
  obtain ⟨number, place'⟩ := here addr first (by omega)
  refine (written addr user number).trans ?_
  rw [place', Bytes.blit_outside source (by omega), userByte, number, maps, Option.map_some, place']

end Pages

/-! ## The loop that reads the file -/

/-- Where a loop over pages is, while it has bytes to fill. -/
structure OnCourse (cursor : Cursor) : Prop where
  lower : cursor.la ≤ cursor.start
  upper : cursor.start < cursor.la + PGSIZE
  aligned : cursor.la % PGSIZE = 0

/-- How far the loop that reads the file can have come. -/
def Reached (offset : Nat) (cursor : Cursor) : Prop :=
  cursor.la ≤ USERTOP ∨ cursor.start = cursor.la ∧ offset ≤ SFS_MAX_FILE_SIZE + PGSIZE ∧
    cursor.la ≤ USERTOP + PGSIZE + offset

theorem Reached.below (reached : Reached offset cursor) :
    cursor.la + PGSIZE < KERNPAGES * PGSIZE := by
  unfold Reached USERTOP PGSIZE SFS_MAX_FILE_SIZE at reached
  unfold KERNPAGES PGSIZE
  omega

/-- After the last page: the next one is the first that was not needed. -/
structure Stopped (dir last : Nat) (phys : PhysState) (result : Cursor) : Prop where
  start : result.start = last
  aligned : result.la % PGSIZE = 0
  lower : last ≤ result.la
  upper : result.la < last + PGSIZE
  below : result.la < KERNPAGES * PGSIZE
  page : ∃ frame, result.page = some frame ∧
    phys.mapped dir (pageNumber (result.la - PGSIZE)) = some frame

def PagesFor (start last page : Nat) : Prop :=
  start < last ∧ pageNumber start ≤ page ∧ page * PGSIZE < last

theorem PagesFor.contained {first final : Nat}
    (pages : PagesFor start last (pageNumber addr)) (lower : first ≤ start)
    (upper : last ≤ final) : rounddown first PGSIZE ≤ addr ∧ addr < pagesUp final := by
  obtain ⟨_, after, before⟩ := pages
  unfold pageNumber PGSIZE at *
  unfold rounddown pagesUp PGSIZE
  omega

/-- One round of a loop over pages: it fills its page up to `stop`. -/
structure Round (last stop : Nat) (cursor : Cursor) : Prop where
  course : OnCourse cursor
  below : cursor.la + PGSIZE < KERNPAGES * PGSIZE
  more : cursor.start < last
  stop_eq : stop = min last (cursor.la + PGSIZE)

namespace Round

variable {stop : Nat} (round : Round last stop cursor)

include round

theorem order : cursor.start < stop := by
  have upper := round.course.upper
  have more := round.more
  have isStop := round.stop_eq
  omega

theorem small : cursor.la + PGSIZE < 2 ^ 32 :=
  round.below.trans (by decide)

theorem inKernel : pageNumber cursor.la < KERNPAGES := by
  have below := round.below
  unfold pageNumber PGSIZE at *
  omega

theorem offset_eq : wordSub cursor.start cursor.la = cursor.start - cursor.la :=
  wordSub_eq round.course.lower (round.course.upper.trans round.small)

theorem size_eq : partSize (cursor.start - cursor.la) (cursor.la + PGSIZE) last =
    stop - cursor.start := by
  rw [partSize_eq round.course.lower round.course.upper.le round.more.le round.small, round.stop_eq]

theorem inside : cursor.start - cursor.la + (stop - cursor.start) ≤ PGSIZE := by
  have lower := round.course.lower
  have isStop := round.stop_eq
  have order := round.order
  omega

theorem advance : word (cursor.start + (stop - cursor.start)) = stop := by
  have isStop := round.stop_eq
  have order := round.order
  have small := round.small
  rw [word_eq (by omega)]
  omega

theorem next_start (more : stop < last) : stop = cursor.la + PGSIZE := by
  have isStop := round.stop_eq
  omega

theorem onCourse (more : stop < last) (page : Option Nat) :
    OnCourse ⟨stop, cursor.la + PGSIZE, page⟩ := by
  have start := round.next_start more
  have aligned := round.course.aligned
  refine ⟨start.ge, ?_, ?_⟩
  · exact start.trans_lt (Nat.lt_add_of_pos_right (by decide))
  · rw [Nat.add_mod_right]
    exact aligned

theorem untouched (early : addr < stop) : ¬ PagesFor stop last (pageNumber addr) := by
  rintro ⟨more, after, _⟩
  have start := round.next_start more
  have aligned := round.course.aligned
  unfold pageNumber PGSIZE at *
  omega

theorem step {formed : MmState → Prop} {middle : MmState}
    (first : PageStep formed dir (· = pageNumber cursor.la) state middle)
    (rest : PageStep formed dir (PagesFor stop last) middle next) :
    PageStep formed dir (PagesFor cursor.start last) state next := by
  obtain ⟨lower, upper, aligned⟩ := round.course
  refine (first.mono ?_).trans (rest.mono ?_)
  · rintro page rfl
    refine ⟨round.more, ?_, (Nat.div_mul_le_self _ _).trans_lt (lower.trans_lt round.more)⟩
    unfold pageNumber PGSIZE at *
    omega
  · rintro page ⟨_, after, before⟩
    exact ⟨round.more, (Nat.div_le_div_right round.order.le).trans after, before⟩

end Round

section Loops

theorem loadIcodeRead_ends
    (done : offset < SFS_MAX_FILE_SIZE → offset + len ≤ file.size → post () state)
    (fails : ∀ code, failed code state) :
    CallEnds (loadIcodeRead file len offset) post failed faulty state := by
  unfold loadIcodeRead
  split
  · exact fails _
  next near =>
  split
  · exact fails _
  split
  · next fits => exact done (Nat.lt_of_not_le near) fits
  · exact fails _

/-- The rounds that are left are enough for the pages up to `last`, and for the last test. -/
def Budget (last fuel : Nat) (cursor : Cursor) : Prop :=
  0 < fuel ∧ last + PGSIZE ≤ cursor.la + fuel * PGSIZE

theorem Budget.step {fuel start : Nat} {page : Option Nat} (budget : Budget last (fuel + 1) cursor)
    (more : cursor.la < last) : Budget last fuel ⟨start, cursor.la + PGSIZE, page⟩ := by
  obtain ⟨-, enough⟩ := budget
  simp only [Budget, PGSIZE] at enough ⊢
  omega

theorem budget_pageBudget (small : last < 2 ^ 32) (cursor : Cursor) :
    Budget last pageBudget cursor := by
  unfold Budget pageBudget PGSIZE
  omega

variable (fits : perm < PGSIZE) (fails : ∀ code next, failed code next)
  (stuck : ∀ fault : ExecFault, ¬ fault.Astray → faulty fault)

include fits fails stuck

theorem copyLoop_ends {post : Cursor → MmState → Prop} {fuel : Nat}
    (budget : Budget last fuel cursor) (filling : Filling dirs dir mm state)
    (ready : cursor.start < last → OnCourse cursor ∧ Reached offset cursor) (done : ∀ result next,
      PageStep (Filling dirs dir mm) dir (PagesFor cursor.start last) state next →
      (∀ addr, cursor.start ≤ addr → addr < last → addr < USERTOP →
        next.phys.userByte dir addr = some (file.bytes (offset + (addr - cursor.start)))) →
      (¬ cursor.start < last → result = cursor ∧ next = state) →
      (cursor.start < last → Stopped dir last next.phys result) → post result next) :
    CallEnds (copyLoop file dir perm last fuel offset cursor) post failed faulty state := by
  induction fuel generalizing offset cursor state with
  | zero => exact absurd budget.1 (lt_irrefl 0)
  | succ fuel induction =>
    rw [copyLoop, callEnds_ite]
    refine ⟨fun more => ?_, fun finished => ?_⟩
    · obtain ⟨course, reached⟩ := ready more
      obtain ⟨stop, round⟩ : ∃ stop, Round last stop cursor := ⟨_, course, reached.below, more, rfl⟩
      have isStop := round.stop_eq
      have order := round.order
      have lower := course.lower
      rw [callEnds_bind]
      apply segmentPage_ends filling round.inKernel fits fails fun _ => stuck _ id
      intro frame provided pageStep maps
      simp only [round.offset_eq, word_eq round.small, round.size_eq, round.advance]
      rw [callEnds_bind, readFrame, if_pos round.inside, callEnds_bind]
      apply loadIcodeRead_ends _ fun _ => fails _ _
      intro near _
      apply writeFrame_ends pageStep.formed round.inKernel course.aligned maps lower order.le
        (by omega)
      intro written writeStep still bytes _
      have room : SFS_MAX_FILE_SIZE + PGSIZE < 2 ^ 32 := by decide
      have nextOffset : word (offset + (stop - cursor.start)) =
          offset + (stop - cursor.start) := word_eq (by omega)
      rw [nextOffset]
      apply induction (budget.step (lower.trans_lt more)) writeStep.formed
      · intro more'
        have start := round.next_start more'
        refine ⟨round.onCourse more' _, .inr ⟨start, by omega, ?_⟩⟩
        -- a round that is not the first one reads a whole page
        have far : cursor.la + PGSIZE ≤ USERTOP + PGSIZE + (offset + (stop - cursor.start)) := by
          rcases reached with near | ⟨_, _, near⟩ <;> omega
        exact far
      intro result next rest bytes' idle busy
      apply done result next (round.step (pageStep.trans writeStep) rest)
      · intro addr first late user
        by_cases here : addr < stop
        · exact (rest.bytes user (round.untouched here)).trans (bytes addr first here user)
        refine (bytes' addr (Nat.le_of_not_lt here) late user).trans ?_
        congr 2
        dsimp only
        omega
      · exact fun finished => absurd more finished
      intro _
      by_cases more' : stop < last
      · exact busy more'
      obtain ⟨rfl, rfl⟩ := idle more'
      have isLast : stop = last := by omega
      refine ⟨isLast, ?_, ?_, ?_, reached.below, frame, rfl, ?_⟩
      · exact (Nat.add_mod_right _ _).trans course.aligned
      · exact (show last ≤ cursor.la + PGSIZE by omega)
      · exact (show cursor.la + PGSIZE < last + PGSIZE by omega)
      · rw [Nat.add_sub_cancel]
        exact still
    refine done cursor state (PageStep.refl filling) ?_ (fun _ => ⟨rfl, rfl⟩)
      (fun more => absurd more finished)
    intro addr first late
    omega

/-! ## The part that is cleared -/

theorem clearLoop_ends (user : last ≤ USERTOP) {fuel : Nat} (budget : Budget last fuel cursor)
    (filling : Filling dirs dir mm state)
    (ready : cursor.start < last → OnCourse cursor) (done : ∀ next,
      PageStep (Filling dirs dir mm) dir (PagesFor cursor.start last) state next →
      (∀ addr, cursor.start ≤ addr → addr < last →
        next.phys.userByte dir addr = some 0) → post () next) :
    CallEnds (clearLoop dir perm last fuel cursor) post failed faulty state := by
  induction fuel generalizing cursor state with
  | zero => exact absurd budget.1 (lt_irrefl 0)
  | succ fuel induction =>
    rw [clearLoop, callEnds_ite]
    refine ⟨fun more => ?_, fun finished => ?_⟩
    · have course := ready more
      have wide : USERTOP + PGSIZE < KERNPAGES * PGSIZE := by decide
      have lower := course.lower
      obtain ⟨stop, round⟩ : ∃ stop, Round last stop cursor := ⟨_, course, by omega, more, rfl⟩
      have isStop := round.stop_eq
      rw [callEnds_bind]
      apply segmentPage_ends filling round.inKernel fits fails fun _ => stuck _ id
      intro frame provided pageStep maps
      simp only [round.offset_eq, word_eq round.small, round.size_eq, round.advance]
      rw [callEnds_bind]
      apply writeFrame_ends pageStep.formed round.inKernel course.aligned maps lower
        round.order.le (by omega)
      intro written writeStep _ bytes _
      apply induction (budget.step (lower.trans_lt more)) writeStep.formed
        fun more' => round.onCourse more' _
      intro next rest bytes'
      apply done next (round.step (pageStep.trans writeStep) rest)
      intro addr first late
      by_cases here : addr < stop
      · exact (rest.bytes (by omega) (round.untouched here)).trans
          (bytes addr first here (by omega))
      · exact bytes' addr (Nat.le_of_not_lt here) late
    · refine done state (PageStep.refl filling) ?_
      intro addr first late
      omega

omit fits fails in
/-- The rest of the last page of the file.  It is only left when the end of the
segment lies before its file part. -/
theorem clearTail_ends {post : Cursor → MmState → Prop} (filling : Filling dirs dir mm state)
    (inPage : cursor.start < cursor.la) (stopped : Stopped dir cursor.start state.phys cursor)
    (wild : last < cursor.start → faulty .outsidePage) (done : ∀ result next,
      PageStep (Filling dirs dir mm) dir (· = pageNumber cursor.start) state next →
      result.la = cursor.la →
      (last < cursor.la ∧ result.start = last ∨ cursor.la ≤ last ∧ result.start = cursor.la) →
      (∀ addr, cursor.start ≤ addr → addr < result.start → addr < USERTOP →
        next.phys.userByte dir addr = some 0) →
      (∀ addr, addr < cursor.start → addr < USERTOP →
        next.phys.userByte dir addr = state.phys.userByte dir addr) → post result next) :
    CallEnds (clearTail last cursor) post failed faulty state := by
  obtain ⟨base, isBase⟩ : ∃ base, cursor.la = base + PGSIZE := by
    refine ⟨cursor.la - PGSIZE, ?_⟩
    have aligned := stopped.aligned
    unfold PGSIZE at *
    omega
  obtain ⟨frame, isFrame, maps⟩ := stopped.page
  have upper := stopped.upper
  have below := stopped.below
  have wide : KERNPAGES * PGSIZE < 2 ^ 32 := by decide
  have aligned : base % PGSIZE = 0 := by
    have := stopped.aligned
    rw [isBase, Nat.add_mod_right] at this
    exact this
  have number : pageNumber cursor.start = pageNumber base := by
    unfold pageNumber PGSIZE at *
    omega
  have inKernel : pageNumber base < KERNPAGES := by
    unfold pageNumber PGSIZE at *
    omega
  rw [isBase, Nat.add_sub_cancel] at maps
  have offset : wordSub (cursor.start + PGSIZE) cursor.la = cursor.start - base := by
    unfold wordSub word
    omega
  obtain ⟨size, isSize⟩ : ∃ size,
      partSize (wordSub (cursor.start + PGSIZE) cursor.la) cursor.la last = size := ⟨_, rfl⟩
  simp only [clearTail, isFrame, isSize]
  rw [offset] at isSize ⊢
  by_cases inside : cursor.start - base + size ≤ PGSIZE
  · have asStop : size = cursor.start + size - cursor.start := by omega
    rw [asStop, callEnds_bind]
    apply writeFrame_ends filling inKernel aligned maps (by omega) (by omega) (by omega)
    intro next step _ bytes kept
    rw [← asStop, callEnds_bind, callEnds_ensure, isSize, word_eq (by omega)]
    refine ⟨fun ended => ?_, fun _ => stuck _ id⟩
    refine done _ next (step.mono fun page is => is.trans number.symm) rfl ended bytes ?_
    intro addr early user
    by_cases here : base ≤ addr
    · exact kept addr here early user
    apply step.bytes user
    unfold pageNumber PGSIZE at *
    omega
  have outside : last < cursor.start := by
    by_contra order
    rw [isBase, partSize_eq (by omega) (by omega) (Nat.le_of_not_lt order) (by omega)] at isSize
    omega
  rw [callEnds_bind, writeFrame, if_neg inside]
  exact wild outside

/-- What `clearBss` leaves behind a file part that has been read. -/
structure BssCleared (dir start last : Nat) (state next : PhysState) : Prop where
  zero : ∀ addr, start ≤ addr → addr < last → next.userByte dir addr = some 0
  kept : ∀ addr, addr < USERTOP → addr < start ∨ ¬ PagesFor start last (pageNumber addr) →
    next.userByte dir addr = state.userByte dir addr

theorem clearBss_ends (user : last ≤ USERTOP) (filling : Filling dirs dir mm state)
    (either : Stopped dir cursor.start state.phys cursor ∨ OnCourse cursor)
    (wild : last < cursor.start → faulty .outsidePage)
    (done : ∀ next, Filling dirs dir mm next → next.mms = state.mms →
      (Stopped dir cursor.start state.phys cursor → cursor.start ≤ last →
        BssCleared dir cursor.start last state.phys next.phys) → post () next) :
    CallEnds (clearBss dir perm last cursor) post failed faulty state := by
  have below32 : last < 2 ^ 32 := user.trans_lt (by decide)
  rw [clearBss, callEnds_ite]
  refine ⟨fun inPage => ?_, fun atPage => ?_⟩
  · have stopped : Stopped dir cursor.start state.phys cursor := by
      refine either.resolve_right fun course => ?_
      have := course.lower
      omega
    rw [callEnds_ite]
    refine ⟨fun same => ?_, fun distinct => ?_⟩
    · refine done state filling rfl fun _ _ => ⟨fun addr first late => ?_, fun _ _ _ => rfl⟩
      omega
    rw [callEnds_bind]
    apply clearTail_ends stuck filling inPage stopped wild
    intro result middle tail la ended zero below
    apply clearLoop_ends fits fails stuck user (budget_pageBudget below32 _) tail.formed
    · intro more
      have start : result.start = result.la := by omega
      exact ⟨start.ge, start.trans_lt (Nat.lt_add_of_pos_right (by decide)), la ▸ stopped.aligned⟩
    intro next rest zero'
    have apart : ∀ addr, addr < cursor.start ∨ addr < result.start →
        ¬ PagesFor result.start last (pageNumber addr) := by
      rintro addr early ⟨more, after, _⟩
      have aligned := stopped.aligned
      unfold pageNumber PGSIZE at *
      omega
    refine done next rest.formed (rest.mms.trans tail.mms) fun _ order => ⟨?_, ?_⟩
    · intro addr first late
      by_cases here : addr < result.start
      · exact (rest.bytes (by omega) (apart addr (.inr here))).trans
          (zero addr first here (by omega))
      · exact zero' addr (Nat.le_of_not_lt here) late
    rintro addr isUser (early | elsewhere)
    · exact (rest.bytes isUser (apart addr (.inl early))).trans (below addr early isUser)
    have more : cursor.start < last := Nat.lt_of_le_of_ne order distinct
    refine (rest.bytes isUser ?_).trans (tail.bytes isUser ?_)
    · rintro ⟨more', after, before⟩
      refine elsewhere ⟨more, (Nat.div_le_div_right ?_).trans after, before⟩
      omega
    intro same
    refine elsewhere ⟨more, same.ge, ?_⟩
    rw [same]
    exact (Nat.div_mul_le_self _ _).trans_lt more
  apply clearLoop_ends fits fails stuck user (budget_pageBudget below32 _) filling
  · intro more
    rcases either with stopped | course
    · have lower := stopped.lower
      refine ⟨Nat.le_of_not_lt atPage, ?_, stopped.aligned⟩
      exact lower.trans_lt (Nat.lt_add_of_pos_right (by decide))
    · exact course
  intro next rest zero
  refine done next rest.formed rest.mms fun stopped order => ⟨zero, ?_⟩
  rintro addr isUser (early | elsewhere)
  · apply rest.bytes isUser
    rintro ⟨_, after, _⟩
    have lower := stopped.lower
    have aligned := stopped.aligned
    unfold pageNumber PGSIZE at *
    omega
  · exact rest.bytes isUser elsewhere

end Loops

/-! ## A segment -/

/-- An address space that is being filled, with its areas. -/
structure Loading (dirs : Finset Nat) (dir mm : Nat) (state : MmState) : Prop where
  filling : Filling dirs dir mm state
  ordered : VmasOrdered (state.mms mm).mmapList
  cached : (state.mms mm).Cached

theorem Loading.congr (loading : Loading dirs dir mm state) (filling : Filling dirs dir mm next)
    (mms : next.mms = state.mms) : Loading dirs dir mm next :=
  ⟨filling, mms ▸ loading.ordered, mms ▸ loading.cached⟩

/-- The segment is in user memory: its file part, and zeros after it. -/
structure SegmentLoaded (file : ExecFile) (ph : Proghdr) (dir : Nat) (phys : PhysState) : Prop where
  text : ∀ i < ph.pFilesz, phys.userByte dir (ph.pVa + i) = some (file.bytes (ph.pOffset + i))
  bss : ∀ i, ph.pFilesz ≤ i → i < ph.pMemsz → phys.userByte dir (ph.pVa + i) = some 0

/-- The list of areas has one more. -/
structure AreaAdded (vma : Vma) (old new : List Vma) : Prop where
  access : UserAccess vma.vmStart vma.vmEnd
  fits : VmaFits vma old
  mem : ∀ other, other ∈ new ↔ other = vma ∨ other ∈ old

theorem Loading.mmMap {vmFlags : Nat} {faulty : MmFault → Prop}
    (loading : Loading dirs dir mm state) (fails : ∀ code next, failed code next)
    (stuck : ∀ fault, faulty fault)
    (done : ∀ vma next, Loading dirs dir mm next → next.phys = state.phys →
      AreaAdded vma (state.mms mm).mmapList (next.mms mm).mmapList →
      vma.vmStart = rounddown addr PGSIZE → vma.vmEnd = roundup (word (addr + len)) PGSIZE →
      post () next) :
    CallEnds (mmMap mm addr len vmFlags) post failed faulty state := by
  apply mmMap_ends rfl rfl loading.ordered loading.cached
  · exact fun _ => fails _ _
  · exact fun _ _ _ _ => fails _ _
  · exact fun _ _ _ _ => fails _ _
  · exact fun _ _ _ _ => stuck _
  · intro access startFree block picked fits
    refine done ⟨block, _, _, vmFlags⟩ _ ⟨loading.filling.congr rfl ?_, ?_, ?_⟩ rfl
      ⟨access, fits, ?_⟩ rfl rfl
    · rw [mms_setMm]
      rfl
    · rw [mms_setMm]
      exact loading.ordered.link access.2.1 fits
    · rw [mms_setMm]
      exact fun vma isCached => mem_link.mpr (.inr (loading.cached vma isCached))
    · intro other
      rw [mms_setMm]
      exact mem_link
  · exact fun _ _ _ _ => stuck _

theorem le_roundup_of_access (access : UserAccess start (roundup last PGSIZE))
    (small : last < 2 ^ 32) : last ≤ roundup last PGSIZE := by
  have positive := access.2.1
  unfold roundup rounddown word PGSIZE at *
  omega

/-- The end of the segment wraps around to the page in which the segment starts. -/
def Proghdr.WrapsToItself (ph : Proghdr) : Prop :=
  2 ^ 32 ≤ ph.pVa + ph.pMemsz ∧ rounddown ph.pVa PGSIZE < word (ph.pVa + ph.pMemsz)

theorem loadSegment_ends (loading : Loading dirs dir mm state)
    (positive : 0 < ph.pFilesz) (sizes : ph.pFilesz ≤ ph.pMemsz)
    (fails : ∀ code next, failed code next)
    (stuck : ∀ fault : ExecFault, ¬ fault.Astray → faulty fault)
    (wild : ph.WrapsToItself → faulty .outsidePage)
    (done : ∀ vma next, Loading dirs dir mm next →
      AreaAdded vma (state.mms mm).mmapList (next.mms mm).mmapList →
      (¬ ph.WrapsToItself → SegmentLoaded file ph dir next.phys ∧
        vma.vmStart ≤ ph.pVa ∧ ph.pVa + ph.pMemsz ≤ vma.vmEnd ∧
        ∀ addr, addr < USERTOP → ¬ vma.Contains addr →
          next.phys.userByte dir addr = state.phys.userByte dir addr) →
      post () next) :
    CallEnds (loadSegment file mm dir ph) post failed faulty state := by
  have noFault : ∀ fault : MmFault, faulty (.mm fault) := fun _ => stuck _ id
  rw [loadSegment, callEnds_bind, callEnds_onMm]
  apply loading.mmMap fails noFault
  intro vma areas mapped phys added isStart isEnd
  have access := added.access
  have inUser : ph.pVa < USERTOP := by
    have first := access.2.1.trans_le access.2.2
    unfold rounddown PGSIZE USERTOP at *
    omega
  have memory : word (ph.pVa + ph.pMemsz) ≤ USERTOP := by
    rw [isEnd] at access
    exact (le_roundup_of_access access (Nat.mod_lt _ (by decide))).trans access.2.2
  have course : OnCourse ⟨ph.pVa, rounddown ph.pVa PGSIZE, none⟩ := by
    refine ⟨Nat.sub_le _ _, ?_, ?_⟩
    all_goals
      unfold rounddown PGSIZE
      dsimp only
      omega
  -- an end that wraps around to an earlier page was refused by `mm_map`
  have wraps : 2 ^ 32 ≤ ph.pVa + ph.pMemsz → ph.WrapsToItself := by
    intro large
    refine ⟨large, ?_⟩
    have nonempty := access.2.1
    rw [isStart, isEnd] at nonempty
    unfold roundup rounddown word PGSIZE at *
    omega
  have fileEnd : word (ph.pVa + ph.pFilesz) < 2 ^ 32 := Nat.mod_lt _ (by decide)
  rw [callEnds_bind]
  apply copyLoop_ends ph.perm_lt fails stuck (budget_pageBudget fileEnd _) mapped.filling
  · exact fun _ => ⟨course, .inl ((Nat.sub_le _ _).trans inUser.le)⟩
  intro cursor copied copy text idle busy
  dsimp only at copy text idle busy
  have ended : ph.pVa < word (ph.pVa + ph.pFilesz) →
      Stopped dir cursor.start copied.phys cursor := by
    intro more
    have stopped := busy more
    rwa [← stopped.start] at stopped
  have wordFile : ph.pVa + ph.pMemsz < 2 ^ 32 →
      word (ph.pVa + ph.pFilesz) = ph.pVa + ph.pFilesz := fun small => word_eq (by omega)
  have start : ph.pVa + ph.pMemsz < 2 ^ 32 → cursor.start = ph.pVa + ph.pFilesz := by
    intro small
    rw [(busy (by rw [wordFile small]; omega)).start, wordFile small]
  apply clearBss_ends ph.perm_lt fails stuck memory copy.formed
  · by_cases more : ph.pVa < word (ph.pVa + ph.pFilesz)
    · exact .inl (ended more)
    · rw [(idle more).1]
      exact .inr course
  · intro early
    apply wild
    by_contra plain
    have small : ph.pVa + ph.pMemsz < 2 ^ 32 := Nat.lt_of_not_le fun large => plain (wraps large)
    rw [start small, word_eq small] at early
    omega
  intro next filled mms cleared
  have list : next.mms = areas.mms := mms.trans copy.mms
  refine done vma next (mapped.congr filled list) (by rw [list]; exact added) ?_
  intro plain
  have small : ph.pVa + ph.pMemsz < 2 ^ 32 := Nat.lt_of_not_le fun large => plain (wraps large)
  have isLast : word (ph.pVa + ph.pMemsz) = ph.pVa + ph.pMemsz := word_eq small
  have isFile := wordFile small
  have bss := cleared (ended (by omega)) (by rw [start small]; omega)
  have last : vma.vmEnd = pagesUp (ph.pVa + ph.pMemsz) := by
    rw [isEnd]
    rw [isEnd] at access
    exact roundup_of_lt small access
  have inEnd := le_pagesUp (ph.pVa + ph.pMemsz)
  rw [start small, isLast] at bss
  rw [isFile] at text copy
  refine ⟨⟨?_, ?_⟩, ?_, inEnd.trans last.ge, ?_⟩
  · intro i inside
    have user : ph.pVa + i < USERTOP := by omega
    rw [bss.kept _ user (.inl (Nat.add_lt_add_left inside _)),
      text _ (Nat.le_add_right _ _) (Nat.add_lt_add_left inside _) user,
      Nat.add_sub_cancel_left]
  · intro i first inside
    exact bss.zero _ (Nat.add_le_add_left first _) (Nat.add_lt_add_left inside _)
  · rw [isStart]
    exact Nat.sub_le _ _
  intro addr user outside
  have apart : ∀ first final, ph.pVa ≤ first → final ≤ ph.pVa + ph.pMemsz →
      ¬ PagesFor first final (pageNumber addr) := by
    intro first final lower upper pages
    apply outside
    have inside := pages.contained lower upper
    rwa [← isStart, ← last] at inside
  refine (bss.kept addr user (.inr (apart _ _ (Nat.le_add_right _ _) le_rfl))).trans ?_
  refine (copy.bytes user (apart _ _ le_rfl (Nat.add_le_add_left sizes _))).trans ?_
  rw [phys]

/-! ## All segments -/

def ExecFile.header (file : ExecFile) (phnum : Nat) : Proghdr :=
  file.proghdr (file.elfhdr.phoff phnum)

def Proghdr.Loads (ph : Proghdr) : Prop := ph.pType = ELF_PT_LOAD ∧ 0 < ph.pFilesz

/-- No loaded segment wraps around to the page in which it starts. -/
def ExecFile.Plain (file : ExecFile) : Prop :=
  ∀ phnum < file.elfhdr.ePhnum, (file.header phnum).Loads → ¬ (file.header phnum).WrapsToItself

/-- A segment that has been loaded, inside one of the areas. -/
structure Settled (file : ExecFile) (ph : Proghdr) (mm dir : Nat) (state : MmState) : Prop where
  loaded : SegmentLoaded file ph dir state.phys
  area : ∃ vma ∈ (state.mms mm).mmapList, vma.vmStart ≤ ph.pVa ∧ ph.pVa + ph.pMemsz ≤ vma.vmEnd
  user : ph.pVa + ph.pMemsz ≤ USERTOP

theorem Settled.later (settled : Settled file ph mm dir state) (sizes : ph.pFilesz ≤ ph.pMemsz)
    {vma : Vma} (added : AreaAdded vma (state.mms mm).mmapList (next.mms mm).mmapList)
    (bytes : ∀ addr byte, addr < USERTOP → ¬ vma.Contains addr →
      state.phys.userByte dir addr = some byte → next.phys.userByte dir addr = some byte) :
    Settled file ph mm dir next := by
  obtain ⟨own, isOwn, first, last⟩ := settled.area
  have user := settled.user
  have outside : ∀ i < ph.pMemsz, ¬ vma.Contains (ph.pVa + i) := by
    rintro i inside ⟨lower, upper⟩
    rcases added.fits own isOwn with before | after <;> omega
  refine ⟨⟨?_, ?_⟩, ⟨own, (added.mem own).mpr (.inr isOwn), first, last⟩, user⟩
  · intro i inside
    exact bytes _ _ (by omega) (outside i (by omega)) (settled.loaded.text i inside)
  · intro i lower inside
    exact bytes _ _ (by omega) (outside i inside) (settled.loaded.bss i lower inside)

section Headers

def AllSettled (file : ExecFile) (mm dir count : Nat) (state : MmState) : Prop :=
  ∀ phnum < count, (file.header phnum).Loads →
    (file.header phnum).pFilesz ≤ (file.header phnum).pMemsz ∧
      Settled file (file.header phnum) mm dir state

variable (fails : ∀ code next, failed code next)
  (stuck : ∀ fault : ExecFault, ¬ fault.Astray → faulty fault)
  (wild : ¬ file.Plain → faulty .outsidePage)

include fails stuck wild

variable {phnum : Nat}

theorem loadProghdr_ends (inside : phnum < file.elfhdr.ePhnum) (loading : Loading dirs dir mm state)
    (settled : file.Plain → AllSettled file mm dir phnum state)
    (done : ∀ next, Loading dirs dir mm next →
      (file.Plain → AllSettled file mm dir (phnum + 1) next) → post () next) :
    CallEnds (loadProghdr file mm dir (file.header phnum)) post failed faulty state := by
  obtain ⟨ph, isPh⟩ : ∃ ph, file.header phnum = ph := ⟨_, rfl⟩
  have skip : ¬ ph.Loads → post () state := by
    intro skipped
    refine done state loading fun plain other early loads => ?_
    by_cases here : other = phnum
    · rw [here, isPh] at loads
      exact absurd loads skipped
    · exact settled plain other (by omega) loads
  rw [isPh, loadProghdr, callEnds_ite]
  refine ⟨fun other => skip fun loads => other loads.1, fun isLoad => ?_⟩
  rw [callEnds_ite]
  refine ⟨fun _ => fails _ _, fun sizes => ?_⟩
  rw [callEnds_ite]
  refine ⟨fun empty => skip fun loads => ?_, fun nonempty => ?_⟩
  · have := loads.2
    omega
  have loads : ph.Loads := ⟨not_not.mp isLoad, Nat.pos_of_ne_zero nonempty⟩
  apply loadSegment_ends loading loads.2 (Nat.le_of_not_lt sizes) fails stuck
  · exact fun wraps => wild fun plain => plain phnum inside (isPh ▸ loads) (isPh ▸ wraps)
  intro vma next loaded added kept
  refine done next loaded fun plain other early loads' => ?_
  have small := plain phnum inside (isPh ▸ loads)
  rw [isPh] at small
  obtain ⟨segment, first, last, bytes⟩ := kept small
  by_cases here : other = phnum
  · rw [here, isPh]
    exact ⟨Nat.le_of_not_lt sizes, segment, ⟨vma, (added.mem vma).mpr (.inl rfl), first, last⟩,
      last.trans added.access.2.2⟩
  obtain ⟨sizes', before⟩ := settled plain other (by omega) loads'
  exact ⟨sizes', before.later sizes' added fun addr byte user outside there =>
    (bytes addr user outside).trans there⟩

theorem loadProghdrs_ends {left : Nat} (total : phnum + left = file.elfhdr.ePhnum)
    (loading : Loading dirs dir mm state)
    (settled : file.Plain → AllSettled file mm dir phnum state)
    (done : ∀ next, Loading dirs dir mm next →
      (file.Plain → AllSettled file mm dir file.elfhdr.ePhnum next) → post () next) :
    CallEnds (loadProghdrs file mm dir left phnum) post failed faulty state := by
  induction left generalizing phnum state with
  | zero =>
    obtain rfl : phnum = file.elfhdr.ePhnum := by omega
    exact done state loading settled
  | succ left induction =>
    rw [loadProghdrs, callEnds_bind]
    apply loadIcodeRead_ends _ fun _ => fails _ _
    intro _ _
    rw [callEnds_bind]
    apply loadProghdr_ends fails stuck wild (by omega) loading settled
    intro next loaded settled'
    exact induction (by omega) loaded settled'

end Headers

/-! ## A new address space -/

theorem table_newDir_high {phys : PhysState} {boot index : Nat} (high : HighTable index) :
    (phys.newDir boot dir).table dir index = phys.table boot index := by
  have inside := high.2
  unfold KERNTABLES at inside
  rw [table, newDir, entry_setEntry_of_ne (.inr (by unfold VPT_INDEX; omega))]
  exact congrArg entryFrame (entry_copied (phys.take dir) dir boot (by omega))

theorem newSpace_high : CallEnds newSpace
      (fun mm next => ∀ dir, (next.mms mm).pgdir = some dir → ∀ index, HighTable index →
        next.phys.table dir index = state.phys.table state.bootPgdir index)
      (fun _ _ => True) (fun _ => True) state := by
  rw [newSpace, callEnds_bind, mmCreate, callEnds_bind, callEnds_kmalloc]
  refine ⟨fun _ => ⟨fun _ => trivial, fun _ => trivial⟩, fun mm _ => ?_⟩
  have failing : ∀ next : MmState, CallEnds (do mmDestroy mm; throw (-E_NO_MEM) : MmCall Nat)
      (fun mm next => ∀ dir, (next.mms mm).pgdir = some dir → ∀ index, HighTable index →
        next.phys.table dir index = state.phys.table state.bootPgdir index)
      (fun _ _ => True) (fun _ => True) next := by
    intro next
    rw [callEnds_bind]
    exact CallEnds.of_forall (fun _ _ => trivial) (fun _ _ => trivial) fun _ => trivial
  rw [callEnds_bind, callEnds_modify, callEnds_pure, callEnds_bind, callEnds_attempt, setupPgdir,
    callEnds_bind, callEnds_onPhys, callEnds_allocPage]
  refine ⟨fun page _ => ?_, fun _ => ⟨fun _ => trivial, fun _ => failing _⟩⟩
  simp only [callEnds_bind, callEnds_get, callEnds_onPhys, fillPgdir, kaddr, callEnds_ensure,
    callEnds_pure, copyPageBytes, callEnds_modify, writePte, ppn_page2pa, implies_true, and_true]
  intro _ dir isDir index high
  rw [mms_setMm] at isDir
  obtain rfl : page = dir := Option.some.inj isDir
  exact table_newDir_high high

/-- Well-formed memory, and a directory of the kernel without page tables below the
kernel. -/
structure MemoryOk (state : MmState) : Prop where
  paged : ∃ dirs role, Paged state.phys dirs role none ∧ BootOk state.phys role state.bootPgdir
  clear : ∀ index, HighTable index → state.phys.table state.bootPgdir index = none

theorem newSpace_loading (memory : MemoryOk state) : CallEnds newSpace
      (fun mm fresh => ∀ dir, (fresh.mms mm).pgdir = some dir → ∃ dirs, Loading dirs dir mm fresh)
      (fun _ _ => True) (fun _ => True) state := by
  obtain ⟨dirs, role, paged, boot⟩ := memory.paged
  have made : CallEnds newSpace
      (fun mm fresh => ∃ dir role', SpaceMade dirs state role mm dir fresh role')
      (fun _ _ => True) (fun _ => True) state := by
    apply newSpace_ends paged boot
    · exact fun mm dir next role' space => ⟨dir, role', space⟩
    · exact fun _ _ => trivial
    · trivial
  refine (made.and newSpace_high).mono ?_ (fun _ _ _ => trivial) (fun _ _ => trivial)
  rintro mm fresh ⟨⟨dir, role', space⟩, high⟩ dir' isDir
  rw [space.struct] at isDir
  obtain rfl : dir = dir' := Option.some.inj isDir
  have pgdir : (fresh.mms mm).pgdir = some dir := by rw [space.struct]
  have absent : ∀ {index}, HighTable index → fresh.phys.table dir index = none :=
    fun isHigh => (high dir pgdir _ isHigh).trans (memory.clear _ isHigh)
  have unmapped : ∀ {page}, fresh.phys.table dir (page / 1024) = none →
      fresh.phys.mapped dir page = none := by
    intro page missing
    rw [mapped, pte_of_none missing, entryFrame_zero]
  have member : dir ∈ insert dir dirs := Finset.mem_insert_self _ _
  have unused : ∀ use : HighUse, use.High → fresh.phys.use dir use = none := by
    rintro (index | page) isHigh
    · exact absent isHigh
    · exact unmapped (absent (HighPage.table isHigh))
  refine ⟨insert dir dirs, ⟨pgdir, member, ⟨role', space.made.paged, ?_, ?_, ?_⟩, ?_⟩, ?_, ?_⟩
  · exact space.made.paged.isDir member
  · exact fun use _ isHigh found => by cases (unused use isHigh).symm.trans found
  · exact fun use _ _ isHigh _ found => by cases (unused use isHigh).symm.trans found
  · constructor
    intro page frame inside maps
    cases (unmapped (space.made.clear _ (page_table_lt inside))).symm.trans maps
  · rw [space.struct]
    exact ⟨List.Pairwise.nil, fun _ isMember => by cases isMember⟩
  · rw [space.struct]
    exact fun _ isCached => by cases isCached

end Exec

end UcoreSmp
