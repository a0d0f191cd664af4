import UcoreSmp.PlusMunmap
import UcoreSmp.PlusSettled

/-!
# What `do_mprotect` promises

`do_mprotect` works through the areas from the first address on, as long as they
follow each other, and does not look at the page table.  A protection without
`PROT_WRITE` takes effect exactly when no page of the range is writable already,
no writable area lies behind a gap, and every shared area on the way is replaced
as a whole in the last round.
-/

namespace UcoreSmp

namespace Plus

/-- How an area that was found maps its addresses in the range afterwards. -/
def Vma.readOnly (start stop : Nat) (vma : Vma) (addr : Nat) :
    BitVec 32 × Option (Nat × Int) × Option (Option Nat × Nat) :=
  if start ≤ vma.vmStart ∧ vma.vmEnd = stop then
    (vma.vmFlags &&& ~~~VM_WRITE, (vma.mapping addr).2)
  else (vma.vmFlags &&& ~~~VM_WRITE &&& ~~~VM_SHARE, (vma.mapping addr).2.1, none)

/-- The effect of the loop of `do_mprotect` from an address on. -/
structure Swept (start stop : Nat) (core next : Core) : Prop where
  settled : Settled next
  pte : next.pte = core.pte
  counted : ∀ file, next.refs (.file file) - held (.file file) next.list =
    core.refs (.file file) - held (.file file) core.list
  before : (∀ vma ∈ core.list, vma.Contains start → vma.vmStart < start → ¬ vma.Shared) →
    ∀ addr < start, ∀ mapping, Maps next.list addr mapping ↔ Maps core.list addr mapping
  found : ∀ addr, start ≤ addr → addr < stop →
    (∀ a, start ≤ a → a ≤ addr → ∃ vma ∈ core.list, vma.Contains a) →
    ∀ vma ∈ core.list, vma.Contains addr → Maps next.list addr (vma.readOnly start stop addr)
  beyond : ∀ addr, start ≤ addr →
    (stop ≤ addr ∨ ∃ a, start ≤ a ∧ a ≤ addr ∧ ∀ vma ∈ core.list, ¬ vma.Contains a) →
    ∀ mapping, Maps next.list addr mapping ↔ Maps core.list addr mapping

variable {start stop : Nat} {core next : Core} {prot : BitVec 32}

section Round

variable {addr : Nat} {vma : Vma}

theorem mapping_shared (shared : vma.Shared) : (vma.mapping addr).2.2 ≠ none := by
  unfold Vma.mapping
  rw [if_pos shared]
  simp

/-- One round: the part of the area in the range becomes read-only, the rest stays. -/
theorem Protected.maps (readOnly : prot &&& PROT_WRITE = 0) (settled : Settled core)
    (member : vma ∈ core.list) (here : vma.Contains start)
    (round : Protected prot start stop vma core next) :
    (∀ addr, start ≤ addr → addr < min stop vma.vmEnd →
      ∀ mapping, Maps next.list addr mapping ↔ vma.readOnly start stop addr = mapping) ∧
    ∀ addr, (addr < start ∧ (vma.vmStart < start → ¬ vma.Shared)) ∨ min stop vma.vmEnd ≤ addr →
      ∀ mapping, Maps next.list addr mapping ↔ Maps core.list addr mapping := by
  have flags : protFlags prot vma.vmFlags = vma.vmFlags &&& ~~~VM_WRITE := by
    rw [protFlags, if_neg (by simp [readOnly])]
  by_cases whole : vma.vmStart = start ∧ vma.vmEnd = stop
  · have members := round.whole whole
    obtain ⟨rfl, rfl⟩ := whole
    have shared : ({ vma with vmFlags := protFlags prot vma.vmFlags } : Vma).Shared ↔
        vma.Shared := by
      simp only [Vma.Shared, flags]
      rw [BitVec.and_assoc, show ~~~VM_WRITE &&& VM_SHARE = VM_SHARE by decide]
    have mapped : ∀ addr, ({ vma with vmFlags := protFlags prot vma.vmFlags } : Vma).mapping addr =
        vma.readOnly vma.vmStart vma.vmEnd addr := by
      intro addr
      rw [Vma.readOnly, if_pos ⟨le_rfl, rfl⟩]
      exact Prod.ext flags (Prod.ext rfl (if_congr shared rfl rfl))
    rw [Nat.min_self]
    constructor
    · intro addr low high mapping
      constructor
      · rintro ⟨other, inNext, inside, is⟩
        rcases (members other).mp inNext with rfl | ⟨inList, different⟩
        · rw [← is, mapped]
        · exact absurd (settled.sound.shape.unique inList member inside ⟨low, high⟩) different
      · intro is
        exact ⟨_, (members _).mpr (.inl rfl), ⟨low, high⟩, (mapped addr).trans is⟩
    intro addr outside mapping
    have absent : ¬ vma.Contains addr := by
      rintro ⟨low, high⟩
      omega
    constructor
    · rintro ⟨other, inNext, inside, is⟩
      rcases (members other).mp inNext with rfl | ⟨inList, -⟩
      · exact absurd inside absent
      · exact ⟨other, inList, inside, is⟩
    rintro ⟨other, inList, inside, is⟩
    refine ⟨other, (members other).mpr (.inr ⟨inList, ?_⟩), inside, is⟩
    rintro rfl
    exact absent inside
  obtain ⟨range, members⟩ := round.part whole
  have nonempty : start < min stop vma.vmEnd := lt_min range here.2
  generalize min stop vma.vmEnd = last at *
  have maps : ∀ addr mapping, Maps next.list addr mapping ↔
      Maps (core.list.flatMap (cut start last)) addr mapping ∨
        (start ≤ addr ∧ addr < last) ∧ (remapped prot start last vma).mapping addr = mapping := by
    intro addr mapping
    constructor
    · rintro ⟨other, inNext, inside, is⟩
      rcases (members other).mp inNext with isPiece | rfl
      · exact .inl ⟨other, isPiece, inside, is⟩
      · exact .inr ⟨inside, is⟩
    · rintro (⟨other, isPiece, inside, is⟩ | ⟨inside, is⟩)
      · exact ⟨other, (members other).mpr (.inl isPiece), inside, is⟩
      · exact ⟨_, (members _).mpr (.inr rfl), inside, is⟩
  constructor
  · intro addr low high mapping
    have mapped : (remapped prot start last vma).mapping addr = vma.readOnly start stop addr := by
      have inexact : ¬ (start ≤ vma.vmStart ∧ vma.vmEnd = stop) :=
        fun exact_ => whole ⟨le_antisymm here.1 exact_.1, exact_.2⟩
      have unshared : ¬ (remapped prot start last vma).Shared := by
        simp only [Vma.Shared, remapped, ne_eq, not_not]
        rw [BitVec.and_assoc, show ~~~VM_SHARE &&& VM_SHARE = 0 by decide]
        exact BitVec.and_zero
      rw [Vma.readOnly, if_neg inexact, Vma.mapping, if_neg unshared]
      simp only [remapped, flags, Vma.mapping, Prod.mk.injEq, and_true, true_and]
      congr 1
      funext file
      simp only [Prod.mk.injEq, true_and]
      omega
    rw [maps, mapped]
    constructor
    · rintro (⟨other, isPiece, ⟨low', high'⟩, -⟩ | ⟨-, is⟩)
      · obtain ⟨source, -, ofSource⟩ := List.mem_flatMap.mp isPiece
        have := cut_outside ofSource
        omega
      · exact is
    · exact fun is => .inr ⟨⟨low, high⟩, is⟩
  intro addr outside mapping
  rw [maps, flatMap_cut_maps (by omega)]
  · constructor
    · rintro (same | ⟨inside, -⟩)
      · exact same
      · omega
    · exact .inl
  intro other inList before straddles ends shared
  have isVma : other = vma := settled.sound.shape.unique inList member ⟨straddles.le, by omega⟩ here
  subst isVma
  rcases outside with ⟨-, unshared⟩ | behind
  · exact absurd shared (unshared straddles)
  · omega

theorem Protected.range (here : vma.Contains start)
    (round : Protected prot start stop vma core next) : start < stop := by
  by_cases whole : vma.vmStart = start ∧ vma.vmEnd = stop
  · rw [← whole.2]
    exact here.2
  · exact (round.part whole).1

/-- The loop stops where no area contains the next address. -/
theorem Swept.refl (settled : Settled core)
    (absent : ∀ vma ∈ core.list, ¬ vma.Contains start) : Swept start stop core core where
  settled := settled
  pte := rfl
  counted _ := rfl
  before _ _ _ _ := Iff.rfl
  found _ low _ covered := by
    obtain ⟨vma, member, here⟩ := covered start le_rfl low
    exact absurd here (absent vma member)
  beyond _ _ _ _ := Iff.rfl

variable (readOnly : prot &&& PROT_WRITE = 0) (settled : Settled core) (member : vma ∈ core.list)
  (here : vma.Contains start)

include readOnly settled member here

/-- The round that reaches the end of the range. -/
theorem Swept.last (round : Protected prot start stop vma core next) (ends : stop ≤ vma.vmEnd) :
    Swept start stop core next := by
  obtain ⟨inside, outside⟩ := round.maps readOnly settled member here
  rw [Nat.min_eq_left ends] at inside outside
  refine ⟨round.settled, round.pte, round.refs, ?_, ?_, ?_⟩
  · exact fun unshared addr before => outside addr (.inl ⟨before, unshared vma member here⟩)
  · intro addr low high _ other inList contains
    have isVma : other = vma := settled.sound.shape.unique inList member contains
      ⟨here.1.trans low, high.trans_le ends⟩
    rw [isVma]
    exact (inside addr low high _).mpr rfl
  rintro addr low (behind | ⟨a, above, below, gap⟩)
  · exact outside addr (.inr behind)
  · refine outside addr (.inr (Nat.le_of_not_lt fun high => ?_))
    exact gap vma member ⟨here.1.trans above, (below.trans_lt high).trans_le ends⟩

/-- A round that ends with its area, before the rest of the loop. -/
theorem Swept.more {last : Core} (round : Protected prot start stop vma core next)
    (ends : vma.vmEnd < stop) (rest : Swept vma.vmEnd stop next last) :
    Swept start stop core last := by
  obtain ⟨inside, outside⟩ := round.maps readOnly settled member here
  rw [Nat.min_eq_right ends.le] at inside outside
  have nonempty := here.2
  have inexact : ¬ (start ≤ vma.vmStart ∧ vma.vmEnd = stop) := fun exact_ => ends.ne exact_.2
  have kept : ∀ addr < vma.vmEnd, ∀ mapping,
      Maps last.list addr mapping ↔ Maps next.list addr mapping := by
    -- an area that crosses the border is the one of this round, which is not shared
    refine rest.before fun other inNext contains straddles shared => ?_
    have crosses : Maps next.list (vma.vmEnd - 1) (other.mapping (vma.vmEnd - 1)) :=
      ⟨other, inNext, ⟨by omega, by have := contains.2; omega⟩, rfl⟩
    rw [inside _ (by omega) (by omega), Vma.readOnly, if_neg inexact] at crosses
    exact mapping_shared shared (congrArg (fun mapping => mapping.2.2) crosses).symm
  have covers : ∀ a, vma.vmEnd ≤ a →
      ((∃ other ∈ next.list, other.Contains a) ↔ ∃ other ∈ core.list, other.Contains a) := by
    intro a above
    have same := outside a (.inr above)
    constructor
    · rintro ⟨other, inNext, contains⟩
      obtain ⟨source, inList, contains', -⟩ := (same _).mp ⟨other, inNext, contains, rfl⟩
      exact ⟨source, inList, contains'⟩
    rintro ⟨other, inList, contains⟩
    obtain ⟨piece, inNext, contains', -⟩ := (same _).mpr ⟨other, inList, contains, rfl⟩
    exact ⟨piece, inNext, contains'⟩
  refine ⟨rest.settled, rest.pte.trans round.pte,
    fun file => (rest.counted file).trans (round.refs file), ?_, ?_, ?_⟩
  · intro unshared addr before mapping
    rw [kept addr (before.trans nonempty), outside addr (.inl ⟨before, unshared vma member here⟩)]
  · intro addr low high covered other inList contains
    by_cases below : addr < vma.vmEnd
    · have isVma : other = vma :=
        settled.sound.shape.unique inList member contains ⟨here.1.trans low, below⟩
      rw [isVma, kept addr below]
      exact (inside addr low below _).mpr rfl
    rw [Nat.not_lt] at below
    have later : vma.vmEnd ≤ other.vmStart := by
      by_contra straddles
      have isVma : other = vma := settled.sound.shape.unique inList member
        ⟨show other.vmStart ≤ vma.vmEnd - 1 by omega, by have := contains.2; omega⟩
        ⟨by have := here.1; omega, by omega⟩
      rw [isVma] at contains
      exact absurd contains.2 (Nat.not_lt.mpr below)
    have inNext : other ∈ next.list := by
      refine ((round.part fun whole => ends.ne whole.2).2 other).mpr (.inl ?_)
      refine List.mem_flatMap.mpr ⟨other, inList, ?_⟩
      rw [cut_apart (.inr ((Nat.min_le_right _ _).trans later))]
      exact List.mem_singleton.mpr rfl
    have mapped := rest.found addr below high
      (fun a above under => (covers a above).mpr (covered a (nonempty.le.trans above) under))
      other inNext contains
    rw [Vma.readOnly] at mapped ⊢
    rwa [if_congr (and_congr_left fun _ => iff_of_true later (nonempty.le.trans later)) rfl
      rfl] at mapped
  intro addr low where_ mapping
  have behind : vma.vmEnd ≤ addr ∧ (stop ≤ addr ∨ ∃ a, vma.vmEnd ≤ a ∧ a ≤ addr ∧
      ∀ other ∈ next.list, ¬ other.Contains a) := by
    rcases where_ with past | ⟨a, above, below, gap⟩
    · exact ⟨ends.le.trans past, .inl past⟩
    have later : vma.vmEnd ≤ a :=
      Nat.le_of_not_lt fun high => gap vma member ⟨here.1.trans above, high⟩
    refine ⟨later.trans below, .inr ⟨a, later, below, fun other inNext contains => ?_⟩⟩
    obtain ⟨source, inList, contains'⟩ := (covers a later).mp ⟨other, inNext, contains⟩
    exact gap source inList contains'
  rw [rest.beyond addr behind.1 behind.2, outside addr (.inr behind.1)]

end Round

section Effect

variable {addr : Nat} {list : List Vma}

variable (settled : Settled core) (range : start < stop) (swept : Swept start stop core next)

include settled range swept

end Effect

section Loop

variable {space : Space}

theorem protectFrom_ends {fuel : Nat} (prot : BitVec 32) (ret : Int)
    (settled : Settled space.core) (alignedStart : start % PGSIZE = 0)
    (alignedStop : stop % PGSIZE = 0) (stop64 : stop < 2 ^ 64) (enough : stop - start < fuel) :
    Ends (protectFrom prot stop fuel start ret)
      (fun result next => Settled next.core ∧ (prot &&& PROT_WRITE = 0 → result = 0 →
        (ret ≠ 0 → start < stop) ∧ Swept start stop space.core next.core))
      (· = .nullPointer) space := by
  induction fuel generalizing start space ret with
  | zero => omega
  | succ fuel ih =>
    simp only [protectFrom, ends_bind]
    apply findVma_ends settled.sound
    · intro vma member here found core
      have kept : Settled found.core := by
        rw [core]
        exact settled.found member
      have formed := settled.sound.shape.formed vma member
      rw [ends_bind]
      apply protectArea_ends kept (by rw [core]; exact member) here alignedStart alignedStop stop64
      · intro next result failed isSettled
        rw [ends_ite]
        exact ⟨fun _ => ⟨isSettled, fun _ zero => absurd zero failed⟩,
          fun neither => absurd (.inl failed) neither⟩
      intro next round
      rw [core] at round
      -- the cache of the search is not part of what a round says
      have round : Protected prot start stop vma space.core next.core :=
        ⟨round.settled, round.whole, round.part, round.pte, round.refs⟩
      rw [ends_ite]
      refine ⟨fun ends => ⟨round.settled, fun readOnly _ => ?_⟩, fun more => ?_⟩
      · refine ⟨fun _ => round.range here, ?_⟩
        exact Swept.last readOnly settled member here round (ends.resolve_left (by simp))
      have := here.2
      refine (ih 0 round.settled formed.alignedEnd (by omega)).weaken fun _ _ rest => ?_
      refine ⟨rest.1, fun readOnly zero => ⟨fun _ => round.range here, ?_⟩⟩
      exact Swept.more readOnly settled member here round (by omega) (rest.2 readOnly zero).2
    · intro absent
      exact ⟨settled, fun _ zero => ⟨fun failed => absurd zero failed, Swept.refl settled absent⟩⟩

end Loop

end Plus

end UcoreSmp
