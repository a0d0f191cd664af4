import UcoreSmp.KernelTriple
import Mathlib.Data.UInt

/-!
# The multiprocessor configuration table

`kern/mp/mp.c` looks for the table that the firmware left in memory and scans
its entries.  An entry says by its type how long it is.  Memory is read by
kernel virtual address; `KADDR` keeps the addresses so low that the cursor of
the scan cannot wrap.
-/

namespace UcoreSmp.Mp

/-- What `mpinit` reads: memory, the number of page frames and port `0x23`. -/
structure Machine where
  memory : Nat → UInt8
  npage : Nat
  imcr : UInt8

/-- What `mpinit` writes, with the bytes it puts on ports. -/
structure CpuTable where
  cpus : Nat → UInt8
  ncpu : Nat
  ioapicid : UInt8
  lapic : Nat
  outb : List (Nat × UInt8)

/-- The panics of `KADDR` and `mpinit`, and a scan that outlasts its budget. -/
inductive MpFault where
  | invalidPa
  | notSmp
  | unsuitable
  | outOfBudget
  deriving DecidableEq

def MPPROC : UInt8 := 0x00
def MPBUS : UInt8 := 0x01
def MPIOAPIC : UInt8 := 0x02
def MPIOINTR : UInt8 := 0x03
def MPLINTR : UInt8 := 0x04

section Search

variable (machine : Machine)

def kaddr (pa : Nat) : Except MpFault Nat :=
  if machine.npage ≤ pa / 4096 then throw .invalidPa else pure (pa + 0xC0000000)

def bytes (addr len : Nat) : List UInt8 :=
  (List.range len).map fun i => machine.memory (addr + i)

/-- The little-endian number in the `len` bytes at `addr`. -/
def word (addr len : Nat) : Nat :=
  (bytes machine addr len).foldr (fun byte high => byte.toNat + 256 * high) 0

def sum (addr len : Nat) : UInt8 :=
  (bytes machine addr len).sum

def mpsearch1 (a len : Nat) : Except MpFault (Option Nat) := do
  let addr ← kaddr machine a
  pure (((List.range ((len + 15) / 16)).map (addr + 16 * ·)).find? fun p =>
    bytes machine p 4 = [0x5F, 0x4D, 0x50, 0x5F] ∧ sum machine p 16 = 0)

def mpsearch : Except MpFault (Option Nat) := do
  let bda ← kaddr machine 0x400
  let ebda := word machine (bda + 0x0E) 2 * 16
  let p := word machine (bda + 0x13) 2 * 1024
  let found ← if ebda ≠ 0 then mpsearch1 machine ebda 1024
    else mpsearch1 machine ((p + 2 ^ 32 - 1024) % 2 ^ 32) 1024
  match found with
  | some mp => pure (some mp)
  | none => mpsearch1 machine 0xF0000 0x10000

/-- The floating pointer structure and the configuration table it names. -/
def mpconfig : Except MpFault (Option (Nat × Nat)) := do
  match ← mpsearch machine with
  | none => pure none
  | some mp =>
    let physaddr := word machine (mp + 4) 4
    if physaddr = 0 then pure none
    else do
      let conf ← kaddr machine physaddr
      if bytes machine conf 4 ≠ [0x50, 0x43, 0x4D, 0x50] then pure none
      else if machine.memory (conf + 6) ≠ 1 ∧ machine.memory (conf + 6) ≠ 4 then pure none
      else if sum machine conf (word machine (conf + 4) 2) ≠ 0 then pure none
      else pure (some (mp, conf))

end Search

def CpuTable.addCpu (table : CpuTable) (apicid : UInt8) : CpuTable :=
  if table.ncpu < 8 then
    { table with cpus := Function.update table.cpus table.ncpu apicid, ncpu := table.ncpu + 1 }
  else table

/-- The loop of `mpinit` over the entries from `p` to `e`; it returns `ismp`. -/
def scanEntries (memory : Nat → UInt8) (e : Nat) : Nat → Nat → Bool → Routine MpFault CpuTable Bool
  | 0, _, _ => throw .outOfBudget
  | budget + 1, p, ismp =>
    if p < e then
      if memory p = MPPROC then do
        modify fun table => table.addCpu (memory (p + 1))
        scanEntries memory e budget (p + 20) ismp
      else if memory p = MPIOAPIC then do
        modify fun table => { table with ioapicid := memory (p + 1) }
        scanEntries memory e budget (p + 8) ismp
      else if memory p = MPBUS ∨ memory p = MPIOINTR ∨ memory p = MPLINTR then
        scanEntries memory e budget (p + 8) ismp
      -- `break` leaves the `switch`, and the cursor stays where it is.
      else scanEntries memory e budget p false
    else pure ismp

/-- The end of `mpinit`, where `mp->imcrp` asks for a write to the IMCR. -/
def finishInit (machine : Machine) (mp : Nat) (ismp : Bool) : Routine MpFault CpuTable PUnit := do
  check (ismp = true) .unsuitable
  if machine.memory (mp + 11) ≠ 0 then
    modify fun table =>
      { table with outb := (0x23, machine.imcr ||| 1) :: (0x22, 0x70) :: table.outb }
  else pure PUnit.unit

def mpinit (machine : Machine) (budget : Nat) : Routine MpFault CpuTable PUnit := do
  match ← mpconfig machine with
  | none => throw .notSmp
  | some (mp, conf) =>
    modify fun table => { table with lapic := word machine (conf + 36) 4 }
    let ismp ← scanEntries machine.memory (conf + word machine (conf + 4) 2) budget (conf + 44) true
    finishInit machine mp ismp

/-- The length of an entry of a known type. -/
def stride (type : UInt8) : Option Nat :=
  if type = MPPROC then some 20
  else if type = MPIOAPIC then some 8
  else if type = MPBUS ∨ type = MPIOINTR ∨ type = MPLINTR then some 8 else none

/-- Known entries at these addresses lead from `p` to `q`, each starting
before `e`. -/
inductive Walk (memory : Nat → UInt8) (e : Nat) : Nat → List Nat → Nat → Prop
  | nil {p : Nat} : Walk memory e p [] p
  | cons {p q len : Nat} {rest : List Nat} : p < e → stride (memory p) = some len →
      Walk memory e (p + len) rest q → Walk memory e p (p :: rest) q

/-- The effect of a known entry. -/
def visit (memory : Nat → UInt8) (table : CpuTable) (p : Nat) : CpuTable :=
  if memory p = MPPROC then table.addCpu (memory (p + 1))
  else if memory p = MPIOAPIC then { table with ioapicid := memory (p + 1) } else table

/-- The ids in the processor entries among those at the given addresses. -/
def apicids (memory : Nat → UInt8) (entries : List Nat) : List UInt8 :=
  (entries.filter (memory · = MPPROC)).map fun p => memory (p + 1)

variable {entries : List Nat}

section Scan

variable {memory : Nat → UInt8} {e p q : Nat} {table : CpuTable}

theorem scanEntries_known {len : Nat} (inside : p < e) (known : stride (memory p) = some len)
    (budget : Nat) (ismp : Bool) : scanEntries memory e (budget + 1) p ismp table =
      scanEntries memory e budget (p + len) ismp (visit memory table p) := by
  rw [scanEntries, if_pos inside]
  unfold stride at known
  unfold visit
  split_ifs at known ⊢
  all_goals cases known
  all_goals rfl

theorem scanEntries_walk (walk : Walk memory e p entries q) (budget : Nat) (ismp : Bool) :
    scanEntries memory e (entries.length + budget) p ismp table =
      scanEntries memory e budget q ismp (entries.foldl (visit memory) table) := by
  induction walk generalizing table with
  | nil => rw [List.length_nil, Nat.zero_add, List.foldl_nil]
  | cons inside known _ ih =>
    rw [List.length_cons, Nat.add_right_comm, scanEntries_known inside known, ih, List.foldl_cons]

theorem scanEntries_unknown (inside : q < e) (unknown : stride (memory q) = none) (budget : Nat)
    (ismp : Bool) : scanEntries memory e budget q ismp table = .error .outOfBudget := by
  induction budget generalizing ismp with
  | zero => rfl
  | succ budget ih =>
    rw [scanEntries, if_pos inside]
    unfold stride at unknown
    split_ifs at unknown ⊢
    exact ih false

/-- A scan that arrives at an unknown entry never leaves it. -/
theorem scanEntries_diverges (walk : Walk memory e p entries q) (inside : q < e)
    (unknown : stride (memory q) = none) (budget : Nat) (ismp : Bool) :
    scanEntries memory e budget p ismp table = .error .outOfBudget := by
  induction walk generalizing budget table with
  | nil => exact scanEntries_unknown inside unknown budget ismp
  | cons before known _ ih =>
    cases budget with
    | zero => rfl
    | succ budget =>
      rw [scanEntries_known before known]
      exact ih inside unknown budget

/-- The known entries lead out of the table or to an unknown one. -/
theorem exists_walk (memory : Nat → UInt8) (e p : Nat) :
    ∃ entries q, Walk memory e p entries q ∧ (q < e → stride (memory q) = none) := by
  by_cases inside : p < e
  · cases type : stride (memory p) with
    | none => exact ⟨[], p, .nil, fun _ => type⟩
    | some len =>
      have : 0 < len := by
        unfold stride at type
        split_ifs at type
        all_goals cases type
        all_goals decide
      obtain ⟨entries, q, walk, last⟩ := exists_walk memory e (p + len)
      exact ⟨p :: entries, q, .cons inside type walk, last⟩
  · exact ⟨[], p, .nil, fun before => absurd before inside⟩
termination_by e - p

/-- The first eight of these ids are in the table. -/
def Recorded (ids : List UInt8) (table : CpuTable) : Prop :=
  table.ncpu = min 8 ids.length ∧ ∀ i < table.ncpu, ids[i]? = some (table.cpus i)

variable {ids : List UInt8}

theorem Recorded.addCpu (recorded : Recorded ids table) (id : UInt8) :
    Recorded (ids ++ [id]) (table.addCpu id) := by
  obtain ⟨count, same⟩ := recorded
  unfold CpuTable.addCpu
  split_ifs with room
  · refine ⟨by simp; omega, fun i below => ?_⟩
    rcases Nat.lt_succ_iff_lt_or_eq.mp below with old | rfl
    · rw [List.getElem?_append_left (by omega), same i old]
      simp [old.ne]
    · have last : table.ncpu = ids.length := by omega
      simp [last]
  · refine ⟨by simp; omega, fun i below => ?_⟩
    rw [← same i below, List.getElem?_append_left (by omega)]

theorem Recorded.visits (memory : Nat → UInt8) (entries : List Nat)
    (recorded : Recorded ids table) :
    Recorded (ids ++ apicids memory entries) (entries.foldl (visit memory) table) := by
  induction entries generalizing ids table with
  | nil => simpa [apicids] using recorded
  | cons p entries ih =>
    by_cases proc : memory p = MPPROC
    · simpa [apicids, visit, proc] using ih (recorded.addCpu (memory (p + 1)))
    have kept : Recorded ids (visit memory table p) := by
      rw [visit, if_neg proc]
      split_ifs
      · exact recorded
      · exact recorded
    simpa [apicids, proc] using ih kept

end Scan

/-- The globals as the loader leaves them. -/
def bootCpus : CpuTable := ⟨fun _ => 0, 0, 0, 0, []⟩

section Init

variable (machine : Machine) (conf : Nat)

def tableEnd : Nat := conf + word machine (conf + 4) 2

/-- The entries at these addresses follow the header of the table, up to `q`. -/
abbrev Leads (entries : List Nat) (q : Nat) : Prop :=
  Walk machine.memory (tableEnd machine conf) (conf + 44) entries q

/-- An entry of unknown type follows known ones. -/
def UnknownEntry : Prop :=
  ∃ entries q, Leads machine conf entries q ∧ q < tableEnd machine conf ∧
    stride (machine.memory q) = none

/-- The scan of an accepted table stops, records the processors of a table of
known entries, and rejects a table with an unknown one. -/
structure ScansTable : Prop where
  stops : ∃ budget, Ends (mpinit machine budget) (fun _ _ => True) (· = .unsuitable) bootCpus
  records : ∀ entries, Leads machine conf entries (tableEnd machine conf) →
    ∃ budget, Ends (mpinit machine budget)
      (fun _ => Recorded (apicids machine.memory entries)) (fun _ => False) bootCpus
  rejects : UnknownEntry machine conf →
    ∃ budget, mpinit machine budget bootCpus = .error .unsuitable

variable {machine conf} {mp : Nat} {q : Nat}

theorem mpinit_eq (accepts : mpconfig machine = .ok (some (mp, conf))) (budget : Nat) :
    mpinit machine budget bootCpus =
      (scanEntries machine.memory (tableEnd machine conf) budget (conf + 44) true >>=
        finishInit machine mp) { bootCpus with lapic := word machine (conf + 36) 4 } := by
  rw [mpinit, accepts]
  rfl

theorem mpinit_diverges (accepts : mpconfig machine = .ok (some (mp, conf)))
    (unknown : UnknownEntry machine conf) (budget : Nat) :
    mpinit machine budget bootCpus = .error .outOfBudget := by
  obtain ⟨entries, q, leads, inside, noStride⟩ := unknown
  rw [mpinit_eq accepts]
  simp only [bind, StateT.bind, scanEntries_diverges leads inside noStride, Except.bind]

theorem mpinit_records (accepts : mpconfig machine = .ok (some (mp, conf)))
    (leads : Leads machine conf entries q) (outside : ¬ q < tableEnd machine conf) :
    Ends (mpinit machine (entries.length + 1))
      (fun _ => Recorded (apicids machine.memory entries)) (fun _ => False) bootCpus := by
  have booted : Recorded [] { bootCpus with lapic := word machine (conf + 36) 4 } :=
    ⟨rfl, fun i below => absurd below i.not_lt_zero⟩
  have recorded := booted.visits machine.memory entries
  rw [Ends, mpinit_eq accepts, run_bind (by
    rw [scanEntries_walk leads, scanEntries, if_neg outside]
    rfl)]
  change Ends (finishInit machine mp true) _ _ _
  simp only [finishInit, ends_bind, ends_check, ends_ite, ends_modify, ends_pure]
  exact ⟨fun _ => ⟨fun _ => recorded, fun _ => recorded⟩, fun notSmp => notSmp trivial⟩

/-- The scan of an accepted table does what it should unless the table has an
entry of unknown type, at which it stays for ever. -/
theorem mpinit_scansTable_iff (accepts : mpconfig machine = .ok (some (mp, conf))) :
    ScansTable machine conf ↔ ¬ UnknownEntry machine conf := by
  constructor
  · intro scans unknown
    obtain ⟨budget, stops⟩ := scans.stops
    rw [Ends, mpinit_diverges accepts unknown] at stops
    cases stops
  intro known
  obtain ⟨entries, q, leads, last⟩ :=
    exists_walk machine.memory (tableEnd machine conf) (conf + 44)
  have outside : ¬ q < tableEnd machine conf := fun inside =>
    known ⟨entries, q, leads, inside, last inside⟩
  refine ⟨⟨_, (mpinit_records accepts leads outside).mono (fun _ _ _ => trivial)
    (fun _ => False.elim)⟩, ?_, fun unknown => absurd unknown known⟩
  intro entries leads
  exact ⟨_, mpinit_records accepts leads (lt_irrefl _)⟩

end Init

/-- A floating pointer structure in the EBDA at `0x10`, and a table at `0x100` with the given
checksum, length and entries. -/
def firmware (checksum length : UInt8) (entries : List UInt8) : Machine where
  memory addr :=
    if addr = 0xC000040E then 1
    else if addr < 0xC0000100 then
      [0x5F, 0x4D, 0x50, 0x5F, 0, 1, 0, 0, 1, 0xA3].getD (addr - 0xC0000010) 0
    else if addr < 0xC000012C then
      [0x50, 0x43, 0x4D, 0x50, length, 0, 4, checksum].getD (addr - 0xC0000100) 0
    else entries.getD (addr - 0xC000012C) 0
  npage := 1
  imcr := 0

/-- A table with one processor. -/
theorem mpinit_scansTable_one_cpu : ScansTable (firmware 0x85 64 [0, 7]) 0xC0000100 := by
  have accepts : mpconfig (firmware 0x85 64 [0, 7]) = .ok (some (0xC0000010, 0xC0000100)) := by
    decide +kernel
  have last : ∀ len, stride ((firmware 0x85 64 [0, 7]).memory 0xC000012C) = some len →
      ¬ 0xC000012C + len < tableEnd (firmware 0x85 64 [0, 7]) 0xC0000100 := by
    intro len known
    cases known.symm.trans (show _ = some 20 by decide +kernel)
    decide +kernel
  refine (mpinit_scansTable_iff accepts).mpr ?_
  rintro ⟨entries, q, _ | ⟨_, known, _ | ⟨inside', -, -⟩⟩, inside, unknown⟩
  · exact absurd unknown (by decide +kernel)
  · exact last _ known inside
  · exact last _ known inside'

/-- A table with an entry of type 5 is scanned for ever. -/
theorem mpinit_unknown_entry_diverges :
    mpconfig (firmware 0x9A 45 [5]) = .ok (some (0xC0000010, 0xC0000100)) ∧
      ∀ budget, mpinit (firmware 0x9A 45 [5]) budget bootCpus = .error .outOfBudget := by
  have accepts : mpconfig (firmware 0x9A 45 [5]) = .ok (some (0xC0000010, 0xC0000100)) := by
    decide +kernel
  exact ⟨accepts, mpinit_diverges accepts ⟨[], _, .nil, by decide +kernel, by decide +kernel⟩⟩

end UcoreSmp.Mp
