import UcoreSmp.PathLookup

/-!
# Mount points of ucore_plus

`vfs_mount_parse_full_path` compares a full path byte by byte with the mount
points on record.  Simplified paths are written in one way only, so the bytes
decide which mount points lead to the path.
-/

namespace UcoreSmp.Plus

open List

/-- A path as `vfs_simplify_path` leaves it. -/
structure SimplePath where
  names : List Text
  proper : ∀ name ∈ names, name ≠ [] ∧ SLASH ∉ name

def SimplePath.text (path : SimplePath) : Text :=
  if path.names = [] then [SLASH] else pathText path.names

structure MountRecord where
  mountpoint : SimplePath
  filesystem : Nat

inductive MountCall where
  | vfsMountAddRecord (mountpoint : SimplePath) (filesystem : Nat)
  | vfsMountRemoveRecord (position : Nat)

/-- The list of records, the most recent one first. -/
def MountCall.run (records : List MountRecord) : MountCall → List MountRecord
  | vfsMountAddRecord mountpoint filesystem => ⟨mountpoint, filesystem⟩ :: records
  | vfsMountRemoveRecord position => records.eraseIdx position

/-- The loop, with the best match so far and its length. -/
def bestMatch (fullPath : Text) (best : Option (Nat × MountRecord)) :
    List MountRecord → Option (Nat × MountRecord)
  | [] => best
  | record :: rest =>
    let mountpoint := record.mountpoint.text
    let matchLength := if mountpoint.length = 1 then 1 else mountpoint.length + 1
    if fullPath = mountpoint then some (fullPath.length, record)
    else if (mountpoint.isPrefixOf fullPath ∧
        (fullPath[mountpoint.length]? = some SLASH ∨ mountpoint.length = 1)) ∧
        ∀ found ∈ best, found.1 < matchLength then
      bestMatch fullPath (some (matchLength, record)) rest
    else bestMatch fullPath best rest

/-- The part of the path behind the mount point and the file system; nothing where the
kernel panics. -/
def vfsMountParseFullPath (fullPath : Text) (records : List MountRecord) : Option (Text × Nat) :=
  (bestMatch fullPath none records).map fun best => (fullPath.drop best.1, best.2.filesystem)

namespace SimplePath

variable {path mount other : SimplePath}

theorem splitOn_names (path : SimplePath) :
    (pathText path.names).splitOn SLASH = [] :: path.names :=
  splitOn_pathText not_mem_nil fun name inside => (path.proper name inside).2

theorem filter_names (path : SimplePath) : path.names.filter (· ≠ []) = path.names :=
  filter_eq_self.mpr fun name inside => decide_eq_true (path.proper name inside).1

theorem names_of_text (path : SimplePath) :
    (path.text.splitOn SLASH).filter (· ≠ []) = path.names := by
  unfold text
  split_ifs with root
  · rw [root]
    rfl
  · rw [splitOn_names, filter_cons_of_neg (by simp), filter_names]

theorem names_ne (differs : path.text ≠ mount.text) : path.names ≠ mount.names := by
  intro same
  simp [text, same] at differs

theorem length_text (mount : SimplePath) : mount.text = [SLASH] ∧ mount.names = [] ∨
    mount.text.length ≠ 1 ∧ mount.text = pathText mount.names := by
  unfold text
  cases names : mount.names with
  | nil => simp
  | cons name rest =>
    have := (mount.proper name (by simp [names])).1
    simp [pathText, this]

theorem matchLength_eq (mount : SimplePath) :
    (if mount.text.length = 1 then 1 else mount.text.length + 1) =
      (pathText mount.names).length + 1 := by
  rcases mount.length_text with ⟨isText, root⟩ | ⟨more, isText⟩
  · rw [isText, root]
    rfl
  · rw [if_neg more, isText]

theorem text_append {rest : List Text} (isPath : mount.names ++ rest = path.names)
    (differs : path.names ≠ mount.names) :
    path.text = pathText mount.names ++ SLASH :: (pathText rest).tail := by
  cases rest with
  | nil => simp [← isPath] at differs
  | cons name rest =>
    rw [text, if_neg (by simp [← isPath]), ← isPath, pathText_append]
    rfl

/-- The bytes match where the mount point leads to the path. -/
theorem matches_iff (differs : path.names ≠ mount.names) :
    (mount.text.isPrefixOf path.text ∧
      (path.text[mount.text.length]? = some SLASH ∨ mount.text.length = 1)) ↔
    mount.names <+: path.names := by
  refine (and_congr_left' isPrefixOf_iff_prefix).trans ⟨?_, ?_⟩
  · rintro ⟨⟨rest, isPath⟩, next⟩
    rcases mount.length_text with ⟨-, root⟩ | ⟨more, isText⟩
    · simp [root]
    rw [← isPath, getElem?_append_right le_rfl, Nat.sub_self, or_iff_left more] at next
    obtain ⟨rest, rfl⟩ : ∃ rest', rest = SLASH :: rest' := by
      cases rest <;> simp_all
    have split := path.names_of_text
    rw [← isPath, isText, splitOn_append_cons_self, splitOn_names, filter_append,
      filter_cons_of_neg (by simp), filter_names] at split
    exact ⟨_, split⟩
  rintro ⟨rest, isPath⟩
  rw [text_append isPath differs]
  rcases mount.length_text with ⟨isText, root⟩ | ⟨-, isText⟩
  · simp [isText, root, pathText]
  · simp [isText]

end SimplePath

namespace MountRecord

/-- The mount point leads to the path. -/
def Leads (path : SimplePath) (record : MountRecord) : Prop :=
  record.mountpoint.names <+: path.names

def depth (record : MountRecord) : Nat := record.mountpoint.names.length

/-- The record as the model of `vfs_lookup` has it. -/
def entry (record : MountRecord) : List Text × Nat :=
  (record.mountpoint.names, record.filesystem)

variable {path : SimplePath} {record other : MountRecord}

theorem depth_lt_iff (leads : record.Leads path) (leads' : other.Leads path) :
    (pathText record.mountpoint.names).length < (pathText other.mountpoint.names).length ↔
      record.depth < other.depth := by
  have empty : ∀ rest : List Text, (pathText rest).length = 0 ↔ rest.length = 0 := by
    intro rest
    cases rest <;> simp [pathText]
  unfold depth
  rcases prefix_or_prefix_of_prefix leads leads' with ⟨rest, isOther⟩ | ⟨rest, isRecord⟩
  · have := empty rest
    rw [← isOther, pathText_append, length_append, length_append]
    omega
  · rw [← isRecord, pathText_append, length_append, length_append]
    omega

end MountRecord

open MountRecord

variable {path : SimplePath} {record : MountRecord} {records : List MountRecord}

/-- What the loop keeps of a record. -/
structure Kept (path : SimplePath) (found : Nat × MountRecord) : Prop where
  leads : found.2.Leads path
  length : path.names ≠ found.2.mountpoint.names →
    found.1 = (pathText found.2.mountpoint.names).length + 1
  part : path.text.drop found.1 = (pathText (path.names.drop found.2.depth)).tail

theorem Kept.of_same (same : path.names = record.mountpoint.names) :
    Kept path (path.text.length, record) := by
  refine ⟨?_, fun differs => absurd same differs, ?_⟩
  · simp [Leads, same]
  · simp [depth, ← same, pathText]

theorem Kept.of_leads (leads : record.Leads path)
    (differs : path.names ≠ record.mountpoint.names) :
    Kept path ((pathText record.mountpoint.names).length + 1, record) := by
  refine ⟨leads, fun _ => rfl, ?_⟩
  obtain ⟨rest, isPath⟩ := leads
  simp [SimplePath.text_append isPath differs, ← isPath, depth]

/-- The loop keeps the best match, or ends with the first of the deepest records. -/
theorem bestMatch_deepest (path : SimplePath) (best : Option (Nat × MountRecord))
    (before : ∀ found ∈ best, Kept path found ∧ path.names ≠ found.2.mountpoint.names) :
    (bestMatch path.text best records = best ∧
      ∀ other ∈ records, other.Leads path → ∃ found ∈ best, other.depth ≤ found.2.depth) ∨
    ∃ found newer older, bestMatch path.text best records = some found ∧ Kept path found ∧
      records = newer ++ found.2 :: older ∧ (∀ kept ∈ best, kept.2.depth < found.2.depth) ∧
      (∀ other ∈ newer, other.Leads path → other.depth < found.2.depth) ∧
      ∀ other ∈ older, other.Leads path → other.depth ≤ found.2.depth := by
  induction records generalizing best with
  | nil => exact .inl ⟨rfl, nofun⟩
  | cons record rest ih =>
    by_cases same : path.text = record.mountpoint.text
    · have names : path.names = record.mountpoint.names := by
        rw [← path.names_of_text, same, SimplePath.names_of_text]
      refine .inr ⟨_, [], rest, if_pos same, .of_same names, rfl, ?_, nofun, ?_⟩
      · intro kept isBest
        obtain ⟨fits, differs⟩ := before kept isBest
        rw [depth, depth, ← names]
        refine fits.leads.length_le.lt_of_ne fun level => differs ?_
        exact (fits.leads.eq_of_length level).symm
      · intro other _ leads
        rw [depth, depth, ← names]
        exact leads.length_le
    have differs := SimplePath.names_ne same
    have test : (record.mountpoint.names <+: path.names ∧
        ∀ kept ∈ best, kept.1 < (pathText record.mountpoint.names).length + 1) ↔
        record.Leads path ∧ ∀ kept ∈ best, kept.2.depth < record.depth := by
      refine and_congr_right fun leads => forall₂_congr fun kept isBest => ?_
      obtain ⟨fits, other⟩ := before kept isBest
      rw [fits.length other, Nat.add_lt_add_iff_right, depth_lt_iff fits.leads leads]
    simp only [bestMatch, if_neg same, SimplePath.matches_iff differs, SimplePath.matchLength_eq]
    by_cases deeper : record.Leads path ∧ ∀ kept ∈ best, kept.2.depth < record.depth
    · rw [if_pos (test.mpr deeper)]
      obtain ⟨leads, above⟩ := deeper
      have new := Kept.of_leads leads differs
      rcases ih (some _) (by rintro _ ⟨⟩; exact ⟨new, differs⟩) with ⟨ran, below⟩ | chosen
      · refine .inr ⟨_, [], rest, ran, new, rfl, above, nofun, ?_⟩
        intro other inside otherLeads
        obtain ⟨_, ⟨⟩, le⟩ := below other inside otherLeads
        exact le
      obtain ⟨found, newer, older, ran, fits, split, higher, newest, oldest⟩ := chosen
      refine .inr ⟨found, record :: newer, older, ran, fits, by rw [split]; rfl, ?_,
        forall_mem_cons.mpr ⟨fun _ => higher _ rfl, newest⟩, oldest⟩
      intro kept isBest
      exact (above kept isBest).trans (higher _ rfl)
    have shallow : record.Leads path → ∃ kept ∈ best, record.depth ≤ kept.2.depth := by
      intro leads
      by_contra none
      push Not at none
      exact deeper ⟨leads, none⟩
    rw [if_neg (mt test.mp deeper)]
    rcases ih best before with ⟨ran, below⟩ | chosen
    · exact .inl ⟨ran, forall_mem_cons.mpr ⟨shallow, below⟩⟩
    obtain ⟨found, newer, older, ran, fits, split, higher, newest, oldest⟩ := chosen
    refine .inr ⟨found, record :: newer, older, ran, fits, by rw [split]; rfl, higher,
      forall_mem_cons.mpr ⟨?_, newest⟩, oldest⟩
    intro leads
    obtain ⟨kept, isBest, le⟩ := shallow leads
    exact le.trans_lt (higher kept isBest)

section Agreement

variable {fs : Vfs} {names : List Text} {mounts : List (List Text × Nat)} {best : Nat × Nat}

/-- The step of `Vfs.vfsMountParseFullPath`. -/
def longer (names : List Text) (best : Nat × Nat) (mount : List Text × Nat) : Nat × Nat :=
  if mount.1.isPrefixOf names ∧ best.1 < mount.1.length then (mount.1.length, mount.2) else best

theorem foldl_longer_eq
    (shallow : ∀ mount ∈ mounts, mount.1 <+: names → mount.1.length ≤ best.1) :
    mounts.foldl (longer names) best = best := by
  induction mounts with
  | nil => rfl
  | cons mount rest ih =>
    have stays : longer names best mount = best := by
      refine if_neg fun found => ?_
      have leads := isPrefixOf_iff_prefix.mp found.1
      exact absurd found.2 (shallow mount mem_cons_self leads).not_gt
    rw [foldl_cons, stays]
    exact ih fun other inside => shallow other (mem_cons_of_mem _ inside)

theorem foldl_longer_lt {bound : Nat} (low : best.1 < bound)
    (shallow : ∀ mount ∈ mounts, mount.1 <+: names → mount.1.length < bound) :
    (mounts.foldl (longer names) best).1 < bound := by
  induction mounts generalizing best with
  | nil => exact low
  | cons mount rest ih =>
    refine ih ?_ fun other inside => shallow other (mem_cons_of_mem _ inside)
    unfold longer
    split_ifs with found
    · have leads := isPrefixOf_iff_prefix.mp found.1
      exact shallow mount mem_cons_self leads
    · exact low

/-- The bytes and the names of a path lead to the same file system: `vfs_lookup` may be modelled
over either. -/
theorem vfsMountParseFullPath_agrees
    (mounted : fs.mounts = records.map entry)
    (root : (records.find? fun record => record.mountpoint.names = []).map filesystem =
      some fs.root) :
    vfsMountParseFullPath path.text records =
      some ((pathText (path.names.drop (fs.vfsMountParseFullPath path.names).1)).tail,
        (fs.vfsMountParseFullPath path.names).2) := by
  obtain ⟨first, found, isRoot⟩ := Option.map_eq_some_iff.mp root
  have unnamed : first.mountpoint.names = [] := by simpa using find?_some found
  rcases bestMatch_deepest path none nofun with ⟨-, nothing⟩ | chosen
  · obtain ⟨_, ⟨⟩, -⟩ := nothing first (mem_of_find?_eq_some found) (by simp [Leads, unnamed])
  obtain ⟨⟨length, record⟩, newer, older, ran, kept, split, -, newest, oldest⟩ := chosen
  have parsed : fs.vfsMountParseFullPath path.names = (record.depth, record.filesystem) := by
    change fs.mounts.foldl (longer path.names) (0, fs.root) = _
    rw [mounted]
    rcases Nat.eq_zero_or_pos record.depth with flat | deep
    · -- the first record without a name is the root
      have unnamed : record.mountpoint.names = [] := length_eq_zero_iff.mp flat
      have none : newer.find? (fun record => record.mountpoint.names = []) = none := by
        simp only [find?_eq_none, decide_eq_true_eq]
        intro other inside isRoot
        have below : other.depth < record.depth := newest other inside (by simp [Leads, isRoot])
        omega
      rw [split, find?_append, none, Option.none_or, find?_cons_of_pos (by simp [unnamed])] at root
      rw [foldl_longer_eq, flat, Option.some.inj root]
      refine forall_mem_map.mpr fun other inside leads => ?_
      rw [split, mem_append, mem_cons] at inside
      rcases inside with new | rfl | old
      · exact (newest other new leads).le.trans flat.le
      · exact flat.le
      · exact (oldest other old leads).trans flat.le
    · have shallow : ∀ mount ∈ newer.map entry, mount.1 <+: path.names →
          mount.1.length < record.depth := forall_mem_map.mpr newest
      have low := foldl_longer_lt (show (0, fs.root).1 < record.depth from deep) shallow
      have test : (record.mountpoint.names.isPrefixOf path.names : Prop) := by
        simpa [Leads] using kept.leads
      rw [split, map_append, map_cons, foldl_append, foldl_cons, longer, if_pos ⟨test, low⟩]
      exact foldl_longer_eq (forall_mem_map.mpr oldest)
  rw [vfsMountParseFullPath, ran, parsed, Option.map_some, kept.part]

end Agreement

/-- While a root is mounted, the file system is that of the deepest mount point that leads
to the path, and of equal mount points that of the most recent one. -/
theorem vfs_mount_parse_full_path_deepest (calls : List MountCall)
    (root : ∃ record ∈ calls.foldl MountCall.run [], record.mountpoint.names = [])
    (path : SimplePath) :
    ∃ newer record older, calls.foldl MountCall.run [] = newer ++ record :: older ∧
      record.Leads path ∧ (∀ other ∈ newer, other.Leads path → other.depth < record.depth) ∧
      (∀ other ∈ older, other.Leads path → other.depth ≤ record.depth) ∧
      vfsMountParseFullPath path.text (calls.foldl MountCall.run []) =
        some ((pathText (path.names.drop record.depth)).tail, record.filesystem) := by
  generalize calls.foldl MountCall.run [] = records at *
  rcases bestMatch_deepest path none nofun with ⟨-, nothing⟩ | chosen
  · obtain ⟨mounted, inside, isRoot⟩ := root
    obtain ⟨found, ⟨⟩, -⟩ := nothing mounted inside (by simp [Leads, isRoot])
  obtain ⟨found, newer, older, ran, kept, split, -, deepest⟩ := chosen
  refine ⟨newer, found.2, older, split, kept.leads, deepest.1, deepest.2, ?_⟩
  rw [vfsMountParseFullPath, ran, Option.map_some, kept.part]

/-- A device file system that was mounted over another one. -/
theorem vfs_mount_parse_full_path_mounted_twice :
    let dev : SimplePath := ⟨[[100, 101, 118]], by decide⟩
    vfsMountParseFullPath [SLASH, 100, 101, 118, SLASH, 97]
      [⟨dev, 7⟩, ⟨dev, 6⟩, ⟨⟨[], nofun⟩, 5⟩] = some ([97], 7) := by
  intro dev
  obtain ⟨newer, record, older, split, -, higher, -, parsed⟩ := vfs_mount_parse_full_path_deepest
    [.vfsMountAddRecord ⟨[], nofun⟩ 5, .vfsMountAddRecord dev 6, .vfsMountAddRecord dev 7]
    ⟨⟨⟨[], nofun⟩, 5⟩, by simp [MountCall.run], rfl⟩ ⟨[[100, 101, 118], [97]], by decide⟩
  have shallow : record.depth ≤ 1 := by
    have inside : record ∈ newer ++ record :: older := by simp
    rw [← split] at inside
    simp only [foldl_cons, foldl_nil, MountCall.run, mem_cons, not_mem_nil, or_false] at inside
    rcases inside with rfl | rfl | rfl <;> decide
  cases newer with
  | nil =>
    obtain rfl : ⟨dev, 7⟩ = record := (cons.inj split).1
    exact parsed
  | cons first rest =>
    obtain rfl : ⟨dev, 7⟩ = first := (cons.inj split).1
    have deeper : 1 < record.depth := higher _ mem_cons_self ⟨[[97]], rfl⟩
    omega

end UcoreSmp.Plus
