import Mathlib
import UcoreSmp.ErrorCodes

/-!
# Path lookup in the file systems of ucore_plus

`vfs_lookup` walks a path from the root of its file system.  At a symbolic link
it writes the path anew, with the target of the link in it, and starts again.
What the walk does depends on no reference counter, so a round comes with the
change that it makes to every counter.
-/

namespace UcoreSmp.Plus

abbrev Text := List (Fin 256)

def SLASH : Fin 256 := 47

def DOT : Fin 256 := 46

inductive NodeType where
  | link
  | dir
  | other

/-- The file systems, the mounted roots and the current directory.  `fsop_get_root` takes a
reference to the root for its caller in the file systems of `getRootTakes`, as `sfs_get_root` and
`pipe_get_root` do; `devfs_get_root` hands out the root that it keeps. -/
structure Vfs where
  root : Nat
  mounts : List (List Text × Nat) := []
  getRootTakes : Nat → Bool
  cwd : Nat
  cwdPath : Text
  vopLookup : Nat → Text → Except Int Nat
  vopGettype : Nat → Except Int NodeType
  vopReadlink : Nat → Text

/-- How a round of `vfs_lookup` ends. -/
inductive Round where
  | returns (result : Except Int Nat)
  | restarts (path : Text)

/-- How a call of `vfs_lookup` ends: with a result and a change of the counters, or with
a path that its buffer of 4096 bytes does not hold. -/
inductive LookupEnd where
  | returns (result : Except Int Nat) (change : Nat → Int)
  | overflows

/-- One reference to an inode. -/
def oneRef (node : Nat) : Nat → Int := fun other => if other = node then 1 else 0

/-- The names of a full path, each with the slash before it. -/
def pathText (names : List Text) : Text := names.flatMap (SLASH :: ·)

/-- One name of a path, behind the names that `vfs_simplify_path` has written. -/
def simplifyName (names : List Text) (name : Text) : List Text :=
  if name = [] ∨ name = [DOT] then names
  else if name = [DOT, DOT] then names.dropLast
  else names ++ [name]

/-- The names that `vfs_simplify_path` leaves of a full path. -/
def vfsSimplifyPath (path : Text) : List Text := (path.splitOn SLASH).foldl simplifyName []

namespace Vfs

variable (fs : Vfs) (follow : Bool)

/-- The path that `vfs_fullpath` simplifies. -/
def fullpath (path : Text) : Text :=
  if path.head? = some SLASH then path else fs.cwdPath ++ SLASH :: path

/-- The longest mount point that is a part of the path, and its root. -/
def vfsMountParseFullPath (names : List Text) : Nat × Nat :=
  fs.mounts.foldl (fun best mount =>
    if mount.1.isPrefixOf names ∧ best.1 < mount.1.length then (mount.1.length, mount.2)
    else best) (0, fs.root)

/-- The inner loop, at an inode that the names in `done` lead to. -/
def walk (node : Nat) (done : List Text) : List Text → Round × (Nat → Int)
  | [] => (.returns (.ok node), 0)
  | name :: rest =>
    match fs.vopLookup node name with
    | .error code => (.returns (.error code), -oneRef node)
    | .ok next =>
      match fs.vopGettype next with
      | .error code => (.returns (.error code), oneRef next - oneRef node)
      | .ok .link =>
        if !follow && rest.isEmpty then (.returns (.ok next), oneRef next - oneRef node)
        else
          let target := fs.vopReadlink next
          let before := if target.head? = some SLASH then [] else pathText done ++ [SLASH]
          (.restarts (before ++ target ++ pathText rest), oneRef next - oneRef node)
      | .ok .dir =>
        let walked := walk next (done ++ [name]) rest
        (walked.1, oneRef next - oneRef node + walked.2)
      | .ok .other =>
        if rest.isEmpty then (.returns (.ok next), oneRef next - oneRef node)
        else (.returns (.error (-E_INVAL)), oneRef next - oneRef node - oneRef next)

/-- One round of the outer loop.  `vfs_fullpath` takes the current directory for a
relative path, `fsop_get_root` may take the root, and `vop_ref_inc` takes it. -/
def round (path : Text) : Round × (Nat → Int) :=
  let taken := if path.head? = some SLASH then 0 else oneRef fs.cwd
  let names := vfsSimplifyPath (fs.fullpath path)
  let mount := fs.vfsMountParseFullPath names
  let rooted := if fs.getRootTakes mount.2 then oneRef mount.2 else 0
  let walked := fs.walk follow mount.2 (names.take mount.1) (names.drop mount.1)
  (walked.1, taken + rooted + oneRef mount.2 + walked.2)

/-- `vfs_lookup`, unless it takes more rounds. -/
def vfsLookup : Nat → Text → Option LookupEnd
  | 0, _ => none
  | fuel + 1, path =>
    if 4096 ≤ (fs.fullpath path).length then some .overflows
    else
      match fs.round follow path with
      | (.returns result, change) => some (.returns result change)
      | (.restarts path', change) =>
        (vfsLookup fuel path').map fun
          | .returns result change' => .returns result (change + change')
          | .overflows => .overflows

end Vfs

/-- The names lead from an inode to another one through directories. -/
inductive Vfs.Leads (fs : Vfs) : Nat → List Text → Nat → Prop
  | here (node : Nat) : Leads fs node [] node
  | enter {node next last : Nat} {name : Text} {names : List Text}
      (found : fs.vopLookup node name = .ok next) (isDir : fs.vopGettype next = .ok .dir)
      (leads : Leads fs next names last) : Leads fs node (name :: names) last

/-- Every inode that is found under one of the names, behind directories only, has the property
with the names that are left. -/
def Vfs.Along (fs : Vfs) (node : Nat) (names : List Text)
    (property : Nat → List Text → Prop) : Prop :=
  ∀ before name rest dir next, names = before ++ name :: rest → fs.Leads node before dir →
    fs.vopLookup dir name = .ok next → property next rest

/-- The root that a path starts from and the names behind its mount point. -/
def Vfs.origin (fs : Vfs) (path : Text) : Nat × List Text :=
  let names := vfsSimplifyPath (fs.fullpath path)
  let mount := fs.vfsMountParseFullPath names
  (mount.2, names.drop mount.1)

section Counters

variable {fs : Vfs} {follow : Bool} {node : Nat}

theorem Vfs.along_nil {property : Nat → List Text → Prop} : fs.Along node [] property := by
  intro before name rest dir next split
  simp at split

theorem Vfs.along_cons {name : Text} {names : List Text} {property : Nat → List Text → Prop} :
    fs.Along node (name :: names) property ↔
      ∀ next, fs.vopLookup node name = .ok next →
        property next names ∧ (fs.vopGettype next = .ok .dir → fs.Along next names property) := by
  constructor
  · intro along next found
    refine ⟨along [] name names node next rfl (.here node) found, fun isDir => ?_⟩
    rintro before other rest dir last rfl leads last_found
    exact along (name :: before) other rest dir last rfl (.enter found isDir leads) last_found
  intro head before other rest dir last split leads found
  cases leads with
  | here =>
    cases split
    exact (head last found).1
  | enter entered isDir leads =>
    cases split
    exact (head _ entered).2 isDir _ other rest dir last rfl leads found

/-- The reference that a lookup should leave. -/
def keptRef : Except Int Nat → Nat → Int
  | .ok node => oneRef node
  | .error _ => 0

/-- The reference that a round hands on. -/
def Round.keptRef : Round → Nat → Int
  | returns result => Plus.keptRef result
  | restarts _ => 0

theorem oneRef_pos (node : Nat) : 0 < oneRef node := by
  refine Pi.lt_def.mpr ⟨fun other => ?_, node, by simp [oneRef]⟩
  unfold oneRef
  split <;> simp

/-- The inode has a type and is not a symbolic link that is followed. -/
def Vfs.Settled (fs : Vfs) (follow : Bool) (node : Nat) (rest : List Text) : Prop :=
  ∃ type, fs.vopGettype node = .ok type ∧ (type = .link → follow = false ∧ rest = [])

/-- The references that a walk takes too many: none where every inode is settled. -/
theorem Vfs.walk_excess (fs : Vfs) (follow : Bool) (names : List Text) (node : Nat)
    (done : List Text) :
    ∃ excess, (fs.walk follow node done names).2 + oneRef node =
        (fs.walk follow node done names).1.keptRef + excess ∧ 0 ≤ excess ∧
      (excess = 0 ↔ fs.Along node names (fs.Settled follow)) := by
  induction names generalizing node done with
  | nil => exact ⟨0, by simp [walk, Round.keptRef, keptRef], le_rfl, iff_of_true rfl along_nil⟩
  | cons name rest ih =>
    rw [walk, along_cons]
    cases found : fs.vopLookup node name with
    | error code => exact ⟨0, by simp [Round.keptRef, keptRef], le_rfl, by simp⟩
    | ok next =>
      have lost := (oneRef_pos next).le
      have notNone := (oneRef_pos next).ne'
      dsimp only
      cases isType : fs.vopGettype next with
      | error code =>
        exact ⟨oneRef next, by simp [Round.keptRef, keptRef], lost, by
          simp [notNone, Settled, isType]⟩
      | ok type =>
        cases type with
        | link =>
          dsimp only
          by_cases kept : (!follow && rest.isEmpty) = true
          · rw [if_pos kept]
            exact ⟨0, by simp [Round.keptRef, keptRef], le_rfl, by
              simpa [Settled, isType] using kept⟩
          · rw [if_neg kept]
            exact ⟨oneRef next, by simp [Round.keptRef], lost, by
              simpa [notNone, Settled, isType] using kept⟩
        | dir =>
          obtain ⟨excess, sum, nonneg, isNone⟩ := ih next (done ++ [name])
          refine ⟨excess, ?_, nonneg, isNone.trans (by simp [Settled, isType])⟩
          dsimp only
          rw [← sum]
          abel
        | other =>
          dsimp only
          split_ifs with last
          · exact ⟨0, by simp [Round.keptRef, keptRef], le_rfl, by simp [Settled, isType]⟩
          · exact ⟨0, by simp [Round.keptRef, keptRef], le_rfl, by simp [Settled, isType]⟩

/-- The references that a round takes too many: none for a full path to settled inodes, from a
root to which `fsop_get_root` takes no reference. -/
theorem Vfs.round_excess (fs : Vfs) (follow : Bool) (path : Text) :
    ∃ excess, (fs.round follow path).2 = (fs.round follow path).1.keptRef + excess ∧
      0 ≤ excess ∧ (excess = 0 ↔ path.head? = some SLASH ∧
        fs.getRootTakes (fs.origin path).1 = false ∧
        fs.Along (fs.origin path).1 (fs.origin path).2 (fs.Settled follow)) := by
  dsimp only [round, origin]
  generalize vfsSimplifyPath (fs.fullpath path) = names
  generalize fs.vfsMountParseFullPath names = mount
  obtain ⟨excess, sum, nonneg, isNone⟩ :=
    fs.walk_excess follow (names.drop mount.1) mount.2 (names.take mount.1)
  have taken : ∃ taken, (if path.head? = some SLASH then 0 else oneRef fs.cwd) = taken ∧
      0 ≤ taken ∧ (taken = 0 ↔ path.head? = some SLASH) := by
    refine ⟨_, rfl, ?_⟩
    split_ifs with isFull
    · simp [isFull]
    · simp [isFull, (oneRef_pos fs.cwd).le, (oneRef_pos fs.cwd).ne']
  obtain ⟨taken, isTaken, takenNonneg, takenNone⟩ := taken
  have rooted : ∃ rooted, (if fs.getRootTakes mount.2 then oneRef mount.2 else 0) = rooted ∧
      0 ≤ rooted ∧ (rooted = 0 ↔ fs.getRootTakes mount.2 = false) := by
    refine ⟨_, rfl, ?_⟩
    split_ifs with takes
    · simp [takes, (oneRef_pos mount.2).le, (oneRef_pos mount.2).ne']
    · simpa using takes
  obtain ⟨rooted, isRooted, rootedNonneg, rootedNone⟩ := rooted
  refine ⟨taken + (rooted + excess), ?_, add_nonneg takenNonneg (add_nonneg rootedNonneg nonneg),
    ?_⟩
  · rw [isTaken, isRooted]
    linear_combination sum
  · rw [add_eq_zero_iff_of_nonneg takenNonneg (add_nonneg rootedNonneg nonneg),
      add_eq_zero_iff_of_nonneg rootedNonneg nonneg, takenNone, rootedNone, isNone]

theorem Vfs.walk_restarts {names done : List Text} {path : Text}
    (restarts : (fs.walk follow node done names).1 = .restarts path) :
    ∃ before name rest dir link, names = before ++ name :: rest ∧ fs.Leads node before dir ∧
      fs.vopLookup dir name = .ok link ∧ fs.vopGettype link = .ok .link ∧
      ¬ (follow = false ∧ rest = []) ∧
      path = (if (fs.vopReadlink link).head? = some SLASH then []
        else pathText (done ++ before) ++ [SLASH]) ++ fs.vopReadlink link ++ pathText rest := by
  induction names generalizing node done with
  | nil => cases restarts
  | cons name rest ih =>
    rw [walk] at restarts
    cases found : fs.vopLookup node name with
    | error code =>
      rw [found] at restarts
      cases restarts
    | ok next =>
      rw [found] at restarts
      dsimp only at restarts
      cases isType : fs.vopGettype next with
      | error code =>
        rw [isType] at restarts
        cases restarts
      | ok type =>
        rw [isType] at restarts
        cases type with
        | link =>
          dsimp only at restarts
          by_cases kept : (!follow && rest.isEmpty) = true
          · rw [if_pos kept] at restarts
            cases restarts
          · rw [if_neg kept] at restarts
            cases restarts
            refine ⟨[], name, rest, node, next, rfl, .here node, found, isType, ?_, ?_⟩
            · simpa using kept
            · rw [List.append_nil]
        | dir =>
          obtain ⟨before, last, rest', dir, link, rfl, leads, isLink⟩ := ih restarts
          refine ⟨name :: before, last, rest', dir, link, rfl, .enter found isType leads, ?_⟩
          rwa [List.append_assoc done, List.singleton_append] at isLink
        | other =>
          dsimp only at restarts
          split at restarts <;> cases restarts

theorem Vfs.round_restarts_not_settled {path path' : Text} {change : Nat → Int}
    (outcome : fs.round follow path = (.restarts path', change)) :
    ¬ fs.Along (fs.origin path).1 (fs.origin path).2 (fs.Settled follow) := by
  obtain ⟨before, name, rest, dir, link, split, leads, found, isLink, followed, -⟩ :=
    walk_restarts (congrArg Prod.fst outcome)
  intro along
  obtain ⟨type, isType, kept⟩ := along before name rest dir link split leads found
  rw [isLink] at isType
  cases isType
  exact followed (kept rfl)

end Counters

/-- A call that returns leaves no counter too low, and none too high exactly for a full path
that starts at a root to which `fsop_get_root` takes no reference and that reaches only inodes
with a type and no symbolic link that is followed. -/
theorem vfs_lookup_balanced_iff {fs : Vfs} {follow : Bool} {fuel : Nat} {path : Text}
    {result : Except Int Nat} {change : Nat → Int}
    (returned : fs.vfsLookup follow fuel path = some (.returns result change)) :
    keptRef result ≤ change ∧ (change = keptRef result ↔ path.head? = some SLASH ∧
      fs.getRootTakes (fs.origin path).1 = false ∧
      fs.Along (fs.origin path).1 (fs.origin path).2 fun node rest => ∃ type,
        fs.vopGettype node = .ok type ∧ (type = .link → follow = false ∧ rest = [])) := by
  induction fuel generalizing path change with
  | zero => cases returned
  | succ fuel ih =>
    obtain ⟨excess, sum, nonneg, isNone⟩ := fs.round_excess follow path
    rw [Vfs.vfsLookup] at returned
    split at returned
    · cases returned
    split at returned
    · next outcome =>
      cases returned
      rw [outcome] at sum
      have isSum : change = keptRef result + excess := sum
      subst isSum
      exact ⟨le_add_of_nonneg_right nonneg, add_eq_left.trans isNone⟩
    next outcome =>
    -- the reference to a followed link stays, whatever the later rounds do
    have followed := Vfs.round_restarts_not_settled outcome
    have lost : 0 < excess := lt_of_le_of_ne nonneg fun none => followed (isNone.mp none.symm).2.2
    rw [outcome] at sum
    obtain ⟨_ | _, later, isEnd⟩ := Option.map_eq_some_iff.mp returned
    · cases isEnd
      have loses := add_lt_add_of_lt_of_le lost (ih later).1
      rw [zero_add, ← zero_add excess] at loses
      have strict := loses.trans_eq (congrArg (· + _) sum.symm)
      exact ⟨strict.le, iff_of_false strict.ne' fun settled => followed settled.2.2⟩
    · cases isEnd

/-- A root file system and the devices under `/dev`, with the device `s`. -/
def devVfs : Vfs where
  root := 0
  mounts := [([[100, 101, 118]], 1)]
  getRootTakes := fun node => node != 1
  cwd := 0
  cwdPath := [SLASH]
  vopLookup := fun dir name => if dir = 1 ∧ name = [115] then .ok 2 else .error (-E_NOENT)
  vopGettype := fun node => .ok (if node = 2 then .other else .dir)
  vopReadlink := fun _ => []

/-- The device is looked up without a loss. -/
theorem vfs_lookup_balanced_device :
    ∃ change, devVfs.vfsLookup true 1 [SLASH, 100, 101, 118, SLASH, 115] =
        some (.returns (.ok 2) change) ∧ change = keptRef (.ok 2) := by
  obtain ⟨change, returned⟩ : ∃ change, devVfs.vfsLookup true 1
      [SLASH, 100, 101, 118, SLASH, 115] = some (.returns (.ok 2) change) := ⟨_, rfl⟩
  refine ⟨change, returned, (vfs_lookup_balanced_iff returned).2.mpr ⟨rfl, rfl, ?_⟩⟩
  have names : devVfs.origin [SLASH, 100, 101, 118, SLASH, 115] = (1, [[115]]) := rfl
  rw [names, Vfs.along_cons]
  intro next found
  cases found
  exact ⟨⟨.other, rfl, nofun⟩, nofun⟩

/-- A lookup of the root of a file system that takes references takes two. -/
theorem vfs_lookup_root_taken_twice : ∃ change, devVfs.vfsLookup true 1 [SLASH] =
      some (.returns (.ok 0) change) ∧ change 0 = 2 ∧ keptRef (.ok 0) 0 = 1 :=
  ⟨_, rfl, by decide, by decide⟩

section Links

variable {fs : Vfs} {follow : Bool}

theorem splitOn_pathText {name : Text} {names : List Text} (free : SLASH ∉ name)
    (frees : ∀ other ∈ names, SLASH ∉ other) :
    (name ++ pathText names).splitOn SLASH = name :: names := by
  induction names generalizing name with
  | nil => simpa [pathText] using List.splitOn_eq_singleton free
  | cons next rest ih =>
    change List.splitOn SLASH (name ++ SLASH :: (next ++ pathText rest)) = _
    rw [List.splitOn_append_cons_self, List.splitOn_eq_singleton free,
      ih (frees next List.mem_cons_self) (List.forall_mem_cons.mp frees).2]
    rfl

theorem pathText_append (names rest : List Text) :
    pathText (names ++ rest) = pathText names ++ pathText rest :=
  List.flatMap_append

/-- What the names of a path may become, each with a slash. -/
def namesWeight (weight : Text → Nat) (names : List Text) : Nat :=
  (names.map fun name => weight name + 1).sum

def pathWeight (weight : Text → Nat) (path : Text) : Nat :=
  namesWeight weight (path.splitOn SLASH)

/-- How long each name may become when links are followed: a name that is a symbolic link outweighs
its target. -/
structure Vfs.Weighted (fs : Vfs) (weight : Text → Nat) : Prop where
  empty : weight [] = 0
  name : ∀ name, name.length ≤ weight name
  link : ∀ dir name link, fs.vopLookup dir name = .ok link → fs.vopGettype link = .ok .link →
    name ≠ [] → weight name < 4096 → pathWeight weight (fs.vopReadlink link) ≤ weight name

variable {weight : Text → Nat}

theorem namesWeight_append (names rest : List Text) : namesWeight weight (names ++ rest) =
    namesWeight weight names + namesWeight weight rest := by
  simp [namesWeight]

theorem namesWeight_cons (name : Text) (rest : List Text) : namesWeight weight (name :: rest) =
    weight name + 1 + namesWeight weight rest := by
  simp [namesWeight]

theorem pathWeight_append_pathText (path : Text) {names : List Text}
    (frees : ∀ name ∈ names, SLASH ∉ name) :
    pathWeight weight (path ++ pathText names) =
      pathWeight weight path + namesWeight weight names := by
  cases names with
  | nil => simp [pathText, namesWeight]
  | cons name rest =>
    change namesWeight weight (List.splitOn SLASH (path ++ SLASH :: (name ++ pathText rest))) = _
    obtain ⟨free, frees⟩ := List.forall_mem_cons.mp frees
    rw [List.splitOn_append_cons_self, splitOn_pathText free frees, namesWeight_append]
    rfl

theorem length_lt_pathWeight (weighs : ∀ name, name.length ≤ weight name) (path : Text) :
    path.length < pathWeight weight path := by
  have pieces (names : List Text) (nonempty : names ≠ []) :
      ([SLASH].intercalate names).length < namesWeight weight names := by
    induction names with
    | nil => exact absurd rfl nonempty
    | cons name rest ih =>
      rw [namesWeight_cons]
      have bound := weighs name
      cases rest with
      | nil =>
        rw [List.intercalate_singleton]
        omega
      | cons next rest =>
        have shorter := ih (List.cons_ne_nil _ _)
        rw [List.intercalate_cons_cons, List.length_append, List.length_append,
          List.length_singleton]
        omega
  have whole := pieces (path.splitOn SLASH) (List.splitOn_ne_nil _ _)
  rwa [List.intercalate_splitOn] at whole

theorem slash_notMem_splitOn (path : Text) : ∀ name ∈ path.splitOn SLASH, SLASH ∉ name := by
  induction path with
  | nil => simp
  | cons byte path ih =>
    rw [List.splitOn_cons_eq_if_modifyHead]
    split_ifs with isSlash
    · simpa using ih
    cases pieces : path.splitOn SLASH with
    | nil => simp
    | cons piece pieces' =>
      rw [pieces] at ih
      obtain ⟨free, frees⟩ := List.forall_mem_cons.mp ih
      refine List.forall_mem_cons.mpr ⟨?_, frees⟩
      rw [List.mem_cons, not_or]
      exact ⟨fun same => isSlash (beq_iff_eq.mpr same.symm), free⟩

theorem simplifyName_proper (weight : Text → Nat) {names : List Text} {name : Text}
    (free : SLASH ∉ name) (proper : ∀ other ∈ names, other ≠ [] ∧ SLASH ∉ other) :
    (∀ other ∈ simplifyName names name, other ≠ [] ∧ SLASH ∉ other) ∧
      namesWeight weight (simplifyName names name) ≤ namesWeight weight (names ++ [name]) := by
  unfold simplifyName
  rw [namesWeight_append]
  split_ifs with skipped parent
  · exact ⟨proper, Nat.le_add_right _ _⟩
  · have shorter : namesWeight weight names.dropLast ≤ namesWeight weight names :=
      ((List.dropLast_sublist names).map _).sum_le_sum fun _ _ => Nat.zero_le _
    exact ⟨fun other inside => proper other (List.mem_of_mem_dropLast inside), by omega⟩
  · refine ⟨fun other inside => ?_, (namesWeight_append _ _).le⟩
    rcases List.mem_append.mp inside with old | new
    · exact proper other old
    · rw [List.mem_singleton.mp new]
      exact ⟨fun empty => skipped (.inl empty), free⟩

/-- The names of a simplified path are proper ones and weigh no more than the path. -/
theorem vfsSimplifyPath_proper (weight : Text → Nat) (path : Text) :
    (∀ name ∈ vfsSimplifyPath path, name ≠ [] ∧ SLASH ∉ name) ∧
      namesWeight weight (vfsSimplifyPath path) ≤ pathWeight weight path := by
  have loop (pieces names : List Text) (frees : ∀ piece ∈ pieces, SLASH ∉ piece)
      (proper : ∀ name ∈ names, name ≠ [] ∧ SLASH ∉ name) :
      (∀ name ∈ pieces.foldl simplifyName names, name ≠ [] ∧ SLASH ∉ name) ∧
        namesWeight weight (pieces.foldl simplifyName names) ≤
          namesWeight weight (names ++ pieces) := by
    induction pieces generalizing names with
    | nil => exact ⟨proper, by rw [List.append_nil]; rfl⟩
    | cons piece pieces ih =>
      obtain ⟨free, frees⟩ := List.forall_mem_cons.mp frees
      obtain ⟨proper', lighter⟩ := simplifyName_proper weight free proper
      obtain ⟨kept, bound⟩ := ih _ frees proper'
      refine ⟨kept, bound.trans ?_⟩
      rw [← List.singleton_append, ← List.append_assoc, namesWeight_append,
        namesWeight_append (names ++ [piece])]
      omega
  exact loop (path.splitOn SLASH) [] (slash_notMem_splitOn path) nofun

/-- Following a link makes a path lighter. -/
theorem Vfs.Weighted.restarts (weighted : fs.Weighted weight) {path path' : Text}
    {change : Nat → Int} (fits : pathWeight weight (fs.fullpath path) ≤ 4096)
    (outcome : fs.round follow path = (.restarts path', change)) :
    path'.head? = some SLASH ∧
      pathWeight weight path' ≤ namesWeight weight (vfsSimplifyPath (fs.fullpath path)) := by
  obtain ⟨before, name, rest, dir, link, split, -, found, isLink, -, rfl⟩ :=
    walk_restarts (congrArg Prod.fst outcome)
  obtain ⟨proper, light⟩ := vfsSimplifyPath_proper weight (fs.fullpath path)
  revert split proper light
  generalize vfsSimplifyPath (fs.fullpath path) = names
  generalize fs.vfsMountParseFullPath names = mount
  intro split proper light
  obtain ⟨walked, isWalked⟩ : ∃ walked, names.take mount.1 ++ before = walked := ⟨_, rfl⟩
  obtain rfl : names = walked ++ name :: rest := by
    rw [← isWalked, List.append_assoc, ← split, List.take_append_drop]
  rw [isWalked]
  clear outcome split isWalked
  rw [namesWeight_append, namesWeight_cons] at light ⊢
  have frees (other) (inside : other ∈ walked ++ name :: rest) : SLASH ∉ other :=
    (proper other inside).2
  have target := weighted.link dir name link found isLink (proper name (by simp)).1 (by omega)
  rw [pathWeight_append_pathText _ fun other inside => frees other (by simp [inside])]
  split_ifs with isFull
  · exact ⟨by simp [isFull], by rw [List.nil_append]; omega⟩
  have start : pathWeight weight (pathText walked ++ [SLASH] ++ fs.vopReadlink link) =
      1 + namesWeight weight walked + pathWeight weight (fs.vopReadlink link) := by
    have empty := splitOn_pathText (List.not_mem_nil (a := SLASH)) fun other inside =>
      frees other (List.mem_append_left _ inside)
    rw [List.nil_append] at empty
    rw [List.append_assoc, List.singleton_append, pathWeight, List.splitOn_append_cons_self,
      empty, namesWeight_append, namesWeight_cons, weighted.empty, Nat.zero_add, pathWeight]
  refine ⟨?_, by omega⟩
  cases walked <;> simp [pathText]

theorem Vfs.Weighted.returns (weighted : fs.Weighted weight) (fuel : Nat) (path : Text)
    (fits : pathWeight weight (fs.fullpath path) ≤ 4096)
    (enough : namesWeight weight (vfsSimplifyPath (fs.fullpath path)) < fuel) :
    ∃ result change, fs.vfsLookup follow fuel path = some (.returns result change) := by
  induction fuel generalizing path with
  | zero => exact absurd enough (Nat.not_lt_zero _)
  | succ fuel ih =>
    have short := length_lt_pathWeight weighted.name (fs.fullpath path)
    rw [vfsLookup, if_neg (by omega)]
    rcases outcome : fs.round follow path with ⟨result | path', change⟩
    · exact ⟨_, _, rfl⟩
    obtain ⟨isFull, lighter⟩ := weighted.restarts fits outcome
    have same : fs.fullpath path' = path' := if_pos isFull
    have light := (vfsSimplifyPath_proper weight (fs.fullpath path)).2
    -- the names that are left weigh less than the path, which starts with a slash
    have less : namesWeight weight (vfsSimplifyPath path') < pathWeight weight path' := by
      obtain ⟨tail, rfl⟩ := List.head?_eq_some_iff.mp isFull
      have split := List.splitOn_append_cons_self (a := SLASH) [] tail
      rw [List.nil_append, List.splitOn_nil, List.singleton_append] at split
      rw [vfsSimplifyPath, pathWeight, split, List.foldl_cons, namesWeight_cons]
      exact (vfsSimplifyPath_proper weight tail).2.trans_lt (by unfold pathWeight; omega)
    obtain ⟨result, change', returned⟩ := ih path' (by rw [same]; omega) (by rw [same]; omega)
    exact ⟨_, _, by dsimp only; rw [returned]; rfl⟩

end Links

end UcoreSmp.Plus
