import Mathlib
import UcoreSmp.FileTable
import UcoreSmp.SfsByteArray

/-!
# Opening a path

`vfs_open` over the counters and the contents of all inodes, with the path taken apart as
`get_device` does it.
-/

namespace UcoreSmp.Vfs

open Function

def SFS_MAX_FNAME_LEN : Nat := 255

inductive NodeKind where
  | dir
  | file
  | device

/-- `missingOp` is the assertion of `__vop_op` on an operation that the inode does not have. -/
inductive VfsFault where
  | missingOp
  | noFs
  | slashName
  | nameLength
  | truncSize

@[ext]
structure VfsState where
  refs : Nat → Int
  opens : Nat → Int
  contents : Nat → List UInt8

/-- The inodes, with the number of blocks of each file, and what the directories and the devices
answer. -/
structure VfsTree where
  kind : Nat → NodeKind
  pwd : Option Nat
  bootfsNode : Option Nat
  fsRoot : Nat → Option Nat
  vfsGetRoot : List Char → Except Int Nat
  sfsLookupOnce : Nat → List Char → Except Int Nat
  dopOpen : Nat → BitVec 32 → Int
  blocks : Nat → Nat

abbrev VfsCall := Call VfsFault VfsState

def VfsState.held (state : VfsState) (node : Nat) : VfsState :=
  { state with refs := state.refs + Pi.single node 1 }

def vopRefInc (node : Nat) : VfsCall PUnit := modify (·.held node)

def vopRefDec (node : Nat) : VfsCall PUnit :=
  modify fun state => { state with refs := state.refs - Pi.single node 1 }

def vopOpenInc (node : Nat) : VfsCall PUnit :=
  modify fun state => { state with opens := state.opens + Pi.single node 1 }

def vopOpenDec (node : Nat) : VfsCall PUnit :=
  modify fun state => { state with opens := state.opens - Pi.single node 1 }

/-- `vfs_get_curdir` and `vfs_get_bootfs`. -/
def vfsGet : Option Nat → VfsCall Nat
  | none => throw (-E_NOENT)
  | some node => do
    vopRefInc node
    pure node

/-- A path up to its first colon or slash. -/
def front (path : List Char) : List Char := path.takeWhile fun c => c ≠ ':' ∧ c ≠ '/'

def hasDevice (path : List Char) : Bool :=
  front path ≠ [] ∧ (path.drop (front path).length).head? = some ':'

section Calls

variable (tree : VfsTree)

def getDevice (path : List Char) : VfsCall (List Char × Nat) := do
  let subpath := (path.drop (front path).length).tail.dropWhile (· = '/')
  if hasDevice path then
    match tree.vfsGetRoot (front path) with
    | .error ret => throw ret
    | .ok node => do
      vopRefInc node
      pure (subpath, node)
  else if path.head? = some '/' then do
    let node ← vfsGet tree.bootfsNode
    pure (subpath, node)
  else if path.head? = some ':' then do
    let node ← vfsGet tree.pwd
    match tree.fsRoot node with
    | none => panicWith .noFs
    | some root => do
      vopRefInc root
      vopRefDec node
      pure (subpath, root)
  else do
    let node ← vfsGet tree.pwd
    pure (path, node)

def vopLookup (node : Nat) (name : List Char) : VfsCall Nat :=
  match tree.kind node with
  | .dir => do
    ensure (name.head? ≠ some '/') .slashName
    vopRefInc node
    ensure (name.length ≤ SFS_MAX_FNAME_LEN) .nameLength
    match tree.sfsLookupOnce node name with
    | .error ret => do
      vopRefDec node
      throw ret
    | .ok found => do
      vopRefInc found
      vopRefDec node
      pure found
  | .file => panicWith .missingOp
  | .device => throw (-E_NOENT)

def vfsLookup (path : List Char) : VfsCall Nat := do
  let (subpath, node) ← getDevice tree path
  if subpath ≠ [] then do
    let result ← attempt (vopLookup tree node subpath)
    vopRefDec node
    match result with
    | .error ret => throw ret
    | .ok found => pure found
  else pure node

def vopOpen (node : Nat) (openFlags : BitVec 32) : Int :=
  match tree.kind node with
  | .dir =>
    if openFlags &&& O_ACCMODE ≠ O_RDONLY ∨ hasFlag openFlags O_APPEND then -E_ISDIR else 0
  | .file => 0
  | .device =>
    if hasFlag openFlags (O_CREAT ||| O_TRUNC ||| O_EXCL ||| O_APPEND) then -E_INVAL
    else tree.dopOpen node openFlags

/-- `sfs_truncfile` to length zero. -/
def sfsTruncfile (node : Nat) : VfsCall PUnit := do
  let state ← get
  ensure (state.contents node = [] → tree.blocks node = 0) .truncSize
  set { state with contents := update state.contents node [] }

/-- `vfs_open` once it has an inode; `sfs_truncfile` to length zero returns no error code. -/
def vfsOpenNode (openFlags : BitVec 32) (node : Nat) : VfsCall Nat :=
  let ret := vopOpen tree node openFlags
  if ret ≠ 0 then do
    vopRefDec node
    throw ret
  else do
    vopOpenInc node
    if hasFlag openFlags O_TRUNC ∨ hasFlag openFlags O_CREAT then
      match tree.kind node with
      | .file => do
        match ← attempt (sfsTruncfile tree node) with
        | .error ret => do
          vopOpenDec node
          vopRefDec node
          throw ret
        | .ok _ => pure node
      | _ => panicWith .missingOp
    else pure node

def ValidFlags (openFlags : BitVec 32) : Prop :=
  let accMode := openFlags &&& O_ACCMODE
  (accMode = O_RDONLY ∨ accMode = O_WRONLY ∨ accMode = O_RDWR) ∧
    ¬ (hasFlag openFlags O_TRUNC ∧ accMode = O_RDONLY)

instance (openFlags : BitVec 32) : Decidable (ValidFlags openFlags) := by
  unfold ValidFlags
  infer_instance

def vfsOpen (openFlags : BitVec 32) (path : List Char) : VfsCall Nat :=
  if ValidFlags openFlags then do
    match ← attempt (vfsLookup tree path) with
    | .error ret =>
      if ret = -E_NOENT ∧ hasFlag openFlags O_CREAT then do
        -- `vfs_lookup_parent` of the path as `get_device` has left it; no inode has a `vop_create`
        let _ ← getDevice tree (if hasDevice path then front path else path)
        panicWith .missingOp
      else throw ret
    | .ok node =>
      if hasFlag openFlags O_EXCL ∧ hasFlag openFlags O_CREAT then throw (-E_EXISTS)
      else vfsOpenNode tree openFlags node
  else throw (-E_INVAL)

/-- What `vfs_open` should leave behind. -/
def Contract (openFlags : BitVec 32) (state : VfsState) : Except Int Nat → VfsState → Prop
  | .error _, next => next = state
  | .ok node, next => next.refs = state.refs + Pi.single node 1 ∧
      next.opens = state.opens + Pi.single node 1 ∧
      (hasFlag openFlags O_TRUNC ∨ next.contents = state.contents)

/-- An inode that the path names is not to be created exclusively, and if it is a file that is to
be created, it is to be cut off too or it is empty. -/
def Harmless (openFlags : BitVec 32) (path : List Char) (state : VfsState) : Prop :=
  ValidFlags openFlags → ∀ node next, vfsLookup tree path state = .ok (.ok node, next) →
    ¬ (hasFlag openFlags O_EXCL ∧ hasFlag openFlags O_CREAT) ∧
      (tree.kind node = .file → hasFlag openFlags O_CREAT →
        hasFlag openFlags O_TRUNC ∨ state.contents node = [])

variable {tree} {openFlags : BitVec 32} (path : List Char) (state : VfsState)

theorem vfsGet_ends (node : Option Nat) :
    CallEnds (vfsGet node) (fun found next => next = state.held found) (fun _ next => next = state)
      (fun _ => True) state := by
  cases node <;> simp [vfsGet, vopRefInc]

theorem getDevice_ends :
    CallEnds (getDevice tree path) (fun found next => next = state.held found.2)
      (fun _ next => next = state) (fun _ => True) state := by
  simp only [getDevice, callEnds_ite, callEnds_bind]
  refine ⟨fun _ => ?_, fun _ => ⟨fun _ => vfsGet_ends state _, fun _ => ⟨fun _ => ?_, fun _ =>
    vfsGet_ends state _⟩⟩⟩
  · cases tree.vfsGetRoot (front path) <;> simp [vopRefInc]
  · refine (vfsGet_ends state _).weaken ?_ fun _ _ same => same
    rintro node _ rfl
    cases tree.fsRoot node with
    | none => trivial
    | some root =>
      simp only [vopRefInc, vopRefDec, callEnds_bind, callEnds_modify, callEnds_pure,
        VfsState.held]
      abel_nf

theorem vfsLookup_ends :
    CallEnds (vfsLookup tree path) (fun node next => next = state.held node)
      (fun _ next => next = state) (fun _ => True) state := by
  rw [vfsLookup, callEnds_bind]
  refine (getDevice_ends path state).weaken ?_ fun _ _ same => same
  rintro ⟨subpath, node⟩ _ rfl
  simp only [callEnds_ite, callEnds_bind, callEnds_attempt, vopRefDec, callEnds_modify]
  refine ⟨fun _ => ?_, fun _ => rfl⟩
  cases kind : tree.kind node with
  | dir =>
    simp only [vopLookup, kind, callEnds_bind, callEnds_ensure, vopRefInc, callEnds_modify]
    refine ⟨fun _ => ⟨fun _ => ?_, fun _ => trivial⟩, fun _ => trivial⟩
    cases tree.sfsLookupOnce node subpath with
    | error ret => simp [VfsState.held, vopRefDec]
    | ok found =>
      simp [VfsState.held, vopRefDec]
      abel_nf
  | file => simp [vopLookup, kind]
  | device => simp [vopLookup, kind, VfsState.held]

theorem sfsTruncfile_eq (node : Nat) : sfsTruncfile tree node state =
    if state.contents node = [] → tree.blocks node = 0 then
      .ok (.ok PUnit.unit, { state with contents := update state.contents node [] })
    else .error .truncSize := by
  change ExceptT.bind (ensure _ _) _ _ = _
  unfold ensure check
  split_ifs <;> rfl

/-- Both models of `sfs_truncfile` stop in the same assertion, or leave the file empty. -/
theorem sfsTruncfile_agrees {sfs : SfsFs} {inodes : Finset Nat} {node : Nat} {sin : SfsInode}
    (consistent : sfs.Consistent inodes) (found : sfs.sins node = some sin)
    (sameBlocks : tree.blocks node = sin.din.blocks)
    (sameBytes : state.contents node = sfs.contents node) :
    CallEnds (UcoreSmp.sfsTruncfile node 0)
      (fun _ next => ∃ state', sfsTruncfile tree node state = .ok (.ok PUnit.unit, state') ∧
        state'.contents node = next.contents node)
      (fun _ _ => False)
      (fun fault => fault = .truncSize ∧ sfsTruncfile tree node state = .error .truncSize)
      sfs := by
  have empty : state.contents node = [] ↔ sin.din.size = 0 := by
    rw [sameBytes, contents_some found, ← List.length_eq_zero_iff, Bytes.length_slice]
  have none : roundupDiv (0 : Int).toNat SFS_BLKSIZE = 0 := by decide
  simp only [sfsTruncfile_eq, empty, sameBlocks]
  by_cases isEmpty : sin.din.size = 0
  · simp only [UcoreSmp.sfsTruncfile, callEnds_ite, callEnds_throw, callEnds_bind,
      callEnds_getSin found, callEnds_ensure, none]
    refine ⟨fun outside => absurd outside (by decide), fun _ => ⟨fun _ => ⟨fun counted => ?_,
      fun differ => ⟨trivial, if_neg fun same => differ (same isEmpty).symm⟩⟩,
      fun other => absurd isEmpty other⟩⟩
    refine ⟨_, if_pos fun _ => counted.symm, ?_⟩
    rw [← sameBytes, empty.mpr isEmpty]
    exact update_self _ _ _
  simp only [isEmpty, false_implies, if_true]
  apply (sfsTruncfile_ends consistent found 0).mono
  · rintro _ next (⟨-, size, -⟩ | ⟨sin', resized⟩)
    · exact absurd size isEmpty
    refine ⟨_, rfl, ?_⟩
    rw [contents_some resized.found, resized.size]
    exact update_self _ _ _
  · rintro code next (⟨-, -, outside⟩ | ⟨-, -, sin', exhausted⟩)
    · exact absurd outside (by decide)
    · exact absurd exhausted.short (by rw [none]; exact Nat.not_lt_zero _)
  · rintro fault (⟨-, size, -⟩ | ⟨-, -, -, overflow, -⟩)
    · exact absurd size isEmpty
    · exact absurd overflow (by decide)

theorem vfs_open_contract_iff :
    CallEnds (vfsOpen tree openFlags path)
      (fun node next => Contract openFlags state (.ok node) next ↔
        Harmless tree openFlags path state)
      (fun ret next => Contract openFlags state (.error ret) next ↔
        Harmless tree openFlags path state) (fun _ => True) state := by
  by_cases valid : ValidFlags openFlags
  · rw [vfsOpen, if_pos valid, callEnds_bind, callEnds_attempt]
    refine ((vfsLookup_ends path state).and (callEnds_self _ state)).mono ?_ ?_ fun _ _ => trivial
    · rintro node _ ⟨rfl, named⟩
      simp only [Harmless, valid, named, callEnds_ite, callEnds_throw, vfsOpenNode, callEnds_bind,
        vopRefDec, vopOpenInc, callEnds_modify, callEnds_pure]
      refine ⟨fun excl => ?_, fun _ => ⟨fun failed => ?_, fun _ => ⟨fun cut => ?_, fun _ => ?_⟩⟩⟩
      · refine iff_of_false (fun same => ?_) fun harmless => (harmless trivial node _ rfl).1 excl
        simpa [VfsState.held] using congrArg (·.refs node) same
      · have other : tree.kind node ≠ .file := fun kind => failed (by simp [vopOpen, kind])
        simp_all [Contract, VfsState.held]
      · cases kind : tree.kind node with
        | file =>
          simp only [callEnds_bind, callEnds_attempt, sfsTruncfile, callEnds_get, callEnds_ensure,
            callEnds_set, callEnds_pure]
          refine ⟨fun _ => ?_, fun _ => trivial⟩
          simp_all [Contract, VfsState.held]
          exact cut.symm.imp_right .inl
        | dir => trivial
        | device => trivial
      · simp_all [Contract, VfsState.held]
    · rintro ret next ⟨same, named⟩
      have harmless : Harmless tree openFlags path state := by simp [Harmless, named]
      rw [same, callEnds_ite, callEnds_bind]
      refine ⟨fun _ => (getDevice_ends _ state).mono (fun _ _ _ => trivial) ?_ fun _ _ => trivial,
        fun _ => iff_of_true rfl harmless⟩
      exact fun _ _ same => iff_of_true same harmless
  · rw [vfsOpen, if_neg valid]
    exact iff_of_true rfl fun isValid => absurd isValid valid

end Calls

/-- A file system whose root is an empty directory. -/
def emptyTree : VfsTree :=
  ⟨fun _ => .dir, some 0, some 0, fun _ => some 0, fun _ => .error (-E_NOENT),
    fun _ _ => .error (-E_NOENT), fun _ _ => 0, fun _ => 0⟩

theorem vfs_open_excl_keeps_reference :
    ∃ next, vfsOpen emptyTree (O_CREAT ||| O_EXCL) ['/'] ⟨0, 0, fun _ => []⟩ =
        .ok (.error (-E_EXISTS), next) ∧
      ¬ Contract (O_CREAT ||| O_EXCL) ⟨0, 0, fun _ => []⟩ (.error (-E_EXISTS)) next := by
  refine ⟨VfsState.held ⟨0, 0, fun _ => []⟩ 0, rfl, fun same => ?_⟩
  simpa [VfsState.held] using congrArg (·.refs 0) same

end UcoreSmp.Vfs
