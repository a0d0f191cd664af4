import UcoreSmp.PlusAreas

/-!
# The shape of an address space

The areas of a sound address space are sorted, disjoint, page aligned and inside
user space.  On such a list the cache, the tree and the list all find the one area
that contains an address, and an area that meets no other one can be inserted.
-/

namespace UcoreSmp

open List

namespace Plus

/-- An area that is not empty, page aligned and inside user space. -/
structure Vma.Formed (vma : Vma) : Prop where
  nonempty : vma.vmStart < vma.vmEnd
  alignedStart : vma.vmStart % PGSIZE = 0
  alignedEnd : vma.vmEnd % PGSIZE = 0
  low : USERBASE ≤ vma.vmStart
  high : vma.vmEnd ≤ USERTOP

/-- Sorted, disjoint and well formed areas. -/
structure Shape (list : List Vma) : Prop where
  ordered : list.Pairwise fun vma other => vma.vmEnd ≤ other.vmStart
  formed : ∀ vma ∈ list, vma.Formed

/-- What later calls can see of an address space. -/
structure Core where
  list : List Vma
  cache : Option Vma
  brkStart : Nat
  brk : Nat
  pte : Nat → Option Bool
  refs : Ref → Int
  shmemLen : Nat → Nat
  destroyed : Nat → Bool

def Space.core (space : Space) : Core where
  list := space.mm.mmapList
  cache := space.mm.mmapCache
  brkStart := space.mm.brkStart
  brk := space.mm.brk
  pte := space.mm.pte
  refs := space.world.refs
  shmemLen := space.world.shmemLen
  destroyed := space.world.destroyed

/-- The areas are in shape and the cached one is among them. -/
structure Core.Sound (core : Core) : Prop where
  shape : Shape core.list
  cached : ∀ vma, core.cache = some vma → vma ∈ core.list

variable {front back : List Vma} {vma : Vma} {addr : Nat}

section Shape

variable {list : List Vma} {other : Vma}

theorem Shape.nil : Shape [] :=
  ⟨.nil, by simp⟩

theorem shape_append : Shape (front ++ back) ↔ Shape front ∧ Shape back ∧
    ∀ vma ∈ front, ∀ other ∈ back, vma.vmEnd ≤ other.vmStart := by
  constructor
  · rintro ⟨ordered, formed⟩
    obtain ⟨first, second, across⟩ := pairwise_append.mp ordered
    exact ⟨⟨first, fun vma member => formed vma (by simp [member])⟩,
      ⟨second, fun vma member => formed vma (by simp [member])⟩, across⟩
  rintro ⟨first, second, across⟩
  refine ⟨pairwise_append.mpr ⟨first.ordered, second.ordered, across⟩, ?_⟩
  intro vma member
  exact (mem_append.mp member).elim (first.formed vma) (second.formed vma)

theorem shape_cons : Shape (vma :: list) ↔ vma.Formed ∧ Shape list ∧
    ∀ other ∈ list, vma.vmEnd ≤ other.vmStart := by
  constructor
  · rintro ⟨ordered, formed⟩
    obtain ⟨first, rest⟩ := pairwise_cons.mp ordered
    exact ⟨formed vma (by simp), ⟨rest, fun other member => formed other (by simp [member])⟩, first⟩
  · rintro ⟨isFormed, rest, first⟩
    exact ⟨pairwise_cons.mpr ⟨first, rest.ordered⟩, forall_mem_cons.mpr ⟨isFormed, rest.formed⟩⟩

/-- At most one area contains an address. -/
theorem Shape.unique (shape : Shape list) (member : vma ∈ list) (member' : other ∈ list)
    (here : vma.Contains addr) (here' : other.Contains addr) : vma = other := by
  induction list with
  | nil => cases member
  | cons head tail ih =>
    obtain ⟨-, rest, first⟩ := shape_cons.mp shape
    obtain ⟨low, high⟩ := here
    obtain ⟨low', high'⟩ := here'
    rcases mem_cons.mp member with rfl | inTail <;>
      rcases mem_cons.mp member' with rfl | inTail'
    · rfl
    · have := first other inTail'
      omega
    · have := first vma inTail
      omega
    · exact ih rest inTail inTail'

theorem Shape.nodup (shape : Shape list) : list.Nodup := by
  apply shape.ordered.imp_of_mem
  rintro vma other member - order rfl
  have := (shape.formed vma member).nonempty
  omega

/-- The tree search finds the area that contains the address. -/
theorem findVmaRb_eq_some {tree : BinaryTree Vma} (shape : Shape (inorder tree)) :
    findVmaRb addr tree = some vma ↔ vma ∈ inorder tree ∧ vma.Contains addr := by
  induction tree with
  | nil => simp [findVmaRb, inorder]
  | node tmp left right leftFound rightFound =>
    obtain ⟨inLeft, rest, leftFirst⟩ := shape_append.mp shape
    obtain ⟨formed, inRight, rightLater⟩ := shape_cons.mp rest
    have leftBefore : ∀ vma ∈ inorder left, vma.vmEnd ≤ tmp.vmStart :=
      fun vma member => leftFirst vma member tmp (by simp)
    have nonempty := formed.nonempty
    simp only [findVmaRb, inorder, mem_append, mem_cons]
    split_ifs with ends starts
    · constructor
      · rintro ⟨rfl⟩
        exact ⟨.inr (.inl rfl), starts, ends⟩
      rintro ⟨member, low, high⟩
      rcases member with early | rfl | late
      · have := leftBefore vma early
        omega
      · rfl
      · have := rightLater vma late
        omega
    · rw [leftFound inLeft]
      constructor
      · exact fun ⟨member, here⟩ => ⟨.inl member, here⟩
      rintro ⟨member, low, high⟩
      rcases member with early | rfl | late
      · exact ⟨early, low, high⟩
      · omega
      · have := rightLater vma late
        omega
    rw [rightFound inRight]
    constructor
    · exact fun ⟨member, here⟩ => ⟨.inr (.inr member), here⟩
    rintro ⟨member, low, high⟩
    rcases member with early | rfl | late
    · have := leftBefore vma early
      omega
    · omega
    · exact ⟨late, low, high⟩

end Shape

section Routines

variable {space : Space} {faulty : VmFault → Prop} {post : Option Vma → Space → Prop}

theorem Space.lookup_eq_some (sound : space.core.Sound) :
    space.lookup addr = some vma ↔ vma ∈ space.core.list ∧ vma.Contains addr := by
  have shape : Shape space.mm.mmapList := sound.shape
  have searched : space.search addr = some vma ↔ vma ∈ space.mm.mmapList ∧ vma.Contains addr := by
    unfold Space.search
    split_ifs
    · have arranged := space.world.arrangement.ordered space.mm.mmapList
      rw [findVmaRb_eq_some (arranged.symm ▸ shape), arranged]
    constructor
    · intro found
      exact ⟨mem_of_find?_eq_some found, by simpa using List.find?_some found⟩
    rintro ⟨member, here⟩
    cases found : space.mm.mmapList.find? fun vma => decide (vma.Contains addr) with
    | none => exact absurd here (by simpa using List.find?_eq_none.mp found vma member)
    | some other =>
      have here' : other.Contains addr := by simpa using List.find?_some found
      rw [shape.unique (mem_of_find?_eq_some found) member here' here]
  unfold Space.lookup
  cases cache : space.mm.mmapCache with
  | none => exact searched
  | some cachedVma =>
    have member : cachedVma ∈ space.mm.mmapList := sound.cached cachedVma cache
    by_cases here : cachedVma.Contains addr
    · simp only [if_pos here, Option.some.injEq]
      constructor
      · rintro rfl
        exact ⟨member, here⟩
      · rintro ⟨member', here'⟩
        exact shape.unique member member' here here'
    · simp only [if_neg here]
      exact searched

/-- `find_vma` gives the area that contains the address and caches it. -/
theorem findVma_ends (sound : space.core.Sound)
    (found : ∀ vma ∈ space.core.list, vma.Contains addr → ∀ next : Space,
      next.core = { space.core with cache := some vma } → post (some vma) next)
    (absent : (∀ vma ∈ space.core.list, ¬ vma.Contains addr) → post none space) :
    Ends (findVma addr) post faulty space := by
  rw [findVma, ends_bind, ends_get]
  cases result : space.lookup addr with
  | none =>
    apply absent
    intro vma member here
    have := (Space.lookup_eq_some sound).mpr ⟨member, here⟩
    rw [result] at this
    cases this
  | some vma =>
    obtain ⟨member, here⟩ := (Space.lookup_eq_some sound).mp result
    exact found vma member here _ rfl

/-- `kmalloc` changes nothing that later calls can see. -/
theorem kmalloc_ends {post : Bool → Space → Prop}
    (done : ∀ answer next, next.core = space.core → post answer next) :
    Ends kmalloc post faulty space :=
  done _ _ rfl

theorem vmaCreate_ends {vmStart vmEnd : Nat} {vmFlags : BitVec 32}
    (made : ∀ next, next.core = space.core →
      post (some ⟨vmStart, vmEnd, vmFlags, none, 0, none, 0⟩) next)
    (denied : ∀ next, next.core = space.core → post none next) :
    Ends (vmaCreate vmStart vmEnd vmFlags) post faulty space := by
  rw [vmaCreate, ends_bind]
  apply kmalloc_ends
  intro answer next same
  cases answer with
  | true => exact made next same
  | false => exact denied next same

theorem buildTree_ends {post : PUnit → Space → Prop}
    (done : ∀ next, next.core = space.core → post () next) : Ends buildTree post faulty space := by
  simp only [buildTree, ends_bind, ends_get, ends_ite, ends_pure, ends_modify]
  refine ⟨fun _ => kmalloc_ends ?_, fun _ => done _ rfl⟩
  intro one first same
  refine ⟨fun _ => kmalloc_ends ?_, fun _ => done first same⟩
  intro two second same'
  refine ⟨fun _ => kmalloc_ends ?_, fun _ => done second (same'.trans same)⟩
  intro three third same''
  exact ⟨fun _ => done _ ((same''.trans same').trans same),
    fun _ => done third ((same''.trans same').trans same)⟩

/-- The place of a new area between the areas that it does not meet. -/
theorem place_eq (before : ∀ other ∈ front, other.vmStart ≤ vma.vmStart)
    (behind : ∀ other ∈ back, vma.vmStart < other.vmStart) :
    vmasBefore vma (front ++ back) = front ∧ vmasBehind vma (front ++ back) = back := by
  have passes : ∀ other ∈ front, decide (other.vmStart ≤ vma.vmStart) = true :=
    fun other member => decide_eq_true (before other member)
  rw [vmasBefore, vmasBehind, takeWhile_append_of_pos passes, dropWhile_append_of_pos passes]
  cases back with
  | nil => simp
  | cons first rest =>
    have stops : ¬ first.vmStart ≤ vma.vmStart := Nat.not_le.mpr (behind first (by simp))
    simp [stops]

/-- `insert_vma_struct` puts an area between the others that it does not meet. -/
theorem insertVmaStruct_ends {post : PUnit → Space → Prop}
    (list : space.core.list = front ++ back) (shape : Shape (front ++ vma :: back))
    (done : ∀ next : Space, next.core = { space.core with list := front ++ vma :: back } →
      post () next) :
    Ends (insertVmaStruct vma) post faulty space := by
  obtain ⟨inFront, rest, across⟩ := shape_append.mp shape
  obtain ⟨formed, inBack, later⟩ := shape_cons.mp rest
  have nonempty := formed.nonempty
  have earlier : ∀ other ∈ front, ApartBefore other vma := fun other member =>
    ⟨(inFront.formed other member).nonempty, across other member vma (by simp), nonempty⟩
  have behind : ∀ other ∈ back, ApartBefore vma other := fun other member =>
    ⟨nonempty, later other member, (inBack.formed other member).nonempty⟩
  have place := place_eq (fun other member => by
      obtain ⟨start, order, -⟩ := earlier other member
      exact (start.trans_le order).le)
    (fun other member => nonempty.trans_le (behind other member).2.1)
  rw [← show space.mm.mmapList = front ++ back from list] at place
  simp only [insertVmaStruct, ends_bind, ends_check, ends_get, ends_set, place.1, place.2]
  refine ⟨fun _ => ⟨fun _ => ⟨fun _ => buildTree_ends done, fun stuck => ?_⟩, fun stuck => ?_⟩,
    fun stuck => absurd nonempty stuck⟩
  · exact absurd (fun next member => behind next (mem_of_mem_head? member)) stuck
  · exact absurd (fun prev member => earlier prev (mem_of_mem_getLast? member)) stuck

end Routines

def rightChain : Arrangement where
  tree := List.foldr (fun vma tree => .node vma .nil tree) .nil
  ordered := by
    intro list
    induction list with
    | nil => rfl
    | cons vma list ih =>
      rw [foldr_cons, inorder, ih]
      rfl

def oneArea (start stop : Nat) : Space where
  mm := ⟨[⟨start, stop, VM_READ, none, 0, none, 0⟩], none, false, 1, 0, 0, fun _ => none⟩
  world := ⟨fun _ => 0, fun _ => 0, fun _ => false, [true], rightChain⟩

theorem oneArea_sound {start stop : Nat} (access : UserAccess start stop)
    (alignedStart : start % PGSIZE = 0) (alignedStop : stop % PGSIZE = 0) :
    (oneArea start stop).core.Sound := by
  refine ⟨shape_cons.mpr ⟨⟨access.2.1, alignedStart, alignedStop, access.1, access.2.2⟩,
    Shape.nil, by simp⟩, ?_⟩
  intro vma isCached
  cases isCached

end Plus

end UcoreSmp
