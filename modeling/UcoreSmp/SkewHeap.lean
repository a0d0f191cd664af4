import UcoreSmp.PointerTree

/-!
# The kernel's skew heap

The heap of `libs/skew_heap.h`: entries embedded in other records, linked by
parent and child pointers, and ordered by a comparison function the caller
passes.  The recursion of `skew_heap_merge` follows pointers, so it carries an
explicit depth; running out of it is `none`.  On entries that draw two disjoint
trees a depth above their number of nodes always suffices, and the pointers
then draw the merged tree.
-/

namespace UcoreSmp

open List

variable {ι : Type*} [DecidableEq ι]

def skewHeapInit (a : ι) (links : TreeLinks ι) : TreeLinks ι :=
  (links.setChildren a none none).setParent (some a) none

def skewHeapMerge (comp : ι → ι → Int) :
    Nat → Option ι → Option ι → TreeLinks ι → Option (Option ι × TreeLinks ι)
  | 0, _, _, _ => none
  | _ + 1, none, b, links => some (b, links)
  | _ + 1, some a, none, links => some (some a, links)
  | depth + 1, some a, some b, links =>
    if comp a b = -1 then do
      let r := links.left a
      let (l, links) ← skewHeapMerge comp depth (links.right a) (some b) links
      some (some a, (links.setChildren a l r).setParent l (some a))
    else do
      let r := links.left b
      let (l, links) ← skewHeapMerge comp depth (some a) (links.right b) links
      some (some b, (links.setChildren b l r).setParent l (some b))

def skewHeapInsert (comp : ι → ι → Int) (depth : Nat) (a : Option ι) (b : ι)
    (links : TreeLinks ι) : Option (Option ι × TreeLinks ι) :=
  skewHeapMerge comp depth a (some b) (skewHeapInit b links)

def replaceChild (p b : ι) (rep : Option ι) (links : TreeLinks ι) : TreeLinks ι :=
  if links.left p = some b then links.setChildren p rep (links.right p)
  else links.setChildren p (links.left p) rep

def skewHeapRemove (comp : ι → ι → Int) (depth : Nat) (a : Option ι) (b : ι)
    (links : TreeLinks ι) : Option (Option ι × TreeLinks ι) := do
  let p := links.parent b
  let (rep, links) ← skewHeapMerge comp depth (links.left b) (links.right b) links
  let links := links.setParent rep p
  match p with
  | some p => some (a, replaceChild p b rep links)
  | none => some (rep, links)

/-- What the comparison function says about two entries, as a test. -/
def smallerBy (comp : ι → ι → Int) (a b : ι) : Bool :=
  comp a b = -1

/-- The pointers of a merge draw the merged tree, the links of all other
entries stay, and the parent link of the new root is not written. -/
structure HeapMerged (comp : ι → ι → Int) (a b : Option ι)
    (first second : BinaryTree ι) (links links' : TreeLinks ι) (root : Option ι) :
    Prop where
  hangs : links'.Hangs root (skewMerge (smallerBy comp) first second)
  others : ∀ entry, entry ∉ treeNodes first → entry ∉ treeNodes second → links.SameAt links' entry
  above : ∀ entry, root = some entry → links'.parent entry = links.parent entry
  origin : root = a ∨ root = b

variable {links : TreeLinks ι} {a : Option ι} {first second tree : BinaryTree ι} {depth : Nat}
  {b : ι}

/-- Hanging a merged tree under a node on the left and its old left subtree on
the right, as both branches of the merge do. -/
theorem HeapMerged.relinked {comp : ι → ι → Int} {inner : TreeLinks ι} {node : ι}
    {b l : Option ι} {left : BinaryTree ι} (merged : HeapMerged comp a b first second links inner l)
    (leftHangs : links.Hangs (links.left node) left)
    (leftBacked : links.Backed (links.left node) node)
    (nodup : (treeNodes (.node node (skewMerge (smallerBy comp) first second) left)).Nodup) :
    let next := (inner.setChildren node l (links.left node)).setParent l (some node)
    next.Hangs (some node) (.node node (skewMerge (smallerBy comp) first second) left) ∧
      (∀ entry, entry ≠ node → entry ∉ treeNodes first → entry ∉ treeNodes second →
        links.SameAt next entry) ∧
      next.parent node = links.parent node := by
  intro next
  have parts := nodup
  rw [treeNodes_node, nodup_cons, mem_append, not_or, nodup_append] at parts
  obtain ⟨⟨notInner, notLeft⟩, -, leftNodup, apart⟩ := parts
  have others : ∀ entry, entry ∉ treeNodes (skewMerge (smallerBy comp) first second) →
        links.SameAt inner entry ∧ l ≠ some entry := by
    intro entry missing
    refine ⟨?_, ?_⟩
    · rw [mem_skewMerge, not_or] at missing
      exact merged.others entry missing.1 missing.2
    · rintro rfl
      exact missing merged.hangs.root_mem
  have outside : ∀ entry ∈ treeNodes left,
      entry ∉ treeNodes (skewMerge (smallerBy comp) first second) := by
    intro entry member inInner
    exact apart entry inInner entry member rfl
  have leftHangs' : inner.Hangs (links.left node) left :=
    leftHangs.frame leftNodup fun entry member =>
      (others entry (outside entry member)).1
  have leftBacked' : inner.Backed (links.left node) node := by
    intro entry isLeft
    have member : entry ∈ treeNodes left := by
      rw [isLeft] at leftHangs
      exact leftHangs.root_mem
    rw [(others entry (outside entry member)).1.parent]
    exact leftBacked entry isLeft
  refine ⟨merged.hangs.adopt leftHangs' leftBacked' nodup, ?_, ?_⟩
  · intro entry other notFirst notSecond
    have missing := (mem_skewMerge (smallerBy comp) first second entry).not.mpr
      (not_or.mpr ⟨notFirst, notSecond⟩)
    exact (others entry missing).1.trans
      (inner.setChildren_setParent_sameAt other (others entry missing).2)
  · refine Eq.trans ?_ (others node notInner).1.parent
    exact (inner.setChildren node l (links.left node)).setParent_parent (others node notInner).2

theorem skewHeapMerge_spec (comp : ι → ι → Int) {b : Option ι} (firstHangs : links.Hangs a first)
    (secondHangs : links.Hangs b second) (nodup : (treeNodes first ++ treeNodes second).Nodup)
    (enough : first.numNodes + second.numNodes < depth) :
    ∃ root links', skewHeapMerge comp depth a b links = some (root, links') ∧
      HeapMerged comp a b first second links links' root := by
  induction depth generalizing a b first second with
  | zero => exact absurd enough (Nat.not_lt_zero _)
  | succ depth ih =>
    match first, second with
    | .nil, second =>
      have absent : a = none := firstHangs
      subst absent
      refine ⟨b, links, rfl, ?_, fun _ _ _ => ⟨rfl, rfl, rfl⟩, fun _ _ => rfl, .inr rfl⟩
      rw [skewMerge_nil_left]
      exact secondHangs
    | .node va la ra, .nil =>
      have absent : b = none := secondHangs
      subst absent
      obtain rfl := firstHangs.1
      refine ⟨some va, links, rfl, ?_, fun _ _ _ => ⟨rfl, rfl, rfl⟩, fun _ _ => rfl, .inl rfl⟩
      rw [skewMerge_nil_right]
      exact firstHangs
    | .node va la ra, .node vb lb rb =>
      obtain rfl := firstHangs.1
      obtain rfl := secondHangs.1
      simp only [BinaryTree.numNodes] at enough
      have whole := (treeNodes_skewMerge_perm (smallerBy comp)
        (.node va la ra) (.node vb lb rb)).nodup_iff.mpr nodup
      by_cases smaller : comp va vb = -1
      · have test : smallerBy comp va vb = true := by
          simp [smallerBy, smaller]
        rw [skewMerge, if_pos test] at whole
        have innerNodup : (treeNodes ra ++ treeNodes (.node vb lb rb)).Nodup :=
          nodup.sublist ((sublist_append_right _ _).trans (sublist_cons_self _ _) |>.append_right _)
        obtain ⟨l, inner, ran, merged⟩ :=
          ih firstHangs.2.2.1 secondHangs innerNodup (by simp only [BinaryTree.numNodes]; omega)
        obtain ⟨hangs, others, above⟩ := merged.relinked firstHangs.2.1.1 firstHangs.2.1.2 whole
        refine ⟨some va, (inner.setChildren va l (links.left va)).setParent l (some va),
          ?_, ?_, ?_, ?_, .inl rfl⟩
        · rw [skewHeapMerge, if_pos smaller, ran]
          rfl
        · rw [skewMerge, if_pos test]
          exact hangs
        · intro entry notFirst notSecond
          rw [treeNodes_node, mem_cons, mem_append, not_or, not_or] at notFirst
          exact others entry notFirst.1 notFirst.2.2 notSecond
        · rintro entry isRoot
          obtain rfl := Option.some.inj isRoot
          exact above
      have test : ¬ smallerBy comp va vb = true := by
        simp [smallerBy, smaller]
      rw [skewMerge, if_neg test] at whole
      have innerNodup : (treeNodes (.node va la ra) ++ treeNodes rb).Nodup :=
        nodup.sublist ((sublist_append_right _ _).trans (sublist_cons_self _ _) |>.append_left _)
      obtain ⟨l, inner, ran, merged⟩ :=
        ih firstHangs secondHangs.2.2.1 innerNodup (by simp only [BinaryTree.numNodes]; omega)
      obtain ⟨hangs, others, above⟩ := merged.relinked secondHangs.2.1.1 secondHangs.2.1.2 whole
      refine ⟨some vb, (inner.setChildren vb l (links.left vb)).setParent l (some vb),
        ?_, ?_, ?_, ?_, .inr rfl⟩
      · rw [skewHeapMerge, if_neg smaller, ran]
        rfl
      · rw [skewMerge, if_neg test]
        exact hangs
      · intro entry notFirst notSecond
        rw [treeNodes_node, mem_cons, mem_append, not_or, not_or] at notSecond
        exact others entry notSecond.1 notFirst notSecond.2.2
      · rintro entry isRoot
        obtain rfl := Option.some.inj isRoot
        exact above

/-- The pointers below `root` draw a heap of distinct entries, and nothing is
above the root. -/
structure PoolTree (links : TreeLinks ι) (root : Option ι) (tree : BinaryTree ι) : Prop where
  hangs : links.Hangs root tree
  nodup : (treeNodes tree).Nodup
  top : ∀ entry, root = some entry → links.parent entry = none

theorem PoolTree.init {root : Option ι} (pool : PoolTree links root tree)
    (fresh : b ∉ treeNodes tree) : PoolTree (skewHeapInit b links) root tree := by
  have same : ∀ entry ∈ treeNodes tree, links.SameAt (skewHeapInit b links) entry := by
    intro entry member
    have other : entry ≠ b := fun isB => fresh (isB ▸ member)
    exact links.setChildren_setParent_sameAt other fun isB => other (Option.some.inj isB).symm
  refine ⟨pool.hangs.frame pool.nodup same, pool.nodup, ?_⟩
  rintro entry rfl
  rw [(same entry pool.hangs.root_mem).parent]
  exact pool.top entry rfl

theorem skewHeapInsert_spec (comp : ι → ι → Int) (pool : PoolTree links a tree)
    (fresh : b ∉ treeNodes tree) (enough : tree.numNodes + 1 < depth) :
    ∃ root links', skewHeapInsert comp depth a b links = some (root, links') ∧ PoolTree links' root
        (skewMerge (smallerBy comp) tree (.node b .nil .nil)) := by
  have cleared := pool.init fresh
  have leftCleared : (skewHeapInit b links).left b = none :=
    Function.update_self _ _ _
  have rightCleared : (skewHeapInit b links).right b = none :=
    Function.update_self _ _ _
  have parentCleared : (skewHeapInit b links).parent b = none :=
    Function.update_self _ _ _
  have singleHangs : (skewHeapInit b links).Hangs (some b) (.node b .nil .nil) := by
    refine ⟨rfl, ⟨leftCleared, ?_⟩, rightCleared, ?_⟩
    · rw [leftCleared]
      exact fun _ absurdity => absurd absurdity (by simp)
    · rw [rightCleared]
      exact fun _ absurdity => absurd absurdity (by simp)
  have nodup : (treeNodes tree ++ treeNodes (.node b .nil .nil)).Nodup := by
    rw [nodup_append]
    refine ⟨pool.nodup, by simp, ?_⟩
    rintro entry member other isB rfl
    simp at isB
    exact fresh (isB ▸ member)
  obtain ⟨root, links', ran, merged⟩ := skewHeapMerge_spec comp cleared.hangs singleHangs
    nodup (by simp only [BinaryTree.numNodes]; omega)
  refine ⟨root, links', ran, merged.hangs, (treeNodes_skewMerge_perm _ _ _).nodup_iff.mpr nodup, ?_⟩
  rintro entry rfl
  rw [merged.above entry rfl]
  rcases merged.origin with isOld | isNew
  · exact cleared.top entry isOld.symm
  · rw [Option.some.inj isNew]
    exact parentCleared

theorem skewHeapRemove_root_spec (comp : ι → ι → Int) {left right : BinaryTree ι}
    (pool : PoolTree links (some b) (.node b left right))
    (enough : left.numNodes + right.numNodes < depth) :
    ∃ root links', skewHeapRemove comp depth (some b) b links = some (root, links') ∧
      PoolTree links' root (skewMerge (smallerBy comp) left right) := by
  have nodup : (treeNodes left ++ treeNodes right).Nodup :=
    (nodup_cons.mp pool.nodup).2
  obtain ⟨root, merged, ran, spec⟩ := skewHeapMerge_spec comp pool.hangs.2.1.1
    pool.hangs.2.2.1 nodup enough
  have wholeNodup := (treeNodes_skewMerge_perm (smallerBy comp) left right).nodup_iff.mpr nodup
  refine ⟨root, merged.setParent root none, ?_, ?_, wholeNodup, ?_⟩
  · simp only [skewHeapRemove, pool.top b rfl, ran, Option.bind_eq_bind, Option.bind_some]
  · refine spec.hangs.congr (fun _ _ => ⟨rfl, rfl⟩) ?_ wholeNodup
    intro entry _ notRoot
    exact merged.setParent_parent notRoot
  · rintro entry rfl
    exact Function.update_self _ _ _

end UcoreSmp
