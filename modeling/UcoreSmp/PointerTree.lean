import UcoreSmp.SkewTree

/-!
# Binary trees in linked memory

Every entry of an arena carries a parent link and two child links.  `Hangs`
says that the child links below a root draw a given tree and that the parent
link of every node other than the root leads back up.  The parent link of the
root itself is left open: whoever moves a tree sets it.
-/

namespace UcoreSmp

open Function

variable {ι : Type*}

/-- The links of every entry of an arena. -/
structure TreeLinks (ι : Type*) where
  parent : ι → Option ι
  left : ι → Option ι
  right : ι → Option ι

namespace TreeLinks

structure SameAt (links links' : TreeLinks ι) (entry : ι) : Prop where
  parent : links'.parent entry = links.parent entry
  left : links'.left entry = links.left entry
  right : links'.right entry = links.right entry

variable {entry : ι} {links links' : TreeLinks ι} {tree : BinaryTree ι} {root : Option ι}

theorem SameAt.trans {links'' : TreeLinks ι} (first : links.SameAt links' entry)
    (second : links'.SameAt links'' entry) : links.SameAt links'' entry where
  parent := second.parent.trans first.parent
  left := second.left.trans first.left
  right := second.right.trans first.right

/-- The child under a node, if there is one, points back to the node. -/
def Backed (links : TreeLinks ι) (child : Option ι) (node : ι) : Prop :=
  ∀ entry, child = some entry → links.parent entry = some node

/-- The links below `root` draw the tree. -/
def Hangs (links : TreeLinks ι) : Option ι → BinaryTree ι → Prop
  | root, .nil => root = none
  | root, .node value left right =>
    root = some value ∧
      (links.Hangs (links.left value) left ∧ links.Backed (links.left value) value) ∧
      (links.Hangs (links.right value) right ∧ links.Backed (links.right value) value)

theorem Hangs.root_mem (hangs : links.Hangs (some entry) tree) : entry ∈ treeNodes tree := by
  cases tree with
  | nil => exact absurd hangs (by simp [Hangs])
  | node value left right =>
    have := Option.some.inj hangs.1
    simp [this]

/-- A tree only depends on the child links of its nodes and the parent links of
its nodes other than the root. -/
theorem Hangs.congr (hangs : links.Hangs root tree) (children : ∀ entry ∈ treeNodes tree,
      links'.left entry = links.left entry ∧ links'.right entry = links.right entry)
    (parents : ∀ entry ∈ treeNodes tree, root ≠ some entry →
      links'.parent entry = links.parent entry) (nodup : (treeNodes tree).Nodup) :
    links'.Hangs root tree := by
  induction tree generalizing root with
  | nil => exact hangs
  | node value left right leftKept rightKept =>
    obtain ⟨atRoot, ⟨leftHangs, leftBacked⟩, rightHangs, rightBacked⟩ := hangs
    have sameChildren := children value (by simp)
    rw [treeNodes_node, List.nodup_cons, List.nodup_append] at nodup
    obtain ⟨fresh, leftNodup, rightNodup, -⟩ := nodup
    have below : ∀ entry ∈ treeNodes left ++ treeNodes right,
        (links'.left entry = links.left entry ∧ links'.right entry = links.right entry) ∧
          links'.parent entry = links.parent entry := by
      intro entry member
      have inside : entry ∈ treeNodes (.node value left right) := List.mem_cons_of_mem _ member
      refine ⟨children entry inside, parents entry inside ?_⟩
      rw [atRoot]
      rintro ⟨rfl⟩
      exact fresh member
    have backed : ∀ {child sub}, links.Hangs child sub → links.Backed child value →
        treeNodes sub ⊆ treeNodes left ++ treeNodes right → links'.Backed child value := by
      rintro child sub hangs back inside entry rfl
      rw [(below entry (inside hangs.root_mem)).2]
      exact back entry rfl
    refine ⟨atRoot, ?_, ?_⟩
    · rw [sameChildren.1]
      refine ⟨leftKept leftHangs ?_ ?_ leftNodup, backed leftHangs leftBacked (by simp)⟩
      · exact fun entry member => (below entry (by simp [member])).1
      · exact fun entry member _ => (below entry (by simp [member])).2
    rw [sameChildren.2]
    refine ⟨rightKept rightHangs ?_ ?_ rightNodup, backed rightHangs rightBacked (by simp)⟩
    · exact fun entry member => (below entry (by simp [member])).1
    · exact fun entry member _ => (below entry (by simp [member])).2

theorem Hangs.frame (hangs : links.Hangs root tree) (nodup : (treeNodes tree).Nodup)
    (same : ∀ entry ∈ treeNodes tree, links.SameAt links' entry) : links'.Hangs root tree :=
  hangs.congr (fun entry member => ⟨(same entry member).left, (same entry member).right⟩)
    (fun entry member _ => (same entry member).parent) nodup

section Mutation

variable [DecidableEq ι]

def setChildren (links : TreeLinks ι) (entry : ι) (left right : Option ι) : TreeLinks ι where
  parent := links.parent
  left := update links.left entry left
  right := update links.right entry right

def setParent (links : TreeLinks ι) (child : Option ι) (parent : Option ι) : TreeLinks ι where
  parent := match child with
    | none => links.parent
    | some entry => update links.parent entry parent
  left := links.left
  right := links.right

variable {child parent : Option ι} {node : ι}

theorem setParent_parent (links : TreeLinks ι) (notChild : child ≠ some entry) :
    (links.setParent child parent).parent entry = links.parent entry := by
  cases child with
  | none => rfl
  | some child =>
    have different : entry ≠ child := fun same => notChild (by rw [same])
    exact update_of_ne different _ _

theorem setChildren_setParent_sameAt (links : TreeLinks ι)
    {left right : Option ι} (other : entry ≠ node) (notChild : child ≠ some entry) :
    links.SameAt ((links.setChildren node left right).setParent child parent) entry where
  parent := (links.setChildren node left right).setParent_parent notChild
  left := update_of_ne other _ _
  right := update_of_ne other _ _

/-- Hanging a tree under a node on the left, next to a tree that already points
back to the node. -/
theorem Hangs.adopt {sibling : Option ι}
    {left right : BinaryTree ι} (childHangs : links.Hangs child left)
    (siblingHangs : links.Hangs sibling right) (siblingBacked : links.Backed sibling node)
    (nodup : (node :: (treeNodes left ++ treeNodes right)).Nodup) :
    ((links.setChildren node child sibling).setParent child (some node)).Hangs
      (some node) (.node node left right) := by
  rw [List.nodup_cons, List.mem_append, not_or, List.nodup_append] at nodup
  obtain ⟨⟨notLeft, notRight⟩, leftNodup, rightNodup, apart⟩ := nodup
  have siblingApart : ∀ entry ∈ treeNodes right, child ≠ some entry := by
    rintro entry member rfl
    exact apart entry childHangs.root_mem entry member rfl
  refine ⟨rfl, ⟨?_, ?_⟩, ?_, ?_⟩
  · change Hangs _ (update links.left node child node) left
    rw [update_self]
    apply childHangs.congr
    · intro entry member
      have other : entry ≠ node := fun same => notLeft (same ▸ member)
      exact ⟨update_of_ne other _ _, update_of_ne other _ _⟩
    · intro entry member notChild
      have other : entry ≠ node := fun same => notLeft (same ▸ member)
      exact (links.setChildren_setParent_sameAt other notChild).parent
    · exact leftNodup
  · change Backed _ (update links.left node child node) node
    rw [update_self]
    rintro entry rfl
    exact update_self _ _ _
  · change Hangs _ (update links.right node sibling node) right
    rw [update_self]
    apply siblingHangs.frame rightNodup
    intro entry member
    have other : entry ≠ node := fun same => notRight (same ▸ member)
    exact links.setChildren_setParent_sameAt other (siblingApart entry member)
  change Backed _ (update links.right node sibling node) node
  rw [update_self]
  rintro entry rfl
  have member := siblingHangs.root_mem
  have other : entry ≠ node := fun same => notRight (same ▸ member)
  rw [(links.setChildren_setParent_sameAt other (siblingApart entry member)).parent]
  exact siblingBacked entry rfl

end Mutation

end TreeLinks

end UcoreSmp
