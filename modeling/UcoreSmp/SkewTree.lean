import Mathlib.Data.Tree.Basic
import Mathlib.Data.List.Perm.Basic

/-!
# Skew merging of binary trees

The purely functional side of a skew heap.  `skewMerge` merges two trees along
their right spines and swaps the children of every node it passes.  Merging
neither loses nor repeats a node, whatever the comparison does; when the
comparison agrees with a transitive order on the nodes it really compares,
merging two heaps gives a heap.
-/

namespace UcoreSmp

open List

variable {ι : Type*}

def treeNodes : BinaryTree ι → List ι
  | .nil => []
  | .node root left right => root :: (treeNodes left ++ treeNodes right)

@[simp]
theorem treeNodes_nil : treeNodes (.nil : BinaryTree ι) = [] :=
  rfl

@[simp]
theorem treeNodes_node (root : ι) (left right : BinaryTree ι) : treeNodes (.node root left right) =
      root :: (treeNodes left ++ treeNodes right) :=
  rfl

/-- Merge two trees along their right spines, swapping the children of every
node passed. -/
def skewMerge (less : ι → ι → Bool) : BinaryTree ι → BinaryTree ι → BinaryTree ι
  | .nil, other => other
  | .node root left right, .nil => .node root left right
  | .node root left right, .node root' left' right' =>
    if less root root' then
      .node root (skewMerge less right (.node root' left' right')) left
    else
      .node root' (skewMerge less (.node root left right) right') left'
termination_by first second => first.numNodes + second.numNodes
decreasing_by all_goals simp only [BinaryTree.numNodes]; omega

@[simp]
theorem skewMerge_nil_left (less : ι → ι → Bool) (other : BinaryTree ι) :
    skewMerge less .nil other = other := by
  rw [skewMerge]

@[simp]
theorem skewMerge_nil_right (less : ι → ι → Bool) (tree : BinaryTree ι) :
    skewMerge less tree .nil = tree := by
  cases tree with
  | nil => rw [skewMerge]
  | node root left right => rw [skewMerge]

theorem treeNodes_skewMerge_perm (less : ι → ι → Bool) (first second : BinaryTree ι) :
    (treeNodes (skewMerge less first second)).Perm (treeNodes first ++ treeNodes second) := by
  fun_induction skewMerge less first second with
  | case1 other => simp
  | case2 root left right => simp
  | case3 root left right root' left' right' smaller ih =>
    have swapped := (ih.append_right (treeNodes left)).trans perm_append_comm
    simpa using swapped.cons root
  | case4 root left right root' left' right' notSmaller ih =>
    have swapped := ih.append_right (treeNodes left')
    refine (swapped.cons root').trans ?_
    refine List.Perm.trans ?_ perm_middle.symm
    rw [append_assoc]
    exact ((perm_append_comm).append_left _).cons root'

theorem mem_skewMerge (less : ι → ι → Bool) (first second : BinaryTree ι) (node : ι) :
    node ∈ treeNodes (skewMerge less first second) ↔
      node ∈ treeNodes first ∨ node ∈ treeNodes second := by
  rw [(treeNodes_skewMerge_perm less first second).mem_iff, mem_append]

theorem length_treeNodes (tree : BinaryTree ι) : (treeNodes tree).length = tree.numNodes := by
  induction tree with
  | nil => rfl
  | node root left right leftLength rightLength =>
    simp [leftLength, rightLength]

theorem numNodes_skewMerge (less : ι → ι → Bool) (first second : BinaryTree ι) :
    (skewMerge less first second).numNodes = first.numNodes + second.numNodes := by
  rw [← length_treeNodes, (treeNodes_skewMerge_perm less first second).length_eq,
    length_append, length_treeNodes, length_treeNodes]

section Order

variable {below : ι → ι → Prop}

/-- Every node of the tree lies below all nodes under it. -/
def HeapOrdered (below : ι → ι → Prop) : BinaryTree ι → Prop
  | .nil => True
  | .node root left right =>
    (∀ node ∈ treeNodes left ++ treeNodes right, below root node) ∧
      HeapOrdered below left ∧ HeapOrdered below right

theorem HeapOrdered.root_below {root : ι} {left right : BinaryTree ι}
    (ordered : HeapOrdered below (.node root left right)) (reflexive : below root root) :
    ∀ node ∈ treeNodes (.node root left right), below root node := by
  intro node member
  rcases mem_cons.mp member with rfl | deeper
  · exact reflexive
  · exact ordered.1 node deeper

theorem HeapOrdered.congr {below' : ι → ι → Prop} {tree : BinaryTree ι}
    (ordered : HeapOrdered below tree) (same : ∀ node ∈ treeNodes tree, ∀ other ∈ treeNodes tree,
      below node other → below' node other) :
    HeapOrdered below' tree := by
  induction tree with
  | nil => trivial
  | node root left right leftOrdered rightOrdered =>
    refine ⟨?_, ?_, ?_⟩
    · intro node member
      exact same root (by simp) node (by simp at member ⊢; tauto) (ordered.1 node member)
    · apply leftOrdered ordered.2.1
      intro node member other otherMember
      exact same node (by simp [member]) other (by simp [otherMember])
    · apply rightOrdered ordered.2.2
      intro node member other otherMember
      exact same node (by simp [member]) other (by simp [otherMember])

/-- Merging two heaps gives a heap, as soon as the comparison agrees with a
transitive order between the nodes of the two. -/
theorem HeapOrdered.skewMerge {less : ι → ι → Bool} (transitive : ∀ first second third,
      below first second → below second third → below first third) {first second : BinaryTree ι}
    (firstOrdered : HeapOrdered below first) (secondOrdered : HeapOrdered below second)
    (agrees : ∀ node ∈ treeNodes first, ∀ other ∈ treeNodes second,
      if less node other then below node other else below other node) :
    HeapOrdered below (skewMerge less first second) := by
  fun_induction UcoreSmp.skewMerge less first second with
  | case1 other => exact secondOrdered
  | case2 root left right => exact firstOrdered
  | case3 root left right root' left' right' smaller ih =>
    have rootBelow : below root root' := by
      have := agrees root (by simp) root' (by simp)
      rwa [if_pos smaller] at this
    refine ⟨?_, ?_, firstOrdered.2.1⟩
    · intro node member
      rw [mem_append, mem_skewMerge, treeNodes_node, mem_cons] at member
      rcases member with (inRight | rfl | deeper) | inLeft
      · exact firstOrdered.1 node (by simp [inRight])
      · exact rootBelow
      · exact transitive _ _ _ rootBelow (secondOrdered.1 node deeper)
      · exact firstOrdered.1 node (by simp [inLeft])
    · apply ih firstOrdered.2.2 secondOrdered
      intro node member
      exact agrees node (by simp [member])
  | case4 root left right root' left' right' notSmaller ih =>
    have rootBelow : below root' root := by
      have := agrees root (by simp) root' (by simp)
      rwa [if_neg notSmaller] at this
    refine ⟨?_, ?_, secondOrdered.2.1⟩
    · intro node member
      rw [mem_append, mem_skewMerge, treeNodes_node, mem_cons] at member
      rcases member with ((rfl | deeper) | inRight) | inLeft
      · exact rootBelow
      · exact transitive _ _ _ rootBelow (firstOrdered.1 node deeper)
      · exact secondOrdered.1 node (by simp [inRight])
      · exact secondOrdered.1 node (by simp [inLeft])
    · apply ih firstOrdered secondOrdered.2.2
      intro node member other otherMember
      exact agrees node member other (by simp [otherMember])

end Order

end UcoreSmp
