import Reckoner.Proofs.Tree.Outline

/-!
The order of evaluation as it comes about: a walk with a stack, on which a node is put back below its
children when it comes up for the first time. Such a walk meets every node of an outline once, children
before their parent and each child with all that is below it before the next one, and it meets the leaves
in the order in which they stand.
-/
namespace Reckoner.Tree

variable {tree : Tree}

/-- What a walk meets, given the nodes on its stack, the next one first, and for each of them whether it
has been up before. -/
inductive Walks (tree : Tree) : List (NodeId × Bool) → List NodeId → Prop where
  | done : Walks tree [] []
  | again {id : NodeId} {stack : List (NodeId × Bool)} {order : List NodeId} :
      Walks tree stack order → Walks tree ((id, true) :: stack) (id :: order)
  | first {id : NodeId} {stack : List (NodeId × Bool)} {order : List NodeId} :
      Walks tree ((tree.node id).children.map (·, false) ++ (id, true) :: stack) order →
        Walks tree ((id, false) :: stack) order

private theorem walks_parts {parts : List (Rose NodeId)} {stack : List (NodeId × Bool)}
    {order : List NodeId}
    (each : ∀ part ∈ parts, ∀ stack order, tree.Walks stack order →
      tree.Walks ((part.label, false) :: stack) (part.postorder ++ order))
    (rest : tree.Walks stack order) :
    tree.Walks (parts.map (fun part => (part.label, false)) ++ stack)
      (parts.flatMap Rose.postorder ++ order) := by
  induction parts with
  | nil => exact rest
  | cons part parts ih =>
    rw [List.flatMap_cons, List.append_assoc]
    apply each part List.mem_cons_self
    exact ih fun p mem => each p (List.mem_cons_of_mem _ mem)

/-- A walk meets what an outline shows in its postorder. -/
theorem walks_postorder {outline : Rose NodeId} (shows : tree.Shows outline)
    {stack : List (NodeId × Bool)} {order : List NodeId} (rest : tree.Walks stack order) :
    tree.Walks ((outline.label, false) :: stack) (outline.postorder ++ order) := by
  induction shows generalizing stack order with
  | node id parts children _ ih =>
    rw [Rose.postorder_node, List.append_assoc]
    apply Walks.first
    rw [Rose.label, children, List.map_map]
    exact walks_parts (fun part mem stack order => ih part mem) (.again rest)

/-- The children of a node stand in the postorder from left to right. -/
theorem children_sublist {outline : Rose NodeId} (shows : tree.Shows outline) {id : NodeId}
    (mem : id ∈ outline.postorder) : (tree.node id).children.Sublist outline.postorder := by
  induction shows with
  | node top parts children _ ih =>
    rw [Rose.postorder_node] at mem ⊢
    apply List.sublist_append_of_sublist_left
    rcases List.mem_append.mp mem with below | isTop
    · obtain ⟨part, isPart, inside⟩ := List.mem_flatMap.mp below
      exact (ih part isPart inside).trans (List.sublist_flatten_of_mem (List.mem_map_of_mem isPart))
    · obtain rfl : id = top := by simpa using isTop
      rw [children]
      exact Rose.map_label_sublist parts

/-- Whether a node has no children. -/
def isLeaf (tree : Tree) (id : NodeId) : Bool :=
  (tree.node id).children.isEmpty

/-- The leaves stand in the same order before and after sorting their parents in. -/
theorem filter_isLeaf {outline : Rose NodeId} (shows : tree.Shows outline) (before : NodeId → Nat) :
    (outline.inorder before).filter tree.isLeaf = outline.postorder.filter tree.isLeaf := by
  induction shows with
  | node id parts children _ ih =>
    rw [Rose.inorder_node, Rose.postorder_node]
    by_cases none : parts = []
    · simp [none]
    · have inner : tree.isLeaf id = false := by simp [Tree.isLeaf, children, none]
      have below : parts.flatMap (fun part => (part.inorder before).filter tree.isLeaf) =
          parts.flatMap (fun part => part.postorder.filter tree.isLeaf) := List.flatMap_congr ih
      rw [List.filter_append, List.filter_append, List.filter_cons_of_neg (by simp [inner]),
        List.filter_cons_of_neg (by simp [inner]), List.filter_nil, List.append_nil, List.filter_flatMap,
        List.filter_flatMap, List.filter_flatMap, ← List.flatMap_append, List.take_append_drop]
      exact below

end Reckoner.Tree
