import Mathlib.Logic.Basic
import Reckoner.Tree

/-!
What the operations on trees do to the nodes. Adding a node changes no other one, changing a node
changes only that one, and making nodes the children of another changes their parents and the children
of that node and nothing else.
-/
namespace Reckoner.Tree

theorem node_of_size_le {tree : Tree} {id : NodeId} (h : tree.size ≤ id) :
    tree.node id = default := by
  simp only [size] at h
  simp [node, Array.getElem?_eq_none h]

@[simp] theorem node_push_size (tree : Tree) (node : Node) :
    (tree.push node).node tree.size = node := by
  simp [Tree.node, push, size]

theorem node_push_of_lt {tree : Tree} {id : Nat} (node : Node) (h : id < tree.size) :
    (tree.push node).node id = tree.node id := by
  simp only [size] at h
  simp [Tree.node, push, Array.getElem?_push_lt, h]

theorem node_modify (tree : Tree) (id other : NodeId) (change : Node → Node) :
    (tree.modify id change).node other =
      if id = other ∧ other < tree.size then change (tree.node other) else tree.node other := by
  simp only [Tree.node, nodes_modify, size]
  by_cases h : other < tree.nodes.size
  · by_cases same : id = other <;> simp [same, h]
  · simp [h]

theorem node_setSlot (tree : Tree) (id other : NodeId) (slot : Slot) :
    (tree.setSlot id slot).node other =
      if id = other ∧ other < tree.size then { tree.node other with slot := slot }
      else tree.node other :=
  node_modify ..

theorem node_setType (tree : Tree) (id other : NodeId) (type : ValueType) :
    (tree.setType id type).node other =
      if id = other ∧ other < tree.size then { tree.node other with type := type }
      else tree.node other :=
  node_modify ..

@[simp] theorem children_setType (tree : Tree) (id other : NodeId) (type : ValueType) :
    ((tree.setType id type).node other).children = (tree.node other).children := by
  rw [node_setType]
  split <;> rfl

@[simp] theorem kind_setType (tree : Tree) (id other : NodeId) (type : ValueType) :
    ((tree.setType id type).node other).kind = (tree.node other).kind := by
  rw [node_setType]
  split <;> rfl

@[simp] theorem kind_setSlot (tree : Tree) (id other : NodeId) (slot : Slot) :
    ((tree.setSlot id slot).node other).kind = (tree.node other).kind := by
  rw [node_setSlot]
  split <;> rfl

@[simp] theorem size_setSlot (tree : Tree) (id : NodeId) (slot : Slot) :
    (tree.setSlot id slot).size = tree.size :=
  size_modify ..

@[simp] theorem size_setType (tree : Tree) (id : NodeId) (type : ValueType) :
    (tree.setType id type).size = tree.size :=
  size_modify ..

@[simp] theorem size_attach (tree : Tree) (parent child : NodeId) :
    (tree.attach parent child).size = tree.size := by
  simp [attach, size_modify]

/-- The tree in which the listed nodes have become the last children of `parent`. -/
def attachAll (tree : Tree) (parent : NodeId) (children : List NodeId) : Tree :=
  children.foldl (fun tree child => tree.attach parent child) tree

@[simp] theorem size_attachAll (tree : Tree) (parent : NodeId) (children : List NodeId) :
    (tree.attachAll parent children).size = tree.size := by
  induction children generalizing tree with
  | nil => rfl
  | cons child rest ih => exact (ih (tree.attach parent child)).trans (size_attach ..)

private theorem node_attach {tree : Tree} (parent child : NodeId) {other : NodeId}
    (h : other < tree.size) :
    (tree.attach parent child).node other =
      { tree.node other with
        parent := if other = child then some parent else (tree.node other).parent
        children :=
          if parent = other then (tree.node other).children ++ [child]
          else (tree.node other).children } := by
  simp only [attach, node_modify, size_modify, h, and_true]
  by_cases isChild : child = other <;> by_cases isParent : parent = other <;>
    simp [isChild, isParent, eq_comm]

/-- The attached nodes have the new parent, the parent has them after the children it had, and
everything else is as it was. -/
theorem node_attachAll {tree : Tree} (parent : NodeId) (children : List NodeId) {other : NodeId}
    (h : other < tree.size) :
    (tree.attachAll parent children).node other =
      { tree.node other with
        parent := if other ∈ children then some parent else (tree.node other).parent
        children :=
          if parent = other then (tree.node other).children ++ children
          else (tree.node other).children } := by
  induction children generalizing tree with
  | nil => simp [attachAll]
  | cons child rest ih =>
    have step := @ih (tree.attach parent child) (by simpa using h)
    rw [node_attach parent child h] at step
    refine step.trans ?_
    rcases eq_or_ne other child with rfl | isOther
    · by_cases isParent : parent = other <;> simp [isParent]
    · by_cases isParent : parent = other <;> simp [isParent, isOther]

end Reckoner.Tree
