import Reckoner.Proofs.Tree.Outline

/-!
The shapes of trees: what the nodes stand for, what the constants hold and how the nodes hang together,
without their numbers and places. Where children have smaller numbers than their parents, the shape of a node
is made from those of its children.
-/
namespace Reckoner

/-- What a node stands for, and what it holds if it is a constant. -/
structure Node.Content where
  kind : Node.Kind
  held : Option Slot

/-- The content of the node. -/
def Node.content (node : Node) : Node.Content :=
  ⟨node.kind, match node.kind with
    | .constant => some node.slot
    | _ => none⟩

/-- A tree of contents. -/
abbrev Shape :=
  Rose Node.Content

namespace Shape

abbrev constant (value : Value) : Shape :=
  .node ⟨.constant, some (.owned value)⟩ []

abbrev «variable» (name : String) : Shape :=
  .node ⟨.variable name, none⟩ []

abbrev operation (op : Operator) (fixity : Fixity) (operands : List Shape) : Shape :=
  .node ⟨.operator op fixity, none⟩ operands

abbrev call (name : String) (arguments : List Shape) : Shape :=
  .node ⟨.call name, none⟩ arguments

/-- Whether the shape is that of a variable. -/
def isVariable (shape : Shape) : Bool :=
  match shape.label.kind with
  | .variable _ => true
  | _ => false

end Shape

namespace Tree

/-- The shape of what the numbers from a node downwards spell out. -/
def shape (tree : Tree) (id : NodeId) : Shape :=
  (tree.below tree.size id).map fun id => (tree.node id).content

/-- The shape of the whole expression. -/
def shape? (tree : Tree) : Option Shape :=
  tree.result?.map tree.shape

variable {tree other : Tree}

/-- What hangs below a node is the node with what hangs below its children. -/
theorem map_below_eq {α : Type} (f : NodeId → α) (descending : tree.Descending) {id : Nat}
    (lt : id < tree.size) :
    (tree.below tree.size id).map f =
      .node (f id) ((tree.node id).children.map fun child => (tree.below tree.size child).map f) := by
  have next : tree.below tree.size id = tree.below (id + 1) id :=
    below_eq_of_lt descending lt (Nat.lt_succ_self id)
  simp only [next, below, Rose.map_node, List.map_map, Rose.node.injEq, true_and]
  apply List.map_congr_left
  intro child mem
  have smaller := descending id child mem
  rw [Function.comp_apply, below_eq_of_lt descending smaller (Nat.lt_trans smaller lt)]

theorem shape_eq (descending : tree.Descending) {id : Nat} (lt : id < tree.size) :
    tree.shape id = .node (tree.node id).content ((tree.node id).children.map tree.shape) :=
  map_below_eq _ descending lt

theorem isVariable_shape (descending : tree.Descending) {id : Nat} (lt : id < tree.size) :
    (tree.shape id).isVariable = (tree.node id).isVariable := by
  rw [shape_eq descending lt]
  rfl

/-- Trees whose nodes have the same children hang together in the same way. -/
theorem below_congr (same : ∀ id, (other.node id).children = (tree.node id).children) (depth id : Nat) :
    other.below depth id = tree.below depth id := by
  induction depth generalizing id with
  | zero => rfl
  | succ depth ih =>
    simp only [below, same, Rose.node.injEq, true_and]
    exact List.map_congr_left fun child _ => ih child

/-- Trees that also hold the same have the same shapes. -/
theorem shape_congr (size : other.size = tree.size)
    (children : ∀ id, (other.node id).children = (tree.node id).children)
    (content : ∀ id, (other.node id).content = (tree.node id).content) (id : NodeId) :
    other.shape id = tree.shape id := by
  simp only [shape, size, below_congr children, content]

end Tree

end Reckoner
