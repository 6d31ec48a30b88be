import Reckoner.Proofs.Grammar.Parser
import Reckoner.Proofs.Tree.Outline

/-!
The terms that the nodes of a tree stand for. Where children have smaller numbers than their parents, the
term of a node is made from those of its children, and does not depend on any later node.
-/
namespace Reckoner

/-- What a term has at a node: what the node stands for, and what a leaf holds and where it stands. -/
def Node.label (node : Node) : Label :=
  ⟨node.kind, match node.kind with
    | .constant | .variable _ => some (node.slot, node.span)
    | _ => none⟩

namespace Tree

/-- The term that the numbers from a node downwards spell out. -/
def term (tree : Tree) (id : NodeId) : Term :=
  (tree.below tree.size id).map fun id => (tree.node id).label

/-- The term of the whole expression. -/
def term? (tree : Tree) : Option Term :=
  tree.result?.map tree.term

variable {tree other : Tree}

theorem term_eq (descending : tree.Descending) {id : Nat} (lt : id < tree.size) :
    tree.term id = .node (tree.node id).label ((tree.node id).children.map tree.term) := by
  have next : tree.below tree.size id = tree.below (id + 1) id :=
    below_eq_of_lt descending lt (Nat.lt_succ_self id)
  simp only [term, next, below, Rose.map_node, List.map_map, Rose.node.injEq, true_and]
  refine List.map_congr_left fun child mem => ?_
  have := descending id child mem
  rw [Function.comp_apply, below_eq_of_lt descending this (Nat.lt_trans this lt)]
  rfl

/-- The term of a node depends on the labels and the children from there downwards only. -/
theorem term_congr (descending : tree.Descending) (descending' : other.Descending) {bound : Nat}
    (le : bound ≤ tree.size) (le' : bound ≤ other.size)
    (same : ∀ id : Nat, id < bound → (other.node id).label = (tree.node id).label ∧
      (other.node id).children = (tree.node id).children) {id : Nat} (lt : id < bound) :
    other.term id = tree.term id := by
  induction id using Nat.strongRecOn with
  | ind id ih =>
    obtain ⟨label, children⟩ := same id lt
    rw [term_eq descending (Nat.lt_of_lt_of_le lt le), term_eq descending' (Nat.lt_of_lt_of_le lt le'),
      label, children]
    simp only [Rose.node.injEq, true_and]
    refine List.map_congr_left fun child mem => ?_
    have := descending id child mem
    exact ih child this (Nat.lt_trans this lt)

end Tree

end Reckoner
