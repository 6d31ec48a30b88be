import Reckoner.Tree

/-!
Trees as text, operator first and parentheses around every operation: `(+ 1 (* 2 3))`. The text is
written from left to right with a stack of what is still to be written, so the depth of the tree
does not matter.
-/
namespace Reckoner.Tree

/-- Something still to be written: a node, at most so many levels deep, or a mark. -/
inductive Piece where
  | node (depth : Nat) (id : NodeId)
  | mark (text : String)

/-- The text of a leaf: a name, or a constant as it stands in the source. -/
def leafText? (source : String) (node : Node) : Option String :=
  match node.kind with
  | .variable name => some name
  | .constant => some ((node.span.text? source).getD "?")
  | _ => none

/-- What an operation is called. -/
def headText (node : Node) : String :=
  match node.kind with
  | .root => "root"
  | .operator op .trailing => "post" ++ op.symbol
  | .operator op _ => op.symbol
  | .call name => name
  | _ => ""

/-- The pieces of an operation after its head. -/
def operandPieces (depth : Nat) (children : List NodeId) : List Piece :=
  children.flatMap fun child => [.mark " ", .node depth child]

/-- The number of steps that writing a node takes. -/
def weight (tree : Tree) : Nat → NodeId → Nat
  | 0, _ => 1
  | depth + 1, id =>
    (tree.node id).children.foldr (fun child later => weight tree depth child + 1 + later) 0 + 2

/-- The number of steps that writing pieces takes. -/
def weightOf (tree : Tree) : List Piece → Nat
  | [] => 0
  | .node depth id :: rest => tree.weight depth id + tree.weightOf rest
  | .mark _ :: rest => 1 + tree.weightOf rest

theorem weight_pos (tree : Tree) (depth : Nat) (id : NodeId) : 0 < tree.weight depth id := by
  cases depth <;> simp [weight]

theorem weightOf_operandPieces (tree : Tree) (depth : Nat) (children : List NodeId) (rest : List Piece) :
    tree.weightOf (operandPieces depth children ++ rest) =
      children.foldr (fun child later => tree.weight depth child + 1 + later) 0 + tree.weightOf rest := by
  induction children with
  | nil => exact (Nat.zero_add _).symm
  | cons child children ih =>
    simp only [operandPieces, List.flatMap_cons, List.cons_append, List.nil_append, weightOf,
      List.foldr_cons] at ih ⊢
    omega

/-- Writes the pieces after what is already written. -/
def write (tree : Tree) (source : String) (written : String) : List Piece → String
  | [] => written
  | .mark text :: rest => write tree source (written ++ text) rest
  | .node 0 _ :: rest => write tree source written rest
  | .node (depth + 1) id :: rest =>
    let node := tree.node id
    match leafText? source node with
    | some text => write tree source (written ++ text) rest
    | none =>
      write tree source (written ++ "(" ++ headText node)
        (operandPieces depth node.children ++ .mark ")" :: rest)
termination_by pieces => tree.weightOf pieces
decreasing_by
  · simp [weightOf]
  · simp [weightOf, weight]
  · simp [weightOf, weight_pos]
  · have written := tree.weightOf_operandPieces depth (tree.node id).children (.mark ")" :: rest)
    simp only [weightOf, weight] at written ⊢
    omega

/-- The text of the whole expression, empty for an empty tree. -/
def sexpr (tree : Tree) (source : String) : String :=
  match tree.result? with
  | none => ""
  | some id => tree.write source "" [.node tree.size id]

end Reckoner.Tree
