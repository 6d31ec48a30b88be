import Reckoner.Host.Heap
import Reckoner.Operator
import Reckoner.Span

/-!
Expression trees. The nodes of a tree are numbered and refer to each other by number, a parent to
its children in order and a child to its parent. A root node stands above the node of the whole
expression. Every node has a place for its value and a type that does not change with the value.
-/
namespace Reckoner

/-- The number of a node in its tree. Building a tree makes at most three nodes for a lexeme and four more, so a number
fits into 32 bits if there are no more than 2^30 lexemes. -/
abbrev NodeId :=
  Nat

/-- What a node stands for. -/
inductive Node.Kind where
  | root
  | operator (op : Operator) (fixity : Fixity)
  | call (name : String)
  | variable (name : String)
  | constant
deriving DecidableEq, Inhabited

/-- A node of a tree. -/
structure Node where
  kind : Node.Kind
  children : List NodeId
  parent : Option NodeId
  span : Span
  type : ValueType
  slot : Slot

namespace Node

instance : Inhabited Node := ⟨⟨.root, [], none, default, .void, default⟩⟩

/-- A node without relatives, of the type of what it holds. -/
def alone (kind : Kind) (span : Span) (slot : Slot) : Node :=
  ⟨kind, [], none, span, slot.type, slot⟩

/-- Whether the node is a variable, which can be assigned to. -/
def isVariable (node : Node) : Bool :=
  match node.kind with
  | .variable _ => true
  | _ => false

end Node

/-- Numbered nodes, and which of them is the root. -/
structure Tree where
  nodes : Array Node
  root : Option NodeId

namespace Tree

/-- The tree without nodes. -/
def empty : Tree :=
  ⟨#[], none⟩

instance : Inhabited Tree := ⟨empty⟩

/-- The number of nodes. -/
def size (tree : Tree) : Nat :=
  tree.nodes.size

/-- Whether there are no nodes. -/
def isEmpty (tree : Tree) : Bool :=
  tree.nodes.isEmpty

/-- The node of a number. -/
def node (tree : Tree) (id : NodeId) : Node :=
  tree.nodes[id]?.getD default

/-- Adds a node, whose number is the number of nodes so far. -/
def push (tree : Tree) (node : Node) : Tree :=
  { tree with nodes := tree.nodes.push node }

/-- Changes one node. -/
def modify (tree : Tree) (id : NodeId) (change : Node → Node) : Tree :=
  { tree with nodes := tree.nodes.modify id change }

/-- Makes a node the last child of another. -/
def attach (tree : Tree) (parent child : NodeId) : Tree :=
  (tree.modify child fun node => { node with parent := some parent }).modify parent
    fun node => { node with children := node.children ++ [child] }

/-- Puts another value into a node. -/
def setSlot (tree : Tree) (id : NodeId) (slot : Slot) : Tree :=
  tree.modify id fun node => { node with slot := slot }

/-- Gives a node its type. -/
def setType (tree : Tree) (id : NodeId) (type : ValueType) : Tree :=
  tree.modify id fun node => { node with type := type }

/-- The node of the whole expression, which is the child of the root. -/
def result? (tree : Tree) : Option NodeId :=
  tree.root.bind fun root => (tree.node root).children.head?

/-- The nodes below and including a node, children first and from left to right, in front of those
that come later. `depth` bounds how far down to go. -/
def orderBelow (tree : Tree) : Nat → NodeId → List NodeId → List NodeId
  | 0, _, later => later
  | depth + 1, id, later => (tree.node id).children.foldr (orderBelow tree depth) (id :: later)

/-- All nodes, children before parents and siblings from left to right, so that the root is last.
No path down a tree is longer than the number of its nodes. -/
def postOrder (tree : Tree) : List NodeId :=
  match tree.root with
  | none => []
  | some root => tree.orderBelow tree.size root []

/-- The type of the whole expression; void if there is none. -/
def resultType (tree : Tree) : ValueType :=
  match tree.result? with
  | none => .void
  | some id => (tree.node id).type

theorem nodes_modify (tree : Tree) (id other : NodeId) (change : Node → Node) :
    (tree.modify id change).nodes[other]? =
      if id = other then tree.nodes[other]?.map change else tree.nodes[other]? := by
  simp [modify, Array.getElem?_modify]

theorem size_modify (tree : Tree) (id : NodeId) (change : Node → Node) :
    (tree.modify id change).size = tree.size := by
  simp [modify, size]

theorem size_push (tree : Tree) (node : Node) : (tree.push node).size = tree.size + 1 := by
  simp [push, size]

end Tree

end Reckoner
