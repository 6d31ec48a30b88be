import Reckoner.Operator.Apply
import Reckoner.Registry
import Reckoner.Tree

/-!
Values of the nodes of a tree, from the leaves up and from left to right. Every node leaves its value in
its slot: a variable the cell that its name stands for now, which must still have the type it had when
the tree was checked, an operator or a call its result. Both sides of a logical operator are always
evaluated. A failure stops at its node and keeps everything done before it.
-/
namespace Reckoner

/-- A failure of an evaluation, with the place of the node at which it happened. -/
structure EvaluationError where
  cause : RuntimeError
  span : Span
deriving DecidableEq

namespace Tree

/-- The slots of the children of a node. -/
def operandSlots (tree : Tree) (node : Node) : List Slot :=
  node.children.map fun id => (tree.node id).slot

/-- The cell that a variable stands for now. -/
def variableSlot (registry : Registry) (name : String) (type : ValueType) : Action Slot :=
  match registry.cellOf? name with
  | none => throw (.variableUnbound name)
  | some cell =>
    if cell.type = type then return .aliased cell
    else throw (.variableRebound name type cell.type)

/-- The result of an operator. -/
def operatorSlot (op : Operator) (fixity : Fixity) (type : ValueType) (operands : List Slot) :
    Action Slot :=
  match op.implementation? with
  | none => throw (.missingOperator op.symbol)
  | some run =>
    let result :=
      match op.result with
      | .fixed fixed => fixed
      | .sameAsOperand => type
    Slot.owned <$> run ⟨op.symbol, fixity, result, operands⟩

/-- The result of a call, which has to have the type that the tree was checked with. -/
def callSlot (registry : Registry) (name : String) (type : ValueType) (arguments : List Slot) :
    Action Slot := do
  let values ← arguments.mapM Action.readSlot
  let value ← registry.call name values
  if value.type = type then return .owned value
  else throw (.returnType name type value.type)

/-- What a node puts into its slot; constants and the root keep what they have. -/
def slotOf (registry : Registry) (tree : Tree) (id : NodeId) : Action Slot :=
  let node := tree.node id
  match node.kind with
  | .root | .constant => return node.slot
  | .variable name => variableSlot registry name node.type
  | .operator op fixity => operatorSlot op fixity node.type (tree.operandSlots node)
  | .call name => callSlot registry name node.type (tree.operandSlots node)

/-- Fills the slots of the nodes one after the other, until one fails. -/
def fillSlots (registry : Registry) :
    List NodeId → Tree → Host → Except EvaluationError Unit × Tree × Host
  | [], tree, host => (.ok (), tree, host)
  | id :: rest, tree, host =>
    match (slotOf registry tree id).on host with
    | (.ok slot, host) => fillSlots registry rest (tree.setSlot id slot) host
    | (.error cause, host) => (.error ⟨cause, (tree.node id).span⟩, tree, host)

/-- The value of the whole expression as its slots have it; void if there is no expression. -/
def resultValue (tree : Tree) (heap : Heap) : Value :=
  match tree.result? with
  | none => .void
  | some id => (tree.node id).slot.read heap

/-- Evaluates the nodes in an order that has children before parents. The tree keeps the values. -/
def evaluate (registry : Registry) (tree : Tree) (order : List NodeId) (host : Host) :
    Except EvaluationError Value × Tree × Host :=
  match fillSlots registry order tree host with
  | (.ok _, tree, host) => (.ok (tree.resultValue host.heap), tree, host)
  | (.error error, tree, host) => (.error error, tree, host)

end Tree

end Reckoner
