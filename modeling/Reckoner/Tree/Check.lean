import Reckoner.CompileError
import Reckoner.Registry
import Reckoner.Tree

/-!
Types of the nodes of a tree, from the leaves up. Operands of a binary operator have one and the same
type, which the operator has to accept; nothing is converted. An operator that changes its first
operand needs a variable there. Arguments have exactly the types of the parameters.
-/
namespace Reckoner.Tree

/-- What the checker has to know about a child. -/
structure Operand where
  type : ValueType
  span : Span
  isVariable : Bool

/-- The children of a node, for the checker. -/
def operandsOf (tree : Tree) (node : Node) : List Operand :=
  node.children.map fun id =>
    let child := tree.node id
    ⟨child.type, child.span, child.isVariable⟩

/-- The type of an operation. -/
def checkOperator (op : Operator) (fixity : Fixity) (span : Span) (operands : List Operand) :
    Except CompileError ValueType :=
  let symbol := op.symbol
  let resultType (first : Operand) : ValueType :=
    match op.result with
    | .sameAsOperand => first.type
    | .fixed type => type
  let checkTarget (first : Operand) : Except CompileError ValueType :=
    if op.form.lvalueOnly && !first.isVariable then
      .error (CompileError.Cause.atSpan (.notAnLvalue symbol) first.span)
    else .ok (resultType first)
  if operands.length ≠ fixity.operandCount then
    .error (CompileError.Cause.atSpan
      (.operandCount symbol fixity.operandCount operands.length) span)
  else
    match operands with
    | [] => .ok .void
    | first :: others =>
      if !op.operands.accepts first.type then
        .error ((CompileError.Cause.atSpan (.unsupportedOperandType symbol first.type)
          first.span).withRelated span s!"{symbol} operator")
      else
        match others with
        | [] => checkTarget first
        | second :: _ =>
          if second.type ≠ first.type then
            .error (((CompileError.Cause.atSpan
              (.operandTypeMismatch symbol first.type second.type) span).withRelated
                first.span s!"this is {first.type.name}").withRelated
                second.span s!"this is {second.type.name}")
          else checkTarget first

/-- The first argument whose type differs from that of its parameter, counted from one. -/
def checkArguments (name : String) (index : Nat) :
    List ValueType → List Operand → Except CompileError Unit
  | param :: params, argument :: arguments =>
    if param ≠ argument.type then
      .error (CompileError.Cause.atSpan
        (.argumentType name index param argument.type) argument.span)
    else checkArguments name (index + 1) params arguments
  | _, _ => .ok ()

/-- The type of a call. -/
def checkCall (registry : Registry) (name : String) (span : Span) (arguments : List Operand) :
    Except CompileError ValueType :=
  match registry.function? name with
  | none => .error (CompileError.Cause.atSpan (.unknownFunction name) span)
  | some function =>
    if function.params.length ≠ arguments.length then
      .error (CompileError.Cause.atSpan
        (.arityMismatch name function.params.length arguments.length) span)
    else
      match checkArguments name 1 function.params arguments with
      | .error error => .error error
      | .ok _ => .ok function.result

/-- The type of a node whose children have theirs. -/
def checkNode (registry : Registry) (tree : Tree) (id : NodeId) : Except CompileError ValueType :=
  let node := tree.node id
  let operands := tree.operandsOf node
  match node.kind with
  | .constant | .variable _ => .ok node.type
  | .root => .ok (operands.head?.elim .void (·.type))
  | .operator op fixity => checkOperator op fixity node.span operands
  | .call name => checkCall registry name node.span operands

/-- Gives types to the nodes in an order that has children before parents, until one has none. The
tree keeps the types that were given. -/
def check (registry : Registry) (tree : Tree) : List NodeId → Except CompileError Unit × Tree
  | [] => (.ok (), tree)
  | id :: rest =>
    match checkNode registry tree id with
    | .ok type => check registry (tree.setType id type) rest
    | .error error => (.error error, tree)

end Reckoner.Tree
