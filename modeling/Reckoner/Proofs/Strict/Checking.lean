import Reckoner.Expression
import Reckoner.Proofs.Builder.Arrangement
import Reckoner.Proofs.Strict.Building
import Reckoner.Proofs.Strict.Classifying
import Reckoner.Proofs.Strict.Lexing
import Reckoner.Proofs.Tree.Check

/-!
Checking with every index looked at, and with it the whole way from a source to a checked tree. In a formed
tree every child has a smaller number than its parent, so that all nodes that are named are there.
-/
namespace Reckoner.Strict

open Reckoner.Tree (Operand)

/-- The nodes below and including a node, children first, in front of those that come later. -/
def orderBelow (tree : Tree) : Nat → NodeId → List NodeId → Strict CompileError (List NodeId)
  | 0, _, _ => need none
  | depth + 1, id, later => do
    let node ← need tree.nodes[id]?
    node.children.foldrM (orderBelow tree depth) (id :: later)

/-- All nodes, children before parents and siblings from left to right. -/
def postOrder (tree : Tree) : Strict CompileError (List NodeId) :=
  match tree.root with
  | none => return []
  | some root => orderBelow tree tree.size root []

/-- The children of a node, for the checker. -/
def operandsOf (tree : Tree) (node : Node) : Strict CompileError (List Operand) :=
  node.children.mapM fun id => do
    let child ← need tree.nodes[id]?
    return ⟨child.type, child.span, child.isVariable⟩

/-- The type of an operation, which has a first operand once their number is right. -/
def checkOperator (op : Operator) (fixity : Fixity) (span : Span) (operands : List Operand) :
    Strict CompileError ValueType := do
  if operands.length = fixity.operandCount then
    within (0 < operands.length)
  lift (Tree.checkOperator op fixity span operands)

/-- The type of a node whose children have theirs. -/
def checkNode (registry : Registry) (tree : Tree) (id : NodeId) : Strict CompileError ValueType := do
  let node ← need tree.nodes[id]?
  let operands ← operandsOf tree node
  match node.kind with
  | .constant | .variable _ => return node.type
  | .root => return operands.head?.elim .void (·.type)
  | .operator op fixity => checkOperator op fixity node.span operands
  | .call name => lift (Tree.checkCall registry name node.span operands)

/-- Gives types to the nodes in an order that has children before parents. -/
def check (registry : Registry) (tree : Tree) : List NodeId → Strict CompileError Tree
  | [] => return tree
  | id :: rest => do
    let type ← checkNode registry tree id
    within ((id : Nat) < tree.size)
    check registry (tree.setType id type) rest

/-- The node of the whole expression. -/
def result (tree : Tree) : Strict CompileError (Option Node) :=
  match tree.root with
  | none => return none
  | some root => do
    let node ← need tree.nodes[root]?
    match node.children.head? with
    | none => return none
    | some id => some <$> need tree.nodes[id]?

/-- The checked tree of a source, with the order of its nodes. -/
def compileTree (registry : Registry) (passLimit : Nat) (source : String) :
    Strict CompileError (Tree × List NodeId) := do
  let lexemes ← tokenize source
  let classified ← classify registry lexemes
  let tree ← build source classified passLimit
  let order ← postOrder tree
  let checked ← check registry tree order
  let _ ← result checked
  return (checked, order)

variable {registry : Registry} {tree : Tree} {root top : Nat}

theorem nodes_eq {id : Nat} (inside : id < tree.size) : tree.nodes[id]? = some (tree.node id) := by
  rw [Tree.node, Array.getElem?_eq_getElem inside]
  rfl

theorem orderBelow_eq (descending : tree.Descending) {depth id : Nat} (deep : id < depth)
    (inside : id < tree.size) (later : List NodeId) :
    orderBelow tree depth id later = pure (tree.orderBelow depth id later) := by
  induction depth generalizing id later with
  | zero => exact absurd deep (Nat.not_lt_zero id)
  | succ depth ih =>
    rw [orderBelow, nodes_eq inside, need_some, pure_bind, Tree.orderBelow]
    have below : ∀ child : Nat, child ∈ (tree.node id).children → child < id := descending id
    generalize (tree.node id).children = children at below
    induction children with
    | nil => rfl
    | cons child others rest =>
      have lower := below child List.mem_cons_self
      rw [List.foldrM_cons, rest fun other mem => below other (List.mem_cons_of_mem _ mem), pure_bind,
        ih (by omega) (Nat.lt_trans lower inside)]
      rfl

theorem postOrder_eq (formed : tree.Formed registry root top) : postOrder tree = pure tree.postOrder := by
  unfold postOrder Tree.postOrder
  rw [formed.root_eq]
  exact orderBelow_eq formed.descending formed.root_lt formed.root_lt []

theorem operandsOf_eq {node : Node} (inside : ∀ child : Nat, child ∈ node.children → child < tree.size) :
    operandsOf tree node = pure (tree.operandsOf node) := by
  unfold operandsOf Tree.operandsOf
  generalize node.children = children at inside
  induction children with
  | nil => rfl
  | cons child others ih =>
    rw [List.mapM_cons, nodes_eq (inside child List.mem_cons_self), need_some, pure_bind, pure_bind,
      ih fun other mem => inside other (List.mem_cons_of_mem _ mem), pure_bind]
    rfl

theorem checkOperator_eq (op : Operator) (fixity : Fixity) (span : Span) (operands : List Operand) :
    checkOperator op fixity span operands = lift (Tree.checkOperator op fixity span operands) := by
  unfold checkOperator
  split
  · next count =>
    have some : 0 < operands.length := by
      rw [count]
      cases fixity <;> decide
    rw [within_eq some, pure_bind]
  · rfl

theorem checkNode_eq (descending : tree.Descending) {id : Nat} (inside : id < tree.size) :
    checkNode registry tree id = lift (tree.checkNode registry id) := by
  rw [checkNode, nodes_eq inside, need_some, pure_bind, operandsOf_eq fun child mem =>
    Nat.lt_trans (descending id child mem) inside, pure_bind, Tree.checkNode]
  cases (tree.node id).kind with
  | constant | «variable» | root => rfl
  | operator op fixity => exact checkOperator_eq ..
  | call name => rfl

/-- Checking nodes that are there finds their children too. -/
theorem check_eq (descending : tree.Descending) {order : List NodeId}
    (inside : ∀ id : Nat, id ∈ order → id < tree.size) :
    check registry tree order =
      lift (match tree.check registry order with
        | (.ok _, checked) => .ok checked
        | (.error error, _) => .error error) := by
  induction order generalizing tree with
  | nil => rfl
  | cons id rest ih =>
    have here := inside id List.mem_cons_self
    rw [check, checkNode_eq descending here, Tree.check]
    cases Tree.checkNode registry tree id with
    | error error => rfl
    | ok type =>
      rw [lift_ok, pure_bind, within_eq here, pure_bind]
      refine ih ?_ ?_
      · intro id child mem
        rw [Tree.children_setType] at mem
        exact descending id child mem
      · intro other mem
        rw [Tree.size_setType]
        exact inside other (List.mem_cons_of_mem _ mem)

theorem result_eq (formed : tree.Formed registry root top) {order : List NodeId} {checked : Tree}
    {reply : Except CompileError Unit} (ran : tree.check registry order = (reply, checked)) :
    result checked = pure (some (checked.node top)) := by
  obtain ⟨size, same⟩ := Tree.size_check ran
  obtain ⟨type, root_node⟩ := Tree.node_check ran root
  rw [result, same, formed.root_eq]
  simp only
  rw [nodes_eq (by rw [size]; exact formed.root_lt), need_some, pure_bind, root_node, formed.children_root]
  simp only [List.head?_cons]
  rw [nodes_eq (by rw [size]; exact Nat.lt_trans formed.result_lt formed.root_lt)]
  rfl

/-- Compiling uses no index that is out of range. -/
theorem compileTree_eq (registry : Registry) (passLimit : Nat) (source : String) :
    compileTree registry passLimit source = lift (Expression.compileTree registry passLimit source) := by
  rw [compileTree, tokenize_eq, Expression.compileTree, Expression.parse]
  simp only [bind_assoc]
  refine lift_bind fun lexemes read => ?_
  rw [classify_eq]
  refine lift_bind fun classified known => ?_
  rw [build_eq]
  refine lift_bind fun tree built => ?_
  obtain ⟨root, top, formed⟩ := Builder.formed_of_build (Lexeme.settled_of_classify read known) built
  rw [postOrder_eq formed, pure_bind, check_eq formed.descending fun id mem => formed.lt_of_mem_postOrder mem]
  cases ran : tree.check registry tree.postOrder with
  | mk reply checked =>
    cases reply with
    | error error => rfl
    | ok =>
      rw [lift_ok, pure_bind, result_eq formed ran, pure_bind]
      rfl

end Reckoner.Strict
