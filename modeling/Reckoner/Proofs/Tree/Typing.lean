import Mathlib
import Reckoner.Lexeme.Tokenize
import Reckoner.Proofs.Builder.Made
import Reckoner.Proofs.Builder.Wiring
import Reckoner.Proofs.Tree.Check

/-!
The typing rules, over the nodes of a tree. The checker goes through the nodes of a built tree in postorder and puts
down the type of each. It gets to the end just if the rules give every node a type, what it puts down is that type,
and otherwise it stops at the first node that has none.
-/
namespace Reckoner

namespace Tree

/-- The typing rules. -/
inductive HasType (registry : Registry) (tree : Tree) : NodeId → ValueType → Prop where
  | constant {id : NodeId} (kind : (tree.node id).kind = .constant) :
      HasType registry tree id (tree.node id).slot.type
  | cell {id : NodeId} {name : String} (kind : (tree.node id).kind = .variable name) :
      HasType registry tree id (tree.node id).slot.type
  | root {id result : NodeId} {type : ValueType} (kind : (tree.node id).kind = .root)
      (children : (tree.node id).children = [result]) (typed : HasType registry tree result type) :
      HasType registry tree id type
  /-- The operands have one type, which the operator accepts, and an operator that changes its first operand has a
  variable there. -/
  | operation {id first : NodeId} {others : List NodeId} {op : Operator} {fixity : Fixity} {type : ValueType}
      (kind : (tree.node id).kind = .operator op fixity) (children : (tree.node id).children = first :: others)
      (typed : ∀ child ∈ first :: others, HasType registry tree child type)
      (accepted : op.operands.accepts type = true)
      (target : op.form.lvalueOnly = true → (tree.node first).isVariable = true) :
      HasType registry tree id (op.typeFrom type)
  /-- The arguments have the types of the parameters. -/
  | call {id : NodeId} {name : String} {function : HostFunction} (kind : (tree.node id).kind = .call name)
      (found : registry.function? name = some function)
      (count : (tree.node id).children.length = function.params.length)
      (typed : ∀ pair ∈ (tree.node id).children.zip function.params, HasType registry tree pair.1 pair.2) :
      HasType registry tree id function.result

/-- What the checker sees of a child. -/
def operandOf (tree : Tree) (id : NodeId) : Operand :=
  ⟨(tree.node id).type, (tree.node id).span, (tree.node id).isVariable⟩

theorem operandsOf_eq (tree : Tree) (node : Node) : tree.operandsOf node = node.children.map tree.operandOf :=
  rfl

/-- What a child is for the node above it, with the type that the rules give it. -/
structure IsOperand (registry : Registry) (tree : Tree) (child : NodeId) (operand : Operand) : Prop where
  typed : tree.HasType registry child operand.type
  span : operand.span = (tree.node child).span
  isVariable : operand.isVariable = (tree.node child).isVariable

/-- What is said about a node that has no type although its children have. -/
inductive TypeError (registry : Registry) (tree : Tree) (id : NodeId) : CompileError → Prop where
  | operator {op : Operator} {fixity : Fixity} {operands : List Operand} {error : CompileError}
      (kind : (tree.node id).kind = .operator op fixity)
      (children : List.Forall₂ (tree.IsOperand registry) (tree.node id).children operands)
      (wrong : OperatorError op (tree.node id).span operands error) : TypeError registry tree id error
  | call {name : String} {arguments : List Operand} {error : CompileError}
      (kind : (tree.node id).kind = .call name)
      (children : List.Forall₂ (tree.IsOperand registry) (tree.node id).children arguments)
      (wrong : CallError registry name (tree.node id).span arguments error) : TypeError registry tree id error

variable {registry : Registry} {tree base checked : Tree} {order seen : List NodeId} {root result : Nat}
  {id : NodeId} {type : ValueType} {error : CompileError}

section Rules

theorem hasType_constant_iff (kind : (tree.node id).kind = .constant) :
    tree.HasType registry id type ↔ type = (tree.node id).slot.type := by
  constructor
  · intro h
    cases h with
    | constant => rfl
    | cell kind' | root kind' | operation kind' | call kind' => cases kind.symm.trans kind'
  · rintro rfl
    exact .constant kind

theorem hasType_variable_iff {name : String} (kind : (tree.node id).kind = .variable name) :
    tree.HasType registry id type ↔ type = (tree.node id).slot.type := by
  constructor
  · intro h
    cases h with
    | cell => rfl
    | constant kind' | root kind' | operation kind' | call kind' => cases kind.symm.trans kind'
  · rintro rfl
    exact .cell kind

theorem hasType_root_iff {result : NodeId} (kind : (tree.node id).kind = .root)
    (children : (tree.node id).children = [result]) :
    tree.HasType registry id type ↔ tree.HasType registry result type := by
  constructor
  · intro h
    cases h with
    | root _ children' typed =>
      cases children.symm.trans children'
      exact typed
    | constant kind' | cell kind' | operation kind' | call kind' => cases kind.symm.trans kind'
  · exact .root kind children

theorem hasType_operator_iff {op : Operator} {fixity : Fixity} (kind : (tree.node id).kind = .operator op fixity) :
    tree.HasType registry id type ↔ ∃ first others common, (tree.node id).children = first :: others ∧
      (∀ child ∈ first :: others, tree.HasType registry child common) ∧ op.operands.accepts common = true ∧
      (op.form.lvalueOnly = true → (tree.node first).isVariable = true) ∧ type = op.typeFrom common := by
  constructor
  · intro h
    cases h with
    | operation kind' children typed accepted target =>
      cases kind.symm.trans kind'
      exact ⟨_, _, _, children, typed, accepted, target, rfl⟩
    | constant kind' | cell kind' | root kind' | call kind' => cases kind.symm.trans kind'
  · rintro ⟨first, others, common, children, typed, accepted, target, rfl⟩
    exact .operation kind children typed accepted target

theorem hasType_call_iff {name : String} (kind : (tree.node id).kind = .call name) :
    tree.HasType registry id type ↔ ∃ function, registry.function? name = some function ∧
      (tree.node id).children.length = function.params.length ∧
      (∀ pair ∈ (tree.node id).children.zip function.params, tree.HasType registry pair.1 pair.2) ∧
      type = function.result := by
  constructor
  · intro h
    cases h with
    | call kind' found count typed =>
      cases kind.symm.trans kind'
      exact ⟨_, found, count, typed, rfl⟩
    | constant kind' | cell kind' | root kind' | operation kind' => cases kind.symm.trans kind'
  · rintro ⟨function, found, count, typed, rfl⟩
    exact .call kind found count typed

/-- A node has at most one type. -/
theorem HasType.unique {other : ValueType} (one : tree.HasType registry id type)
    (two : tree.HasType registry id other) : type = other := by
  induction one generalizing other with
  | constant kind => exact ((hasType_constant_iff kind).mp two).symm
  | cell kind => exact ((hasType_variable_iff kind).mp two).symm
  | root kind children _ ih => exact ih ((hasType_root_iff kind children).mp two)
  | @operation id first others op fixity type kind children typed _ _ ih =>
    obtain ⟨first', others', common, children', typed', -, -, rfl⟩ := (hasType_operator_iff kind).mp two
    cases children.symm.trans children'
    rw [ih first List.mem_cons_self (typed' first List.mem_cons_self)]
  | call kind found =>
    obtain ⟨function, found', -, -, rfl⟩ := (hasType_call_iff kind).mp two
    cases found.symm.trans found'
    rfl

/-- No operator accepts an operand of no value. -/
theorem accepts_void (op : Operator) : op.operands.accepts .void = false := by
  cases op <;> rfl

end Rules

/-- A tree as it is built, before it is checked. -/
structure Unchecked (tree : Tree) (root result : Nat) : Prop extends tree.Hung root result where
  made : ∀ id : Nat, id < root → (tree.node id).Made
  wired : tree.Wired

theorem unchecked_of_build {source : String} {lexemes : List Lexeme} {limit : Nat}
    (built : Tree.build source lexemes limit = .ok tree) : ∃ root result, tree.Unchecked root result := by
  obtain ⟨root, result, hung, made⟩ := Builder.hung_of_build built
  exact ⟨root, result, hung, made, Builder.wired_of_build built⟩

namespace Unchecked

/-- Only the root is one. -/
theorem eq_root (h : base.Unchecked root result) (inside : id < base.size) (kind : (base.node id).kind = .root) :
    id = root := by
  rw [h.size_eq] at inside
  by_contra other
  exact (h.made id (Nat.lt_of_le_of_ne (Nat.le_of_lt_succ inside) other)).kind_ne_root kind

theorem type_eq (h : base.Unchecked root result) (inside : id < base.size) (kind : (base.node id).kind ≠ .root) :
    (base.node id).type = (base.node id).slot.type := by
  refine (h.made id ?_).type_eq
  rw [h.size_eq] at inside
  refine Nat.lt_of_le_of_ne (Nat.le_of_lt_succ inside) ?_
  rintro rfl
  exact kind h.kind_root

end Unchecked

/-- A tree to which types are being given: those of leaves are as they were, and those of the nodes in `seen` are the
ones of the rules. -/
private structure Given (registry : Registry) (base tree : Tree) (seen : List NodeId) : Prop where
  size_eq : tree.size = base.size
  node_eq : ∀ id, tree.node id = { base.node id with type := (tree.node id).type }
  leaf_eq : ∀ id, (base.node id).kind = .constant ∨ (∃ name, (base.node id).kind = .variable name) →
    (tree.node id).type = (base.node id).type
  typed : ∀ id ∈ seen, base.HasType registry id (tree.node id).type

namespace Given

private theorem kind_eq (h : Given registry base tree seen) (id : NodeId) :
    (tree.node id).kind = (base.node id).kind := by
  rw [h.node_eq]

private theorem children_eq (h : Given registry base tree seen) (id : NodeId) :
    (tree.node id).children = (base.node id).children := by
  rw [h.node_eq]

private theorem span_eq (h : Given registry base tree seen) (id : NodeId) :
    (tree.node id).span = (base.node id).span := by
  rw [h.node_eq]

private theorem isVariable_eq (h : Given registry base tree seen) (id : NodeId) :
    (tree.node id).isVariable = (base.node id).isVariable := by
  simp only [Node.isVariable, h.kind_eq]

private theorem type_eq (h : Given registry base tree seen) (mem : id ∈ seen)
    (typed : base.HasType registry id type) : (tree.node id).type = type :=
  (h.typed id mem).unique typed

/-- The operands of a node whose children have their types. -/
private theorem operands_iff (h : Given registry base tree seen)
    (children : ∀ child ∈ (base.node id).children, child ∈ seen) (operands : List Operand) :
    List.Forall₂ (base.IsOperand registry) (base.node id).children operands ↔
      operands = (base.node id).children.map tree.operandOf := by
  generalize (base.node id).children = list at children
  induction list generalizing operands with
  | nil => simp
  | cons first rest ih =>
    obtain ⟨here, later⟩ := List.forall_mem_cons.mp children
    rw [List.forall₂_cons_left_iff, List.map_cons]
    constructor
    · rintro ⟨operand, others, ⟨typed, span, isVariable⟩, same, rfl⟩
      rw [(ih others later).mp same, operandOf, h.type_eq here typed, h.span_eq, h.isVariable_eq, ← span,
        ← isVariable]
    · rintro rfl
      exact ⟨_, _, ⟨h.typed first here, h.span_eq first, h.isVariable_eq first⟩, (ih _ later).mpr rfl, rfl⟩

/-- The parameters of a call whose arguments have their types. -/
private theorem params_iff (h : Given registry base tree seen) {list : List NodeId}
    (children : ∀ child ∈ list, child ∈ seen) (params : List ValueType) :
    (list.length = params.length ∧ ∀ pair ∈ list.zip params, base.HasType registry pair.1 pair.2) ↔
      params = (list.map tree.operandOf).map Operand.type := by
  induction list generalizing params with
  | nil => cases params <;> simp
  | cons first rest ih =>
    obtain ⟨here, later⟩ := List.forall_mem_cons.mp children
    cases params with
    | nil => simp
    | cons param params =>
      rw [List.zip_cons_cons, List.forall_mem_cons, List.length_cons, List.length_cons, Nat.succ_inj, and_left_comm,
        ih later, List.map_cons, List.map_cons, List.cons.injEq]
      refine and_congr_left fun _ => ⟨fun typed => (h.type_eq here typed).symm, ?_⟩
      rintro rfl
      exact h.typed first here

/-- What the checker finds for a node. -/
private theorem checkNode_eq (h : Given registry base tree seen) (id : NodeId) :
    tree.checkNode registry id = match (base.node id).kind with
      | .constant | .variable _ => .ok (tree.node id).type
      | .root => .ok (((base.node id).children.map tree.operandOf).head?.elim .void (·.type))
      | .operator op fixity =>
        checkOperator op fixity (base.node id).span ((base.node id).children.map tree.operandOf)
      | .call name => checkCall registry name (base.node id).span ((base.node id).children.map tree.operandOf) := by
  cases kind : (base.node id).kind <;>
    simp only [checkNode, operandsOf_eq, h.kind_eq, h.span_eq, h.children_eq, kind]

private theorem checkOperator_iff (h : Given registry base tree seen) (unchecked : base.Unchecked root result)
    {op : Operator} {fixity : Fixity} (kind : (base.node id).kind = .operator op fixity)
    (children : ∀ child ∈ (base.node id).children, child ∈ seen) :
    checkOperator op fixity (base.node id).span ((base.node id).children.map tree.operandOf) = .ok type ↔
      base.HasType registry id type := by
  rw [hasType_operator_iff kind]
  constructor
  · intro found
    obtain ⟨count, one, rest, operands, accepted, same, target, rfl⟩ := checkOperator_ok found
    obtain ⟨first, others, siblings, rfl, rfl⟩ := List.map_eq_cons_iff.mp operands
    rw [siblings] at children ⊢
    refine ⟨first, others, _, rfl, List.forall_mem_cons.mpr ⟨?_, fun child mem => ?_⟩, accepted, ?_, rfl⟩
    · exact h.typed first (children first List.mem_cons_self)
    · rw [← same _ (List.mem_map_of_mem mem)]
      exact h.typed child (children child (List.mem_cons_of_mem _ mem))
    · rw [← h.isVariable_eq]
      exact target
  · rintro ⟨first, others, common, siblings, typed, accepted, target, rfl⟩
    have count := unchecked.wired.operands id op fixity kind
    have same (child : NodeId) (mem : child ∈ first :: others) : (tree.node child).type = common :=
      h.type_eq (children child (siblings ▸ mem)) (typed child mem)
    rw [siblings] at count ⊢
    have one : (tree.operandOf first).type = common := same first List.mem_cons_self
    refine (checkOperator_of _ (by simpa using count) ?_ ?_ ?_).trans (congrArg _ (congrArg _ one))
    · rw [one]
      exact accepted
    · intro other mem
      obtain ⟨child, isChild, rfl⟩ := List.mem_map.mp mem
      exact (same child (List.mem_cons_of_mem _ isChild)).trans one.symm
    · exact fun writes => (h.isVariable_eq first).trans (target writes)

private theorem checkCall_iff (h : Given registry base tree seen) {name : String}
    (kind : (base.node id).kind = .call name) (children : ∀ child ∈ (base.node id).children, child ∈ seen) :
    checkCall registry name (base.node id).span ((base.node id).children.map tree.operandOf) = .ok type ↔
      base.HasType registry id type := by
  rw [hasType_call_iff kind]
  constructor
  · intro found
    obtain ⟨function, known, params, rfl⟩ := checkCall_ok found
    obtain ⟨count, typed⟩ := (h.params_iff children function.params).mpr params
    exact ⟨function, known, count, typed, rfl⟩
  · rintro ⟨function, known, count, typed, rfl⟩
    exact checkCall_of _ known ((h.params_iff children function.params).mp ⟨count, typed⟩)

/-- The checker finds the type of the rules for a node whose children have their types. -/
private theorem checkNode_ok_iff (h : Given registry base tree seen) (unchecked : base.Unchecked root result)
    (inside : id < base.size) (children : ∀ child ∈ (base.node id).children, child ∈ seen) :
    tree.checkNode registry id = .ok type ↔ base.HasType registry id type := by
  rw [h.checkNode_eq]
  cases kind : (base.node id).kind with
  | constant =>
    have leaf := unchecked.type_eq inside (by rw [kind]; nofun)
    rw [hasType_constant_iff kind, ← leaf, ← h.leaf_eq id (.inl kind), Except.ok.injEq, eq_comm]
  | «variable» name =>
    have leaf := unchecked.type_eq inside (by rw [kind]; nofun)
    rw [hasType_variable_iff kind, ← leaf, ← h.leaf_eq id (.inr ⟨name, kind⟩), Except.ok.injEq, eq_comm]
  | root =>
    obtain rfl := unchecked.eq_root inside kind
    have below := unchecked.children_root
    have mem := children result (by simp [below])
    rw [hasType_root_iff kind below, below]
    constructor
    · rintro ⟨⟩
      exact h.typed result mem
    · rintro typed
      exact congrArg Except.ok (h.type_eq mem typed)
  | operator op fixity => exact h.checkOperator_iff unchecked kind children
  | call name => exact h.checkCall_iff kind children

/-- The checker objects to a node whose children have their types as is said about nodes that have none. -/
private theorem checkNode_error_iff (h : Given registry base tree seen) (unchecked : base.Unchecked root result)
    (children : ∀ child ∈ (base.node id).children, child ∈ seen) :
    tree.checkNode registry id = .error error ↔ base.TypeError registry id error := by
  have operands := h.operands_iff children
  have count {op : Operator} {fixity : Fixity} (kind : (base.node id).kind = .operator op fixity) :
      ((base.node id).children.map tree.operandOf).length = fixity.operandCount := by
    rw [List.length_map]
    exact unchecked.wired.operands id op fixity kind
  rw [h.checkNode_eq]
  constructor
  · intro failed
    cases kind : (base.node id).kind with
    | constant | «variable» | root => simp only [kind, reduceCtorEq] at failed
    | operator op fixity =>
      simp only [kind] at failed
      exact .operator kind ((operands _).mpr rfl) ((checkOperator_error_iff (count kind)).mp failed)
    | call name =>
      simp only [kind] at failed
      exact .call kind ((operands _).mpr rfl) (checkCall_error_iff.mp failed)
  · intro wrong
    cases wrong with
    | operator kind same wrong =>
      obtain rfl := (operands _).mp same
      simp only [kind]
      exact (checkOperator_error_iff (count kind)).mpr wrong
    | call kind same wrong =>
      obtain rfl := (operands _).mp same
      simp only [kind]
      exact checkCall_error_iff.mpr wrong

/-- Giving the next node its type. -/
private theorem setType (h : Given registry base tree seen) (unchecked : base.Unchecked root result)
    (inside : id < base.size) (typed : base.HasType registry id type) :
    Given registry base (tree.setType id type) (id :: seen) := by
  have changed : ((tree.setType id type).node id).type = type := by
    rw [node_setType, if_pos ⟨rfl, h.size_eq ▸ inside⟩]
  have others {other : NodeId} (differs : id ≠ other) : (tree.setType id type).node other = tree.node other := by
    rw [node_setType, if_neg fun same => differs same.1]
  refine ⟨(size_setType ..).trans h.size_eq, fun other => ?_, fun other leaf => ?_, fun other mem => ?_⟩
  · rw [node_setType]
    split
    · rw [h.node_eq]
    · exact h.node_eq other
  · by_cases same : id = other
    · subst same
      rw [changed, unchecked.type_eq inside (by rcases leaf with kind | ⟨name, kind⟩ <;> rw [kind] <;> nofun)]
      rcases leaf with kind | ⟨name, kind⟩
      · exact (hasType_constant_iff kind).mp typed
      · exact (hasType_variable_iff kind).mp typed
    · rw [others same]
      exact h.leaf_eq other leaf
  · by_cases same : id = other
    · subst same
      rwa [changed]
    · rw [others same]
      exact h.typed other ((List.mem_cons.mp mem).resolve_left (Ne.symm same))

end Given

/-- Where types can be given to all nodes, children first, they are those of the rules. Otherwise the first node
without one is objected to. -/
private theorem check_given (h : Given registry base tree seen) (unchecked : base.Unchecked root result)
    (childrenFirst : base.ChildrenFirst seen order) (inside : ∀ id ∈ order, id < base.size) :
    (∃ checked, tree.check registry order = (.ok (), checked) ∧ Given registry base checked (order.reverse ++ seen)) ∨
    ∃ before id after error checked, order = before ++ id :: after ∧
      tree.check registry order = (.error error, checked) ∧
      (∀ other ∈ before, ∃ type, base.HasType registry other type) ∧ (¬ ∃ type, base.HasType registry id type) ∧
      base.TypeError registry id error := by
  induction order generalizing tree seen with
  | nil => exact .inl ⟨tree, rfl, h⟩
  | cons id rest ih =>
    obtain ⟨children, later⟩ := childrenFirst
    obtain ⟨here, inside⟩ := List.forall_mem_cons.mp inside
    rw [check]
    cases found : tree.checkNode registry id with
    | error error =>
      have wrong := (h.checkNode_error_iff unchecked children).mp found
      refine .inr ⟨[], id, rest, error, tree, rfl, rfl, by simp, ?_, wrong⟩
      rintro ⟨type, typed⟩
      cases found.symm.trans ((h.checkNode_ok_iff unchecked here children).mpr typed)
    | ok type =>
      have typed := (h.checkNode_ok_iff unchecked here children).mp found
      rcases ih (h.setType unchecked here typed) later inside with
        ⟨checked, passed, given⟩ | ⟨before, stuck, after, error, checked, rfl, failed, typedBefore, noType, wrong⟩
      · exact .inl ⟨checked, passed, by simpa using given⟩
      · exact .inr ⟨id :: before, stuck, after, error, checked, rfl, failed,
          List.forall_mem_cons.mpr ⟨⟨type, typed⟩, typedBefore⟩, noType, wrong⟩

/-- The checker stops at the first node without a type. -/
private theorem check_stops (h : Given registry base tree seen) (unchecked : base.Unchecked root result)
    {before after : List NodeId} (childrenFirst : base.ChildrenFirst seen (before ++ id :: after))
    (inside : ∀ id ∈ before, id < base.size) (typed : ∀ other ∈ before, ∃ type, base.HasType registry other type)
    (wrong : base.TypeError registry id error) :
    (tree.check registry (before ++ id :: after)).1 = .error error := by
  induction before generalizing tree seen with
  | nil => rw [List.nil_append, check, (h.checkNode_error_iff unchecked childrenFirst.1).mpr wrong]
  | cons first before ih =>
    obtain ⟨children, later⟩ := childrenFirst
    obtain ⟨here, inside⟩ := List.forall_mem_cons.mp inside
    obtain ⟨⟨type, typedFirst⟩, typed⟩ := List.forall_mem_cons.mp typed
    rw [List.cons_append, check, (h.checkNode_ok_iff unchecked here children).mpr typedFirst]
    exact ih (h.setType unchecked here typedFirst) later inside typed

namespace Unchecked

private theorem given (tree : Tree) (registry : Registry) : Given registry tree tree [] :=
  ⟨rfl, fun _ => rfl, fun _ _ => rfl, nofun⟩

/-- The checker either gives every node the type of the rules, or it objects to the first node that has none. -/
theorem check_cases (h : tree.Unchecked root result) (registry : Registry) :
    (∃ checked, tree.check registry tree.postOrder = (.ok (), checked) ∧
        ∀ id : Nat, id < tree.size → tree.HasType registry id (checked.node id).type) ∨
      ∃ before id after error checked, tree.postOrder = before ++ id :: after ∧
        tree.check registry tree.postOrder = (.error error, checked) ∧
        (∀ other ∈ before, ∃ type, tree.HasType registry other type) ∧ (¬ ∃ type, tree.HasType registry id type) ∧
        tree.TypeError registry id error := by
  refine (check_given (given tree registry) h h.childrenFirst_postOrder fun id mem =>
    h.lt_of_mem_postOrder mem).imp_left ?_
  rintro ⟨checked, passed, given⟩
  exact ⟨checked, passed, fun id lt => given.typed id (by simpa using h.mem_postOrder lt)⟩

/-- Where all nodes have types the checker goes through. -/
theorem check_of_hasType (h : tree.Unchecked root result)
    (typed : ∀ id : Nat, id < tree.size → ∃ type, tree.HasType registry id type) :
    ∃ checked, tree.check registry tree.postOrder = (.ok (), checked) := by
  rcases h.check_cases registry with ⟨checked, passed, -⟩ | ⟨before, stuck, after, _, _, split, -, -, noType, -⟩
  · exact ⟨checked, passed⟩
  · exact absurd (typed stuck (h.lt_of_mem_postOrder (by simp [split]))) noType

/-- Where a node is the first one without a type the checker objects to it. -/
theorem check_of_typeError (h : tree.Unchecked root result) {before after : List NodeId}
    (split : tree.postOrder = before ++ id :: after)
    (typed : ∀ other ∈ before, ∃ type, tree.HasType registry other type)
    (wrong : tree.TypeError registry id error) : (tree.check registry tree.postOrder).1 = .error error := by
  have childrenFirst := h.childrenFirst_postOrder
  have inside (id : NodeId) (mem : id ∈ tree.postOrder) : id < tree.size := h.lt_of_mem_postOrder mem
  rw [split] at childrenFirst inside ⊢
  exact check_stops (given tree registry) h childrenFirst (fun id mem => inside id (List.mem_append_left _ mem)) typed
    wrong

end Unchecked

/-- Checking a built tree is typing it from the leaves up. -/
theorem check_exact {source : String} {lexemes : List Lexeme} {limit : Nat}
    (built : Tree.build source lexemes limit = .ok tree) (registry : Registry) :
    (∃ outline, tree.Shows outline ∧ tree.root = some outline.label ∧ tree.postOrder = outline.postorder) ∧
      ((tree.check registry tree.postOrder).1 = .ok () ↔
        ∀ id : Nat, id < tree.size → ∃ type, tree.HasType registry id type) ∧
      ((tree.check registry tree.postOrder).1 = .ok () → ∀ id : Nat, id < tree.size → ∀ type,
        ((tree.check registry tree.postOrder).2.node id).type = type ↔ tree.HasType registry id type) ∧
      (∀ error, (tree.check registry tree.postOrder).1 = .error error ↔
        ∃ before id after, tree.postOrder = before ++ id :: after ∧
          (∀ other ∈ before, ∃ type, tree.HasType registry other type) ∧
          (¬ ∃ type, tree.HasType registry id type) ∧ tree.TypeError registry id error) ∧
      ∀ op : Operator, op.operands.accepts .void = false := by
  obtain ⟨root, result, unchecked⟩ := unchecked_of_build built
  refine ⟨⟨tree.below tree.size root, ?_, ?_, unchecked.postOrder_eq⟩, ⟨fun passed id lt => ?_, fun typed => ?_⟩,
    fun passed id lt type => ?_, fun error => ⟨fun failed => ?_, ?_⟩, accepts_void⟩
  · exact shows_below unchecked.descending unchecked.root_lt
  · rw [label_below, unchecked.root_eq]
  · rcases unchecked.check_cases registry with ⟨checked, -, typed⟩ | ⟨_, _, _, _, _, -, failed, -⟩
    · exact ⟨_, typed id lt⟩
    · cases (congrArg Prod.fst failed).symm.trans passed
  · obtain ⟨checked, passed⟩ := unchecked.check_of_hasType typed
    exact congrArg Prod.fst passed
  · rcases unchecked.check_cases registry with ⟨checked, same, typed⟩ | ⟨_, _, _, _, _, -, failed, -⟩
    · rw [same]
      exact ⟨fun found => found ▸ typed id lt, (typed id lt).unique⟩
    · cases (congrArg Prod.fst failed).symm.trans passed
  · rcases unchecked.check_cases registry with
      ⟨checked, passed, -⟩ | ⟨before, stuck, after, other, _, split, same, typed, noType, wrong⟩
    · cases (congrArg Prod.fst passed).symm.trans failed
    · cases (congrArg Prod.fst same).symm.trans failed
      exact ⟨before, stuck, after, split, typed, noType, wrong⟩
  · rintro ⟨before, stuck, after, split, typed, -, wrong⟩
    exact unchecked.check_of_typeError split typed wrong

/-- In `1 + true + !3` two operators object to their operands, and the first one is reported. -/
theorem check_exact_mismatch :
    ∃ lexemes classified tree error before id after, Lexeme.tokenize "1 + true + !3" = .ok lexemes ∧
      Lexeme.classify .empty lexemes = .ok classified ∧ Tree.build "1 + true + !3" classified 10 = .ok tree ∧
      error.cause = .operandTypeMismatch "+" .int .bool ∧ tree.postOrder = before ++ id :: after ∧
      (∀ other ∈ before, ∃ type, tree.HasType .empty other type) ∧ (¬ ∃ type, tree.HasType .empty id type) ∧
      tree.TypeError .empty id error := by
  have stages : ∃ lexemes classified tree error, Lexeme.tokenize "1 + true + !3" = .ok lexemes ∧
      Lexeme.classify .empty lexemes = .ok classified ∧ Tree.build "1 + true + !3" classified 10 = .ok tree ∧
      (tree.check .empty tree.postOrder).1 = .error error ∧ error.cause = .operandTypeMismatch "+" .int .bool :=
    ⟨_, _, _, _, by cbv, by cbv, by cbv, by cbv, by cbv⟩
  obtain ⟨lexemes, classified, tree, error, read, known, built, failed, cause⟩ := stages
  obtain ⟨-, -, -, first, -⟩ := check_exact built .empty
  obtain ⟨before, id, after, split, typed, noType, wrong⟩ := (first error).mp failed
  exact ⟨lexemes, classified, tree, error, before, id, after, read, known, built, cause, split, typed, noType, wrong⟩

end Tree

end Reckoner
