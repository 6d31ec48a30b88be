import Reckoner.Proofs.Expression.Answer
import Reckoner.Proofs.Operator.Expansion

/-!
Shorter ways to write an assignment. A compound assignment is checked and evaluated like the assignment that
it is short for, whatever its right operand does, also to the same variable: both read the variable only when
the operator runs. Steps of a variable are compound assignments of one, but for the value of those that stand
behind it.
-/
namespace Reckoner

namespace Shape

/-- The first shape is a shorter way to write the second. -/
inductive Abbreviates : Shape → Shape → Prop where
  | compound {op plain : Operator} (name : String) (operand : Shape) : op.expansion? = some plain →
      Abbreviates (.operation op .binary [.variable name, operand])
        (.operation .assignment .binary
          [.variable name, .operation plain .binary [.variable name, operand]])
  | step {op compound : Operator} {fixity : Fixity} (name : String) : op.stepping? = some compound →
      fixity ≠ .binary →
      Abbreviates (.operation op fixity [.variable name])
        (.operation compound .binary [.variable name, .constant (.int 1)])

/-- What an operation gives that computes a new value: behind its variable it gives what this held before. -/
def given (shape : Shape) (now : Registry) (heap : Heap) (value : Value) : Value :=
  match shape with
  | .node ⟨.operator _ .trailing, _⟩ [.node ⟨.variable name, _⟩ _] =>
    (now.cellOf? name).elim value heap.read
  | _ => value

variable {registry : Registry} {brief full : Shape}

/-- Both have the same types. -/
theorem Abbreviates.hasType_iff (h : brief.Abbreviates full) (type : ValueType) :
    brief.HasType registry type ↔ full.HasType registry type := by
  cases h with
  | @compound op plain name operand expands =>
    obtain ⟨accepts, -, -, -, reads⟩ := Operator.row_of_expansion? expands
    simp only [HasType.operation_iff, List.forall_mem_cons]
    constructor
    · rintro ⟨common, -, accepted, ⟨target, typed, -⟩, -, rfl⟩
      obtain ⟨static, static'⟩ := Operator.typeFrom_of_expansion? expands common
      have known : Operator.assignment.operands.accepts common = true := by
        cases common with
        | void => cases accepted
        | _ => rfl
      refine ⟨common, rfl, known, ⟨target, ?_, by simp⟩, fun _ => rfl, static⟩
      exact ⟨common, rfl, accepts ▸ accepted, ⟨target, typed, by simp⟩, by simp [reads], static'.symm⟩
    · rintro ⟨common, -, -, ⟨target, ⟨inner, -, accepted, ⟨-, typed, -⟩, -, same⟩, -⟩, -, rfl⟩
      obtain ⟨static, static'⟩ := Operator.typeFrom_of_expansion? expands inner
      rw [static'] at same
      rw [same] at target ⊢
      refine ⟨inner, rfl, accepts ▸ accepted, ⟨target, typed, by simp⟩, fun _ => rfl, static.symm⟩
  | @step op compound fixity name steps unary =>
    obtain ⟨ints, -, -, static, static', -, -, accepts⟩ := Operator.row_of_stepping? steps unary
    simp only [HasType.operation_iff, List.forall_mem_cons, HasType.constant_iff]
    constructor
    · rintro ⟨common, -, accepted, ⟨target, -⟩, -, rfl⟩
      rw [ints] at accepted
      obtain rfl : common = .int := by cases common <;> first | rfl | cases accepted
      exact ⟨.int, rfl, accepts, ⟨target, rfl, by simp⟩, fun _ => rfl, static.trans static'.symm⟩
    · rintro ⟨common, -, -, ⟨target, isInt, -⟩, -, rfl⟩
      obtain rfl : common = .int := isInt
      refine ⟨.int, ?_, by rw [ints]; rfl, ⟨target, by simp⟩, fun _ => rfl, static'.trans static.symm⟩
      cases fixity with
      | binary => exact absurd rfl unary
      | leading | trailing => rfl

end Shape

namespace Tree

variable {registry now : Registry} {tree short long : Tree} {order order' : List NodeId}
  {root root' result result' : Nat} {host after : Host} {name : String} {type : ValueType}

/-- A node for a variable of the type. -/
private structure Names (part : Rose (NodeId × Node)) (name : String) (type : ValueType) : Prop where
  leaf : part.children = []
  kind : part.label.2.kind = .variable name
  type : part.label.2.type = type

/-- A variable gives its cell, or it fails whatever the host is like. -/
private theorem Names.evaluatePart_eq (now : Registry) {part : Rose (NodeId × Node)}
    (h : Names part name type) :
    (∃ cell, now.cellOf? name = some cell ∧ cell.type = type ∧
        ∀ host, evaluatePart now part host = (.ok (.aliased cell), host)) ∨
      ∃ failure, ∀ host, evaluatePart now part host = (.error failure, host) := by
  obtain ⟨⟨id, node⟩, parts⟩ := part
  obtain ⟨leaf, kind, isType⟩ := h
  simp only [Rose.label, Rose.children] at leaf kind isType
  subst leaf
  simp only [evaluatePart, evaluateParts, combine, kind]
  cases found : now.cellOf? name with
  | none => exact .inr ⟨_, fun _ => rfl⟩
  | some cell =>
    simp only
    by_cases same : cell.type = node.type
    · simp only [if_pos same]
      exact .inl ⟨cell, rfl, same.trans isType, fun _ => rfl⟩
    · simp only [if_neg same]
      exact .inr ⟨_, fun _ => rfl⟩

/-- A node for an operator. -/
private structure Performs (node : Node) (op : Operator) (fixity : Fixity) (type : ValueType) : Prop where
  kind : node.kind = .operator op fixity
  type : node.type = type

private theorem Performs.combine_eq {node : Node} {op : Operator} {fixity : Fixity}
    (h : Performs node op fixity type) (operands : List Slot) (host : Host) :
    combine now node operands host =
      match op.perform fixity type operands host.heap with
      | .ok (value, heap) => (.ok (.owned value), { host with heap := heap })
      | .error error => (.error error, host) := by
  cases ran : op.perform fixity type operands host.heap with
  | ok reply => simp only [combine, h.kind, h.type, ran]
  | error error => simp only [combine, h.kind, h.type, ran]

/-- Storing what an operator computes comes to the compound assignment. -/
private theorem recursively_expansion {op plain : Operator} (expands : op.expansion? = some plain)
    (accepted : op.operands.accepts type = true) {brief store inner : Node} {a b c : NodeId}
    {target operand : Rose (NodeId × Node)} (performs : Performs brief op .binary type)
    (stores : Performs store .assignment .binary type) (computes : Performs inner plain .binary type)
    (names : Names target name type)
    (typed : ∀ {host slot after}, evaluatePart now operand host = (.ok slot, after) → slot.type = type)
    (host : Host) :
    recursively now (.node (a, brief) [target, operand]) host =
      recursively now (.node (b, store) [target, .node (c, inner) [target, operand]]) host := by
  rcases names.evaluatePart_eq now with ⟨cell, -, isType, gives⟩ | ⟨failure, fails⟩
  · simp only [recursively, evaluatePart, evaluateParts, gives]
    cases ran : evaluatePart now operand host with
    | mk reply after =>
      cases reply with
      | error failure => rfl
      | ok slot =>
        subst isType
        simp only [performs.combine_eq, computes.combine_eq, stores.combine_eq,
          Operator.perform_of_expansion? expands accepted (typed ran)]
        obtain ⟨-, -, -, -, reads⟩ := Operator.row_of_expansion? expands
        cases found : plain.perform .binary cell.type [.aliased cell, slot] after.heap with
        | error error => rfl
        | ok computed =>
          obtain ⟨value, between⟩ := computed
          obtain rfl := Operator.heap_of_perform reads found
          simp only
          cases Operator.assignment.perform .binary cell.type [.aliased cell, .owned value] after.heap with
          | error error => rfl
          | ok stored => rfl
  · simp only [recursively, evaluatePart, evaluateParts, fails]

/-- A step comes to the compound assignment of one, but for what it gives. -/
private theorem recursively_step {op compound : Operator} {fixity : Fixity}
    (steps : op.stepping? = some compound) (unary : fixity ≠ .binary) {brief full constant : Node}
    {a b c : NodeId} {target : Rose (NodeId × Node)} (performs : Performs brief op fixity .int)
    (computes : Performs full compound .binary .int) (isConstant : constant.kind = .constant)
    (one : constant.slot = .owned (.int 1)) (names : Names target name .int) (host : Host) :
    let reply := recursively now (.node (b, full) [target, .node (c, constant) []]) host
    recursively now (.node (a, brief) [target]) host =
      (reply.1.map ((Shape.operation op fixity [.variable name]).given now host.heap), reply.2) := by
  rcases names.evaluatePart_eq now with ⟨cell, found, isType, gives⟩ | ⟨failure, fails⟩
  · have constantGives : ∀ host, combine now constant [] host = (.ok (.owned (.int 1)), host) := by
      intro host
      simp only [combine, isConstant, one]
    simp only [recursively, evaluatePart, evaluateParts, gives, constantGives, performs.combine_eq,
      computes.combine_eq, Operator.perform_of_stepping? steps unary isType]
    cases compound.perform .binary .int [.aliased cell, .owned (.int 1)] host.heap with
    | error error => rfl
    | ok stored =>
      cases fixity with
      | binary => exact absurd rfl unary
      | leading => rfl
      | trailing =>
        simp [unplaced, settled, located, Shape.given, found, Except.map, Except.mapError, Slot.read]
  · simp only [recursively, evaluatePart, evaluateParts, fails]
    rfl

/-- A node of a checked tree whose shape is that of an operation. -/
private theorem Checked.operation (h : tree.Checked registry order root result) {id : Nat}
    (lt : id < root) {op : Operator} {fixity : Fixity} {operands : List Shape}
    (shape : tree.shape id = .operation op fixity operands) :
    ∃ type, Performs (tree.node id) op fixity (op.typeFrom type) ∧ op.operands.accepts type = true ∧
      (tree.node id).children.map tree.shape = operands ∧
      ∀ child : Nat, child ∈ (tree.node id).children → child < root ∧ (tree.node child).type = type := by
  have typed := h.hasType lt
  rw [shape, Shape.HasType.operation_iff] at typed
  obtain ⟨type, -, accepted, each, -, isType⟩ := typed
  rw [shape_eq h.formed.descending (Nat.lt_trans lt h.formed.root_lt)] at shape
  obtain ⟨content, parts⟩ := Rose.node.inj shape
  refine ⟨type, ⟨congrArg Node.Content.kind content, isType⟩, accepted, parts, ?_⟩
  intro child isChild
  have below := Nat.lt_trans (h.formed.descending id child isChild) lt
  refine ⟨below, (h.hasType below).unique (each _ ?_)⟩
  rw [← parts]
  exact List.mem_map_of_mem isChild

/-- A node of a checked tree whose shape is that of a variable. -/
private theorem Checked.names (h : tree.Checked registry order root result) {id : Nat} (lt : id < root)
    (shape : tree.shape id = .variable name) : Names (tree.outline id) name (tree.node id).type := by
  have inside := Nat.lt_trans lt h.formed.root_lt
  rw [shape_eq h.formed.descending inside] at shape
  obtain ⟨content, parts⟩ := Rose.node.inj shape
  rw [outline_eq h.formed.descending inside, List.map_eq_nil_iff.mp parts]
  exact ⟨rfl, congrArg Node.Content.kind content, rfl⟩

private theorem eq_pair_of_map {children : List NodeId} {shapes : NodeId → Shape} {first second : Shape}
    (h : children.map shapes = [first, second]) :
    ∃ a b, children = [a, b] ∧ shapes a = first ∧ shapes b = second := by
  obtain ⟨a, rest, rfl, isFirst, rest'⟩ := List.map_eq_cons_iff.mp h
  obtain ⟨b, others, rfl, isSecond, none⟩ := List.map_eq_cons_iff.mp rest'
  rw [List.map_eq_nil_iff.mp none]
  exact ⟨a, b, rfl, isFirst, isSecond⟩

/-- A node of a checked tree whose shape is that of a constant. -/
private theorem Checked.constant (h : tree.Checked registry order root result) {id : Nat} (lt : id < root)
    {value : Value} (shape : tree.shape id = .constant value) :
    tree.outline id = .node (id, tree.node id) [] ∧ (tree.node id).kind = .constant ∧
      (tree.node id).slot = .owned value ∧ (tree.node id).type = value.type := by
  have typed := h.hasType lt
  rw [shape, Shape.HasType.constant_iff] at typed
  have inside := Nat.lt_trans lt h.formed.root_lt
  rw [shape_eq h.formed.descending inside] at shape
  obtain ⟨content, parts⟩ := Rose.node.inj shape
  have kind : (tree.node id).kind = .constant := congrArg Node.Content.kind content
  have held := congrArg Node.Content.held content
  simp only [Node.content, kind, Option.some.injEq] at held
  refine ⟨?_, kind, held, typed⟩
  rw [outline_eq h.formed.descending inside, List.map_eq_nil_iff.mp parts]
  rfl

/-- A checked compound assignment answers like the checked assignment that it is short for. -/
private theorem Checked.answer_of_expansion (h : short.Checked registry order root result)
    (h' : long.Checked registry order' root' result') {op plain : Operator} {operand : Shape}
    (expands : op.expansion? = some plain)
    (shape : short.shape result = .operation op .binary [.variable name, operand])
    (shape' : long.shape result' = .operation .assignment .binary
      [.variable name, .operation plain .binary [.variable name, operand]])
    (now : Registry) (host : Host) : short.answer now order host = long.answer now order' host := by
  have lt := h.formed.result_lt
  have lt' := h'.formed.result_lt
  obtain ⟨type, performs, accepted, parts, typed⟩ := h.operation lt shape
  obtain ⟨v, e, children, isTarget, isOperand⟩ := eq_pair_of_map parts
  obtain ⟨vLow, vType⟩ := typed v (by simp [children])
  obtain ⟨eLow, eType⟩ := typed e (by simp [children])
  obtain ⟨type', stores, -, parts', typed'⟩ := h'.operation lt' shape'
  obtain ⟨v', m, children', isTarget', isInner⟩ := eq_pair_of_map parts'
  obtain ⟨vLow', vType'⟩ := typed' v' (by simp [children'])
  obtain ⟨mLow, -⟩ := typed' m (by simp [children'])
  obtain ⟨inner, computes, -, parts'', typed''⟩ := h'.operation mLow isInner
  obtain ⟨v'', e'', children'', isTarget'', isOperand''⟩ := eq_pair_of_map parts''
  obtain ⟨vLow'', vType''⟩ := typed'' v'' (by simp [children''])
  obtain ⟨eLow'', -⟩ := typed'' e'' (by simp [children''])
  -- one variable has one type, and so all operands have it
  have sameType : ∀ {id : Nat}, id < root' → long.shape id = .variable name →
      (long.node id).type = type := by
    intro id low isVariable
    have found := h'.hasType low
    rw [isVariable, ← isTarget] at found
    rw [found.unique (h.hasType vLow), vType]
  obtain rfl := vType'.symm.trans (sameType vLow' isTarget')
  obtain rfl := vType''.symm.trans (sameType vLow'' isTarget'')
  obtain ⟨static, static'⟩ := Operator.typeFrom_of_expansion? expands inner
  rw [static] at performs
  rw [static'] at computes
  have names := h.names vLow isTarget
  rw [vType] at names
  have same : senses (fun _ => default) (long.outline result') =
      senses (fun _ => default) (.node (result', long.node result')
        [short.outline v, .node (m, long.node m) [short.outline v, short.outline e]]) := by
    rw [outline_eq h'.formed.descending (Nat.lt_trans lt' h'.formed.root_lt), children', List.map_cons,
      List.map_cons, outline_eq h'.formed.descending (Nat.lt_trans mLow h'.formed.root_lt), children'']
    simp only [senses_node, List.map_cons, List.map_nil]
    rw [h'.senses_eq h vLow' vLow (isTarget'.trans isTarget.symm),
      h'.senses_eq h vLow'' vLow (isTarget''.trans isTarget.symm),
      h'.senses_eq h eLow'' eLow (isOperand''.trans isOperand.symm)]
  rw [h.answer_eq, h'.answer_eq, recursively_congr same,
    outline_eq h.formed.descending (Nat.lt_trans lt h.formed.root_lt), children]
  apply recursively_expansion expands accepted performs stores computes names
  intro host slot after ran
  rw [h.type_of_evaluatePart eLow ran, eType]

/-- A checked step of a variable answers like the checked compound assignment of one, but for what it
gives. -/
private theorem Checked.answer_of_step (h : short.Checked registry order root result)
    (h' : long.Checked registry order' root' result') {op compound : Operator} {fixity : Fixity}
    (steps : op.stepping? = some compound) (unary : fixity ≠ .binary)
    (shape : short.shape result = .operation op fixity [.variable name])
    (shape' : long.shape result' = .operation compound .binary [.variable name, .constant (.int 1)])
    (now : Registry) (host : Host) :
    short.answer now order host =
      ((long.answer now order' host).1.map ((short.shape result).given now host.heap),
        (long.answer now order' host).2) := by
  have lt := h.formed.result_lt
  have lt' := h'.formed.result_lt
  obtain ⟨ints, -, -, static, static', -⟩ := Operator.row_of_stepping? steps unary
  obtain ⟨type, performs, accepted, parts, typed⟩ := h.operation lt shape
  obtain ⟨v, rest, children, isTarget, none⟩ := List.map_eq_cons_iff.mp parts
  rw [List.map_eq_nil_iff.mp none] at children
  obtain ⟨vLow, vType⟩ := typed v (by simp [children])
  obtain ⟨type', computes, -, parts', typed'⟩ := h'.operation lt' shape'
  obtain ⟨v', c, children', isTarget', isConstant⟩ := eq_pair_of_map parts'
  obtain ⟨vLow', -⟩ := typed' v' (by simp [children'])
  obtain ⟨cLow, cType⟩ := typed' c (by simp [children'])
  obtain ⟨leaf, kind, held, constantType⟩ := h'.constant cLow isConstant
  obtain rfl : type = .int := by
    rw [ints] at accepted
    cases type <;> first | rfl | cases accepted
  obtain rfl : type' = .int := cType.symm.trans constantType
  rw [static] at performs
  rw [static'] at computes
  have names := h.names vLow isTarget
  rw [vType] at names
  have same : senses (fun _ => default) (long.outline result') =
      senses (fun _ => default) (.node (result', long.node result')
        [short.outline v, .node (c, long.node c) []]) := by
    rw [outline_eq h'.formed.descending (Nat.lt_trans lt' h'.formed.root_lt), children', List.map_cons,
      List.map_cons, leaf]
    simp only [senses_node, List.map_cons, List.map_nil]
    rw [h'.senses_eq h vLow' vLow (isTarget'.trans isTarget.symm)]
  rw [h.answer_eq, h'.answer_eq, recursively_congr same, shape,
    outline_eq h.formed.descending (Nat.lt_trans lt h.formed.root_lt), children]
  exact recursively_step steps unary performs computes kind held names host

/-- A checked tree whose shape is short for that of another answers as the other does, but for the value that
a step behind its variable gives. -/
theorem Checked.answer_of_abbreviates (h : short.Checked registry order root result)
    (h' : long.Checked registry order' root' result')
    (abbreviates : (short.shape result).Abbreviates (long.shape result')) (now : Registry) (host : Host) :
    short.answer now order host =
      ((long.answer now order' host).1.map ((short.shape result).given now host.heap),
        (long.answer now order' host).2) := by
  generalize briefShape : short.shape result = brief at abbreviates
  generalize fullShape : long.shape result' = full at abbreviates
  cases abbreviates with
  | compound name operand expands =>
    rw [h.answer_of_expansion h' expands briefShape fullShape]
    generalize long.answer now order' host = reply
    obtain ⟨_ | _, _⟩ := reply <;> rfl
  | step name steps unary =>
    rw [← briefShape]
    exact h.answer_of_step h' steps unary briefShape fullShape now host

/-- Two trees of which one is short for the other are both accepted with one type, and then they answer
alike, or both are refused, because the rules have no type for them. -/
theorem Built.check_of_abbreviates (h : short.Built registry root result)
    (h' : long.Built registry root' result')
    (abbreviates : (short.shape result).Abbreviates (long.shape result')) :
    match short.check registry short.postOrder, long.check registry long.postOrder with
    | (.ok _, checked), (.ok _, checked') =>
      checked.resultType = checked'.resultType ∧ ∀ now host,
        checked.answer now short.postOrder host =
          ((checked'.answer now long.postOrder host).1.map ((short.shape result).given now host.heap),
            (checked'.answer now long.postOrder host).2)
    | (.error _, _), (.error _, _) => ∀ type, ¬ (short.shape result).HasType registry type
    | _, _ => False := by
  have same : ∀ type, (short.shape result).HasType registry type ↔
      (long.shape result').HasType registry type := abbreviates.hasType_iff
  rcases isChecked : short.check registry short.postOrder with ⟨error | _, checked⟩ <;>
    rcases isChecked' : long.check registry long.postOrder with ⟨error' | _, checked'⟩
  · intro type typed
    obtain ⟨other, isOther, -⟩ := (h.check_iff type).mpr typed
    rw [isChecked] at isOther
    cases isOther
  · have typed := (h'.check_iff _).mp ⟨checked', isChecked', rfl⟩
    obtain ⟨other, isOther, -⟩ := (h.check_iff _).mpr ((same _).mpr typed)
    rw [isChecked] at isOther
    cases isOther
  · have typed := (h.check_iff _).mp ⟨checked, isChecked, rfl⟩
    obtain ⟨other, isOther, -⟩ := (h'.check_iff _).mpr ((same _).mp typed)
    rw [isChecked'] at isOther
    cases isOther
  · have typed := (h.check_iff _).mp ⟨checked, isChecked, rfl⟩
    have typed' := (h'.check_iff _).mp ⟨checked', isChecked', rfl⟩
    refine ⟨((same _).mp typed).unique typed', ?_⟩
    intro now host
    rw [← shape_check isChecked, ← shape_check isChecked'] at abbreviates
    rw [← shape_check isChecked]
    exact (Checked.of_check h.toFormed isChecked).answer_of_abbreviates
      (Checked.of_check h'.toFormed isChecked') abbreviates now host

end Tree

/-- A step of an integer variable has a type. -/
private theorem Shape.Abbreviates.hasType_int {registry : Registry} {full : Shape} {op : Operator}
    {fixity : Fixity} {name : String} {cell : Cell}
    (h : (Shape.operation op fixity [.variable name]).Abbreviates full)
    (found : registry.cellOf? name = some cell) (isInt : cell.type = .int) :
    (Shape.operation op fixity [.variable name]).HasType registry .int := by
  cases h with
  | step _ steps unary =>
    obtain ⟨ints, -, -, static, -⟩ := Operator.row_of_stepping? steps unary
    have typed : (Shape.variable name).HasType registry .int := by
      rw [← isInt]
      exact .variable found
    apply Shape.HasType.operation_iff.mpr
    refine ⟨.int, ?_, by rw [ints]; rfl, by simpa using typed, fun _ => rfl, static.symm⟩
    cases fixity with
    | binary => exact absurd rfl unary
    | leading | trailing => rfl

namespace Expression

/-- A source that is short for another is accepted for the same types of its operands. The two expressions
then have one type, and with any registry and host they give the same value, but for a step behind its
variable, which gives what that held before, or they fail for the same reason, and they leave the same
host. -/
theorem compile_abbreviation {registry : Registry} {passLimit passLimit' : Nat} {short long : String}
    {tree tree' : Tree} {brief full : Shape} (parsed : parse registry passLimit short = .ok tree)
    (shape : tree.shape? = some brief) (parsed' : parse registry passLimit' long = .ok tree')
    (shape' : tree'.shape? = some full) (abbreviates : brief.Abbreviates full) :
    match compile registry passLimit short, compile registry passLimit' long with
    | .ok expression, .ok other =>
      expression.resultType = other.resultType ∧ ∀ now host,
        expression.answer now host =
          ((other.answer now host).1.map (brief.given now host.heap), (other.answer now host).2)
    | .error _, .error _ =>
      ∀ op fixity name cell, brief = .operation op fixity [.variable name] →
        registry.cellOf? name = some cell → cell.type ≠ .int
    | _, _ => False := by
  obtain ⟨root, result, formed⟩ := built_of_parse parsed
  obtain ⟨root', result', formed'⟩ := built_of_parse parsed'
  rw [Tree.shape?, formed.result?_eq] at shape
  rw [Tree.shape?, formed'.result?_eq] at shape'
  obtain rfl := Option.some.inj shape
  obtain rfl := Option.some.inj shape'
  have agree := formed.check_of_abbreviates formed' abbreviates
  rw [compile_of_parse parsed, compile_of_parse parsed']
  generalize tree.check registry tree.postOrder = reply at agree ⊢
  generalize tree'.check registry tree'.postOrder = reply' at agree ⊢
  obtain ⟨error | _, checked⟩ := reply <;> obtain ⟨error' | _, checked'⟩ := reply'
  · intro op fixity name cell isStep found isInt
    simp only at agree
    rw [isStep] at agree abbreviates
    exact agree .int (abbreviates.hasType_int found isInt)
  · exact agree
  · exact agree
  · exact agree

/-- Adding the value of an assignment to the same variable. -/
theorem compile_abbreviation_sum :
    ∃ expression other, compile ⟨Names.empty.insert "x" (.int 0), .empty⟩ 100 "x += (x = 3)" =
        .ok expression ∧
      compile ⟨Names.empty.insert "x" (.int 0), .empty⟩ 100 "x = x + (x = 3)" = .ok other ∧
      (expression.answer ⟨Names.empty.insert "x" (.int 0), .empty⟩ .empty).1 = .ok (.int 6) ∧
      expression.answer ⟨Names.empty.insert "x" (.int 0), .empty⟩ .empty =
        other.answer ⟨Names.empty.insert "x" (.int 0), .empty⟩ .empty := by
  have compiled : ∃ expression, compile ⟨Names.empty.insert "x" (.int 0), .empty⟩ 100 "x += (x = 3)" =
        .ok expression ∧
      (expression.answer ⟨Names.empty.insert "x" (.int 0), .empty⟩ .empty).1 = .ok (.int 6) :=
    ⟨_, by cbv, by cbv⟩
  have compiled' : ∃ other, compile ⟨Names.empty.insert "x" (.int 0), .empty⟩ 100 "x = x + (x = 3)" =
      .ok other := ⟨_, by cbv⟩
  have parsed : ∃ tree, parse ⟨Names.empty.insert "x" (.int 0), .empty⟩ 100 "x += (x = 3)" = .ok tree ∧
      tree.shape? = some (.operation .addAssign .binary [.variable "x",
        .operation .assignment .binary [.variable "x", .constant (.int 3)]]) :=
    ⟨_, by cbv, by cbv⟩
  have parsed' : ∃ tree, parse ⟨Names.empty.insert "x" (.int 0), .empty⟩ 100 "x = x + (x = 3)" =
        .ok tree ∧
      tree.shape? = some (.operation .assignment .binary [.variable "x", .operation .addition .binary
        [.variable "x", .operation .assignment .binary [.variable "x", .constant (.int 3)]]]) :=
    ⟨_, by cbv, by cbv⟩
  obtain ⟨expression, isCompiled, ran⟩ := compiled
  obtain ⟨other, isCompiled'⟩ := compiled'
  obtain ⟨tree, isParsed, shape⟩ := parsed
  obtain ⟨tree', isParsed', shape'⟩ := parsed'
  have agree := compile_abbreviation isParsed shape isParsed' shape' (.compound "x" _ rfl)
  rw [isCompiled, isCompiled'] at agree
  refine ⟨expression, other, isCompiled, isCompiled', ran, (agree.2 _ _).trans ?_⟩
  generalize other.answer _ _ = reply
  obtain ⟨_ | _, _⟩ := reply <;> rfl

end Expression

end Reckoner
