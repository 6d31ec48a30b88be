import Reckoner.Proofs.Builder.Arrangement
import Reckoner.Proofs.Expression.Progress
import Reckoner.Proofs.Tree.Shape
import Reckoner.Proofs.Tree.Typing

/-!
The typing rules, said over the shapes of trees. The checker finds a type for every node of a tree exactly if
the rules give its shape one, and then the type of each node is the one that the rules give.
-/
namespace Reckoner

/-- The typing rules. -/
inductive Shape.HasType (registry : Registry) : Shape → ValueType → Prop where
  | constant (value : Value) : HasType registry (.constant value) value.type
  | «variable» {name : String} {cell : Cell} :
      registry.cellOf? name = some cell → HasType registry (.variable name) cell.type
  /-- Operands have one type, which the operator accepts, and an operator that changes its first operand
  has a variable there. -/
  | operation {op : Operator} {fixity : Fixity} {operands : List Shape} {type : ValueType} :
      operands.length = fixity.operandCount → op.operands.accepts type = true →
      (∀ operand ∈ operands, HasType registry operand type) →
      (op.form.lvalueOnly = true → operands.head?.any Shape.isVariable = true) →
      HasType registry (.operation op fixity operands) (op.typeFrom type)
  /-- Arguments have the types of the parameters. -/
  | call {name : String} {function : HostFunction} {arguments : List Shape} :
      registry.function? name = some function → arguments.length = function.params.length →
      (∀ pair ∈ arguments.zip function.params, HasType registry pair.1 pair.2) →
      HasType registry (.call name arguments) function.result

namespace Shape.HasType

variable {registry : Registry} {shape : Shape} {first second : ValueType}

/-- A shape has at most one type. -/
theorem unique (one : shape.HasType registry first) (two : shape.HasType registry second) :
    first = second := by
  induction one generalizing second with
  | constant value =>
    cases two
    rfl
  | «variable» found =>
    cases two with
    | «variable» found' =>
      rw [found] at found'
      cases found'
      rfl
  | @operation op fixity operands type count accepted typed target ih =>
    cases two with
    | operation _ _ typed' _ =>
      cases operands with
      | nil => cases fixity <;> cases count
      | cons operand others =>
        rw [ih operand List.mem_cons_self (typed' operand List.mem_cons_self)]
  | call found =>
    cases two with
    | call found' =>
      rw [found] at found'
      cases found'
      rfl

theorem constant_iff {value : Value} : (Shape.constant value).HasType registry first ↔ first = value.type := by
  constructor
  · rintro ⟨⟩
    rfl
  · rintro rfl
    exact .constant value

theorem variable_iff {name : String} : (Shape.variable name).HasType registry first ↔
    ∃ cell, registry.cellOf? name = some cell ∧ first = cell.type := by
  constructor
  · rintro ⟨⟩
    exact ⟨_, ‹_›, rfl⟩
  · rintro ⟨cell, found, rfl⟩
    exact .variable found

theorem operation_iff {op : Operator} {fixity : Fixity} {operands : List Shape} :
    (Shape.operation op fixity operands).HasType registry first ↔
      ∃ type, operands.length = fixity.operandCount ∧ op.operands.accepts type = true ∧
        (∀ operand ∈ operands, operand.HasType registry type) ∧
        (op.form.lvalueOnly = true → operands.head?.any isVariable = true) ∧ first = op.typeFrom type := by
  constructor
  · rintro ⟨⟩
    exact ⟨_, ‹_›, ‹_›, ‹_›, ‹_›, rfl⟩
  · rintro ⟨type, count, accepted, typed, target, rfl⟩
    exact .operation count accepted typed target

/-- The parts of a shape that has a type have types. -/
theorem part (h : shape.HasType registry first) {part : Shape} (mem : part ∈ shape.children) :
    ∃ type, part.HasType registry type := by
  cases h with
  | constant | «variable» => cases mem
  | operation _ _ typed _ => exact ⟨_, typed part mem⟩
  | @call name function arguments _ count typed =>
    obtain ⟨index, lt, rfl⟩ := List.getElem_of_mem mem
    have inZip : index < (arguments.zip function.params).length := by
      rw [List.length_zip, ← count, Nat.min_self]
      exact lt
    have typedPair := typed _ (List.getElem_mem inZip)
    rw [List.getElem_zip] at typedPair
    exact ⟨_, typedPair⟩

end Shape.HasType

namespace Tree

variable {registry : Registry} {tree checked : Tree} {order seen : List NodeId} {root result : Nat}
  {shape : Shape} {type : ValueType}

/-- The shape of a sound node, by what the node stands for. -/
private theorem Formed.shape_cases (h : tree.Formed registry root result) {id : Nat} (lt : id < root) :
    (∃ value, tree.shape id = .constant value ∧ (tree.node id).kind = .constant ∧
        (tree.node id).type = value.type) ∨
      (∃ name cell, tree.shape id = .variable name ∧ (tree.node id).kind = .variable name ∧
        registry.cellOf? name = some cell ∧ (tree.node id).type = cell.type) ∨
      (∃ op fixity, tree.shape id = .operation op fixity ((tree.node id).children.map tree.shape) ∧
        (tree.node id).kind = .operator op fixity) ∨
      ∃ name, tree.shape id = .call name ((tree.node id).children.map tree.shape) ∧
        (tree.node id).kind = .call name := by
  have shape := shape_eq h.descending (Nat.lt_trans lt h.root_lt)
  have sound := h.sound id lt
  unfold Node.Sound at sound
  unfold Node.content at shape
  cases kind : (tree.node id).kind with
  | root => simp only [kind] at sound
  | constant =>
    simp only [kind] at sound shape
    obtain ⟨leaf, value, held, type⟩ := sound
    rw [leaf, held] at shape
    exact .inl ⟨value, shape, rfl, type⟩
  | «variable» name =>
    simp only [kind] at sound shape
    obtain ⟨leaf, cell, found, type⟩ := sound
    rw [leaf] at shape
    exact .inr (.inl ⟨name, cell, shape, rfl, found, type⟩)
  | operator op fixity =>
    simp only [kind] at shape
    exact .inr (.inr (.inl ⟨op, fixity, shape, rfl⟩))
  | call name =>
    simp only [kind] at shape
    exact .inr (.inr (.inr ⟨name, shape, rfl⟩))

/-- Every node of a checked tree is evaluated. -/
theorem Checked.mem_order (h : tree.Checked registry order root result) {id : Nat} (lt : id < root) :
    id ∈ order := by
  rw [h.order_eq, ← h.formed.postOrder_eq]
  exact h.formed.mem_postOrder (Nat.lt_trans lt h.formed.root_lt)

/-- In a checked tree every node has the type that the rules give to its shape. -/
theorem Checked.hasType (h : tree.Checked registry order root result) {id : Nat} (lt : id < root) :
    (tree.shape id).HasType registry (tree.node id).type := by
  induction id using Nat.strongRecOn with
  | ind id ih =>
    have below : ∀ child ∈ (tree.node id).children,
        (tree.shape child).HasType registry (tree.node child).type := by
      intro child isChild
      have smaller := h.formed.descending id child isChild
      exact ih child smaller (Nat.lt_trans smaller lt)
    have found := h.types id (h.mem_order lt)
    rcases h.formed.shape_cases lt with ⟨value, shape, -, type⟩ | ⟨name, cell, shape, -, bound, type⟩ |
      ⟨op, fixity, shape, kind⟩ | ⟨name, shape, kind⟩
    · rw [shape, type]
      exact .constant value
    · rw [shape, type]
      exact .variable bound
    · simp only [checkNode, kind] at found
      obtain ⟨count, first, rest, operands, accepted, same, target, type⟩ := checkOperator_ok found
      obtain ⟨one, others, children, rfl, rfl⟩ := List.map_eq_cons_iff.mp operands
      rw [shape, type]
      refine .operation ?_ accepted ?_ ?_
      · rw [← count]
        simp [operandsOf]
      · intro operand isOperand
        obtain ⟨child, isChild, rfl⟩ := List.mem_map.mp isOperand
        have typed := below child isChild
        rw [children] at isChild
        rcases List.mem_cons.mp isChild with rfl | isOther
        · exact typed
        · rw [← same _ (List.mem_map_of_mem isOther)]
          exact typed
      · intro writes
        have smaller := h.formed.descending id one (by simp [children])
        rw [children, List.map_cons, List.head?_cons, Option.any_some,
          isVariable_shape h.formed.descending (Nat.lt_trans smaller (Nat.lt_trans lt h.formed.root_lt))]
        exact target writes
    · simp only [checkNode, kind] at found
      obtain ⟨function, bound, params, type⟩ := checkCall_ok found
      rw [shape, type]
      refine .call bound ?_ ?_
      · rw [params]
        simp [operandsOf]
      · intro pair isPair
        rw [params, operandsOf, List.map_map, List.zip_map'] at isPair
        obtain ⟨child, isChild, rfl⟩ := List.mem_map.mp isPair
        exact below child isChild

/-- A tree as it is built from settled lexemes, before it is checked. -/
structure Built (registry : Registry) (tree : Tree) (root result : Nat) : Prop extends
    tree.Formed registry root result, tree.Unchecked root result

/-- A node has the type that the rules give to its shape. -/
theorem Built.hasType_of_shape (h : tree.Built registry root result) {id : Nat} (lt : id < root)
    (hasType : (tree.shape id).HasType registry type) : tree.HasType registry id type := by
  induction id using Nat.strongRecOn generalizing type with
  | ind id ih =>
    have inside : id < tree.size := Nat.lt_trans lt h.root_lt
    have notRoot := h.kind_ne_root lt
    have below : ∀ child ∈ (tree.node id).children, ∀ type, (tree.shape child).HasType registry type →
        tree.HasType registry child type := by
      intro child isChild type typed
      have smaller := h.descending id child isChild
      exact ih child smaller (Nat.lt_trans smaller lt) typed
    rcases h.shape_cases lt with ⟨value, shape, kind, static⟩ | ⟨name, cell, shape, kind, found, static⟩ |
      ⟨op, fixity, shape, kind⟩ | ⟨name, shape, kind⟩
    · rw [shape, Shape.HasType.constant_iff, ← static, h.type_eq inside notRoot] at hasType
      exact (hasType_constant_iff kind).mpr hasType
    · obtain ⟨cell', found', rfl⟩ := Shape.HasType.variable_iff.mp (shape ▸ hasType)
      cases found.symm.trans found'
      rw [hasType_variable_iff kind, ← h.type_eq inside notRoot, static]
    · rw [shape] at hasType
      obtain ⟨common, count, accepted, typed, target, rfl⟩ := Shape.HasType.operation_iff.mp hasType
      cases siblings : (tree.node id).children with
      | nil =>
        rw [siblings] at count
        cases fixity <;> cases count
      | cons first others =>
        rw [siblings] at target typed below
        refine .operation kind siblings (fun child mem => ?_) accepted fun writes => ?_
        · exact below child mem common (typed _ (List.mem_map_of_mem mem))
        · have smaller := h.descending id first (by simp [siblings])
          rw [← isVariable_shape h.descending (Nat.lt_trans smaller inside)]
          exact target writes
    · rw [shape] at hasType
      cases hasType with
      | @call _ function _ found count typed =>
        rw [List.length_map] at count
        refine .call kind found count ?_
        rintro ⟨child, param⟩ mem
        refine below child (List.of_mem_zip mem).1 param (typed (tree.shape child, param) ?_)
        rw [List.zip_map_left]
        exact List.mem_map_of_mem mem

/-- Below a node whose shape has a type all shapes have types. -/
private theorem Formed.hasType_below (h : tree.Formed registry root result) {part : Rose NodeId}
    (shows : tree.Shows part) (inner : part.label < root)
    (hasType : ∃ type, (tree.shape part.label).HasType registry type) :
    ∀ id ∈ part.postorder, ∃ type, (tree.shape id).HasType registry type := by
  induction shows with
  | node id parts children _ ih =>
    intro other mem
    rw [Rose.postorder_node] at mem
    rcases List.mem_append.mp mem with below | isTop
    · obtain ⟨part, isPart, inside⟩ := List.mem_flatMap.mp below
      have isChild : part.label ∈ (tree.node id).children := by
        rw [children]
        exact List.mem_map_of_mem isPart
      refine ih part isPart (Nat.lt_trans (h.descending id _ isChild) inner) ?_ other inside
      obtain ⟨type, typed⟩ := hasType
      apply typed.part
      rw [shape_eq h.descending (Nat.lt_trans inner h.root_lt), Rose.label]
      exact List.mem_map_of_mem isChild
    · obtain rfl := List.mem_singleton.mp isTop
      exact hasType

/-- Checking does not change the shape. -/
theorem shape_check (h : tree.check registry order = (.ok (), checked)) (id : NodeId) :
    checked.shape id = tree.shape id := by
  refine shape_congr (size_check h).1 ?_ ?_ id
  · intro id
    obtain ⟨type, same⟩ := node_check h id
    rw [same]
  · intro id
    obtain ⟨type, same⟩ := node_check h id
    rw [same]
    rfl

/-- The checker finds a type for the whole expression exactly if the rules give it that type. -/
theorem Built.check_iff (h : tree.Built registry root result) (type : ValueType) :
    (∃ checked, tree.check registry tree.postOrder = (.ok (), checked) ∧ checked.resultType = type) ↔
      (tree.shape result).HasType registry type := by
  have sound : ∀ checked, tree.check registry tree.postOrder = (.ok (), checked) →
      (tree.shape result).HasType registry checked.resultType := by
    intro checked isChecked
    have outcome := Checked.of_check h.toFormed isChecked
    have typed := outcome.hasType h.result_lt
    rw [shape_check isChecked] at typed
    rw [resultType, outcome.formed.result?_eq]
    exact typed
  constructor
  · rintro ⟨checked, isChecked, rfl⟩
    exact sound checked isChecked
  · intro typed
    have inner : result < tree.size := Nat.lt_trans h.result_lt h.root_lt
    have hasType := h.hasType_below (shows_below h.descending inner) (by simpa using h.result_lt)
      (by simpa using ⟨type, typed⟩)
    have all : ∀ id : Nat, id < tree.size → ∃ type, tree.HasType registry id type := by
      intro id lt
      have mem := h.mem_postOrder lt
      rw [h.postOrder_concat] at mem
      rcases List.mem_append.mp mem with below | isRoot
      · obtain ⟨type, typed⟩ := hasType id below
        have smaller : id ≤ result := le_of_mem_below h.descending below
        exact ⟨type, h.hasType_of_shape (Nat.lt_of_le_of_lt smaller h.result_lt) typed⟩
      · obtain rfl := List.mem_singleton.mp isRoot
        exact ⟨type, .root h.kind_root h.children_root (h.hasType_of_shape h.result_lt typed)⟩
    obtain ⟨checked, isChecked⟩ := h.toUnchecked.check_of_hasType all
    exact ⟨checked, isChecked, (sound checked isChecked).unique typed⟩

end Tree

namespace Expression

variable {registry : Registry} {passLimit : Nat} {source : String} {tree : Tree} {shape : Shape}

theorem built_of_parse (parsed : parse registry passLimit source = .ok tree) :
    ∃ root result, tree.Built registry root result := by
  obtain ⟨lexemes, read, parsed⟩ := bind_eq_ok.mp parsed
  obtain ⟨classified, settled, parsed⟩ := bind_eq_ok.mp parsed
  obtain ⟨root, result, formed⟩ := Builder.formed_of_build (Lexeme.settled_of_classify read settled) parsed
  obtain ⟨root', result', unchecked⟩ := Tree.unchecked_of_build parsed
  obtain rfl : root = root' := Option.some.inj (formed.root_eq.symm.trans unchecked.root_eq)
  obtain rfl : result = result' := by simpa [formed.children_root] using unchecked.children_root
  exact ⟨root, result, formed, unchecked.made, unchecked.wired⟩

theorem formed_of_parse (parsed : parse registry passLimit source = .ok tree) :
    ∃ root result, tree.Formed registry root result := by
  obtain ⟨root, result, built⟩ := built_of_parse parsed
  exact ⟨root, result, built.toFormed⟩

/-- What compiling a source comes to once its tree is built. -/
theorem compile_of_parse (parsed : parse registry passLimit source = .ok tree) :
    compile registry passLimit source =
      match tree.check registry tree.postOrder with
      | (.ok _, checked) => .ok ⟨source, checked, tree.postOrder⟩
      | (.error error, _) => .error (.ofCompileError source error) := by
  simp only [compile, compileTree, parsed, bind, Except.bind]
  rcases tree.check registry tree.postOrder with ⟨_ | _, checked⟩ <;> rfl

/-- A source compiles to an expression of a type exactly if the rules give that type to the shape of its
tree. -/
theorem compile_iff_hasType (parsed : parse registry passLimit source = .ok tree)
    (isShape : tree.shape? = some shape) (type : ValueType) :
    (∃ expression, compile registry passLimit source = .ok expression ∧ expression.resultType = type) ↔
      shape.HasType registry type := by
  obtain ⟨root, result, formed⟩ := built_of_parse parsed
  rw [Tree.shape?, formed.result?_eq] at isShape
  obtain rfl := Option.some.inj isShape
  rw [← formed.check_iff, compile_of_parse parsed]
  rcases tree.check registry tree.postOrder with ⟨error | _, checked⟩
  · simp
  · simp [resultType]

end Expression

end Reckoner
