import Reckoner.Proofs.Operator.Typing

/-!
Operators that are short for others. A compound assignment stores what the binary operator computes from the
same operands, and a step of a variable is the compound assignment of one. They fail when the longer form
does, and before anything is stored.
-/
namespace Reckoner

/-- On operands of one type that the operation is defined on, the symbol is not looked at. -/
private theorem Arithmetic.apply_symbol (operation : Arithmetic) {left right : Value}
    (accepted : operation.accepts left.type = true) (same : right.type = left.type)
    (symbol other : String) : operation.apply symbol left right = operation.apply other left right := by
  cases left with
  | int a => cases right <;> first | rfl | cases same
  | float a =>
    cases right with
    | float b => cases operation <;> first | rfl | cases accepted
    | _ => cases same
  | string a =>
    cases right with
    | string b => cases operation <;> first | rfl | cases accepted
    | _ => cases same
  | void | bool => cases accepted

namespace Operator

/-- The binary operator whose result a compound assignment stores. -/
def expansion? : Operator → Option Operator
  | addAssign => some addition
  | subtractAssign => some subtraction
  | multiplyAssign => some multiplication
  | divideAssign => some division
  | modulusAssign => some modulus
  | leftShiftAssign => some leftShift
  | rightShiftAssign => some rightShift
  | bitwiseAndAssign => some bitwiseAnd
  | bitwiseOrAssign => some bitwiseOr
  | bitwiseXorAssign => some bitwiseXor
  | _ => none

/-- The compound assignment that a step of a variable by one is. -/
def stepping? : Operator → Option Operator
  | increment => some addAssign
  | decrement => some subtractAssign
  | _ => none

variable {op plain compound : Operator} {type : ValueType} {cell : Cell} {slot : Slot} {heap : Heap}

theorem typeFrom_of_expansion? (h : op.expansion? = some plain) (type : ValueType) :
    op.typeFrom type = type ∧ plain.typeFrom type = type := by
  cases op <;> cases h <;> exact ⟨rfl, rfl⟩

/-- Both take operands of the same types, in binary form, and only the compound assignment needs a
variable. -/
theorem row_of_expansion? (h : op.expansion? = some plain) :
    op.operands = plain.operands ∧ op.form.allows .binary = true ∧ plain.form.allows .binary = true ∧
      op.form.lvalueOnly = true ∧ plain.form.lvalueOnly = false := by
  cases op <;> cases h <;> exact ⟨rfl, rfl, rfl, rfl, rfl⟩

/-- Both compute the same. -/
private theorem computeBinary_of_expansion? (h : op.expansion? = some plain) {left right : Value}
    (accepted : op.operands.accepts left.type = true) (same : right.type = left.type) :
    op.computeBinary left right = plain.computeBinary left right := by
  cases op <;> cases h <;>
    (refine Arithmetic.apply_symbol _ ?_ same _ _; revert accepted; cases left.type <;> decide)

/-- An operator that needs no variable leaves the heap alone. -/
theorem heap_of_perform {fixity : Fixity} {operands : List Slot} {value : Value} {after : Heap}
    (reads : op.form.lvalueOnly = false)
    (ran : op.perform fixity type operands heap = .ok (value, after)) : after = heap := by
  simp only [perform, reads, Bool.false_eq_true, if_false] at ran
  split at ran <;> cases ran
  rfl

/-- A compound assignment does what assigning the result of the binary operator does. -/
theorem perform_of_expansion? (h : op.expansion? = some plain)
    (accepted : op.operands.accepts cell.type = true) (typed : slot.type = cell.type) :
    op.perform .binary cell.type [.aliased cell, slot] heap =
      match plain.perform .binary cell.type [.aliased cell, slot] heap with
      | .error error => .error error
      | .ok (value, between) =>
        assignment.perform .binary cell.type [.aliased cell, .owned value] between := by
  obtain ⟨-, -, -, writes, reads⟩ := row_of_expansion? h
  have left : ((Slot.aliased cell).read heap).type = cell.type := heap.type_read cell
  have right : (slot.read heap).type = cell.type := (slot.type_read heap).trans typed
  have computes : op.computeBinary ((Slot.aliased cell).read heap) (slot.read heap) =
      plain.computeBinary ((Slot.aliased cell).read heap) (slot.read heap) := by
    apply computeBinary_of_expansion? h
    · rw [left]
      exact accepted
    · rw [left, right]
  simp only [perform, List.map_cons, List.map_nil, compute, computes, writes, reads, if_true]
  cases plain.computeBinary ((Slot.aliased cell).read heap) (slot.read heap) with
  | error error => rfl
  | ok value => rfl

theorem row_of_stepping? (h : op.stepping? = some compound) {fixity : Fixity} (unary : fixity ≠ .binary) :
    op.operands = .ints ∧ op.form.allows fixity = true ∧ op.form.lvalueOnly = true ∧
      op.typeFrom .int = .int ∧ compound.typeFrom .int = .int ∧ compound.form.allows .binary = true ∧
      compound.form.lvalueOnly = true ∧ compound.operands.accepts .int = true := by
  cases fixity with
  | binary => exact absurd rfl unary
  | leading | trailing => cases op <;> cases h <;> exact ⟨rfl, rfl, rfl, rfl, rfl, rfl, rfl, rfl⟩

/-- Stepping an integer variable does what the compound assignment of one does, and gives what the variable
held before if the operator stands behind it. -/
theorem perform_of_stepping? (h : op.stepping? = some compound) {fixity : Fixity}
    (unary : fixity ≠ .binary) (isInt : cell.type = .int) :
    op.perform fixity .int [.aliased cell] heap =
      (compound.perform .binary .int [.aliased cell, .owned (.int 1)] heap).map fun (value, written) =>
        (if fixity = .trailing then heap.read cell else value, written) := by
  have type := heap.type_read cell
  cases held : heap.read cell with
  | int i =>
    have computes : op.computeUnary .int (.int i) = compound.computeBinary (.int i) (.int 1) := by
      cases op <;> cases h <;> rfl
    obtain ⟨-, -, writes, static, -, -, writes', -⟩ := row_of_stepping? h unary
    simp only [perform, List.map_cons, List.map_nil, compute, Slot.read, held, static, writes, writes',
      if_true, computes]
    cases compound.computeBinary (.int i) (.int 1) with
    | error error => rfl
    | ok value =>
      simp only [List.head?_cons, Option.bind_some, Slot.cell?]
      cases heap.assign cell value with
      | error error => rfl
      | ok written =>
        rw [← held]
        rfl
  | _ =>
    rw [held, isInt] at type
    cases type

end Operator

end Reckoner
