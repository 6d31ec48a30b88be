import Reckoner.Proofs.Builder.Nodes
import Reckoner.Proofs.Host.Action
import Reckoner.Tree.Evaluate

/-!
What the operators do, said in one way for all of them: the values of the operands are read, a new value
is computed from them, and an operator that needs a variable stores it in the cell of its first operand.
-/
namespace Reckoner.Operator

/-- The operation of a binary operator or of a compound assignment. -/
def arithmetic? : Operator → Option Arithmetic
  | addition | addAssign => some .add
  | subtraction | subtractAssign => some .sub
  | multiplication | multiplyAssign => some .mul
  | division | divideAssign => some .div
  | modulus | modulusAssign => some .rem
  | leftShift | leftShiftAssign => some .shl
  | rightShift | rightShiftAssign => some .shr
  | bitwiseAnd | bitwiseAndAssign => some .and
  | bitwiseOr | bitwiseOrAssign => some .or
  | bitwiseXor | bitwiseXorAssign => some .xor
  | _ => none

/-- A comparison of two values by a test of their order, which fails when there is none. -/
def onOrder (op : Operator) (test : Ordering → Bool) (left right : Value) :
    Except RuntimeError Value :=
  match left.order? right with
  | some order => .ok (.bool (order.any test))
  | none => .error (.unsupportedOperand op.symbol left.type)

/-- An operation on two values that have to be truth values. -/
def onTruths (op : Operator) (operation : Bool → Bool → Bool) (left right : Value) :
    Except RuntimeError Value :=
  match left, right with
  | .bool a, .bool b => .ok (.bool (operation a b))
  | left, _ => .error (.unsupportedOperand op.symbol left.type)

/-- The new value from the value of the only operand. -/
def computeUnary (op : Operator) (type : ValueType) (value : Value) : Except RuntimeError Value :=
  match op, value with
  | addition, value => .ok value
  | subtraction, .int i => Value.int <$> inRange (-i.toInt)
  | subtraction, .float x => .ok (.float (-x))
  | logicalNot, .bool b => .ok (.bool !b)
  | complement, .int i => .ok (.int (~~~i))
  | increment, .int i => Value.int <$> inRange (i.toInt + 1)
  | decrement, .int i => Value.int <$> inRange (i.toInt + -1)
  | castBool, value | castInt, value | castFloat, value | castString, value => value.convert type
  | op, value => .error (.unsupportedOperand op.symbol value.type)

/-- The new value from the values of two operands. -/
def computeBinary (op : Operator) (left right : Value) : Except RuntimeError Value :=
  match op with
  | assignment => .ok right
  | equal => .ok (.bool (left.equals right))
  | notEqual => .ok (.bool !left.equals right)
  | logicalAnd => op.onTruths and left right
  | logicalOr => op.onTruths or left right
  | lessThan => op.onOrder (·.isLT) left right
  | greaterThan => op.onOrder (·.isGT) left right
  | lessOrEqual => op.onOrder (·.isLE) left right
  | greaterOrEqual => op.onOrder (·.isGE) left right
  | op =>
    match op.arithmetic? with
    | some operation => operation.apply op.symbol left right
    | none => .error (.missingOperator op.symbol)

/-- The new value from the values of the operands. -/
def compute (op : Operator) (type : ValueType) : List Value → Except RuntimeError Value
  | [value] => op.computeUnary type value
  | [left, right] => op.computeBinary left right
  | _ => .error (.missingOperand op.symbol)

/-- The type that an operator gives a result, where its first operand has the given one. -/
def typeFrom (op : Operator) (first : ValueType) : ValueType :=
  match op.result with
  | .fixed type => type
  | .sameAsOperand => first

/-- Computes a new value from the values that the operands have now. An operator on a variable stores
it in the cell of its first operand, and gives the old value if it stands behind that. -/
def perform (op : Operator) (fixity : Fixity) (type : ValueType) (operands : List Slot)
    (heap : Heap) : Except RuntimeError (Value × Heap) :=
  match op.compute (op.typeFrom type) (operands.map (·.read heap)) with
  | .error error => .error error
  | .ok value =>
    if op.form.lvalueOnly then
      match operands.head?.bind Slot.cell? with
      | none => .error (.notAnLvalue op.symbol)
      | some cell =>
        match heap.assign cell value with
        | .error error => .error error
        | .ok written => .ok (if fixity = .trailing then heap.read cell else value, written)
    else .ok (value, heap)

/-- What running an operator does to a host, given what it comes to on the heap. -/
def settle (host : Host) (result : Except RuntimeError (Value × Heap)) :
    Except RuntimeError Value × Host :=
  match result with
  | .ok (value, heap) => (.ok value, { host with heap := heap })
  | .error error => (.error error, host)

namespace Application

variable (symbol : String) (fixity : Fixity) (type : ValueType) (left right : Slot) (host : Host)

private theorem on_arithmetic (operation : Arithmetic) :
    (arithmetic ⟨symbol, fixity, type, [left, right]⟩ operation).on host =
      (operation.apply symbol (left.read host.heap) (right.read host.heap), host) := by
  simp [arithmetic, operand]

private theorem on_compare (op : Operator) (test : Ordering → Bool) :
    (compare ⟨op.symbol, fixity, type, [left, right]⟩ test).on host =
      (op.onOrder test (left.read host.heap) (right.read host.heap), host) := by
  simp only [compare, operand, List.getElem?_cons_zero, List.getElem?_cons_succ, Action.on_bind,
    Action.on_readSlot, onOrder]
  cases (left.read host.heap).order? (right.read host.heap) <;> rfl

private theorem on_equality (expected : Bool) :
    (equality ⟨symbol, fixity, type, [left, right]⟩ expected).on host =
      (.ok (.bool ((left.read host.heap).equals (right.read host.heap) == expected)), host) := by
  simp [equality, operand]

private theorem on_logical (op : Operator) (operation : Bool → Bool → Bool) :
    (logical ⟨op.symbol, fixity, type, [left, right]⟩ operation).on host =
      (op.onTruths operation (left.read host.heap) (right.read host.heap), host) := by
  simp only [logical, operand, List.getElem?_cons_zero, List.getElem?_cons_succ, Action.on_bind,
    Action.on_readSlot, onTruths]
  cases left.read host.heap <;> cases right.read host.heap <;> rfl

private theorem on_minus (only : Slot) :
    (minus ⟨subtraction.symbol, .leading, type, [only]⟩).on host =
      (subtraction.computeUnary type (only.read host.heap), host) := by
  simp only [minus, operand, List.getElem?_cons_zero, Action.on_bind, Action.on_readSlot]
  cases only.read host.heap with
  | int i =>
    simp only [Action.on_map, on_pureResult, computeUnary]
    cases inRange (-i.toInt) <;> rfl
  | _ => rfl

private theorem on_negate (only : Slot) :
    (negate ⟨logicalNot.symbol, fixity, type, [only]⟩).on host =
      (logicalNot.computeUnary type (only.read host.heap), host) := by
  simp only [negate, operand, List.getElem?_cons_zero, Action.on_bind, Action.on_readSlot]
  cases only.read host.heap <;> rfl

private theorem on_complement (only : Slot) :
    (complement ⟨Operator.complement.symbol, fixity, type, [only]⟩).on host =
      (Operator.complement.computeUnary type (only.read host.heap), host) := by
  simp only [complement, operand, List.getElem?_cons_zero, Action.on_bind, Action.on_readSlot]
  cases only.read host.heap <;> rfl

private theorem on_cast (only : Slot) :
    (cast ⟨symbol, fixity, type, [only]⟩).on host =
      ((only.read host.heap).convert type, host) := by
  simp [cast, operand]

private theorem read_of_assign {heap written : Heap} {cell : Cell} {value : Value}
    (h : heap.assign cell value = .ok written) : written.read cell = value := by
  unfold Heap.assign at h
  split at h
  · next fits =>
    cases h
    exact heap.read_write_same cell value fits
  · cases h

private theorem on_assign (cell : Cell) :
    (assign ⟨symbol, fixity, type, [.aliased cell, right]⟩).on host =
      settle host (match host.heap.assign cell (right.read host.heap) with
        | .error error => .error error
        | .ok written => .ok (right.read host.heap, written)) := by
  simp only [assign, target, operand, List.head?_cons, Option.bind_some, Slot.cell?,
    List.getElem?_cons_zero, List.getElem?_cons_succ, Action.on_bind, Action.on_pure,
    Action.on_readSlot, Action.on_assign, Action.on_readCell]
  cases stored : host.heap.assign cell (right.read host.heap) with
  | error => rfl
  | ok written => simp [settle, read_of_assign stored]

private theorem on_compound (cell : Cell) (operation : Arithmetic) :
    (compound ⟨symbol, fixity, type, [.aliased cell, right]⟩ operation).on host =
      settle host (match operation.apply symbol (host.heap.read cell) (right.read host.heap) with
        | .error error => .error error
        | .ok value =>
          match host.heap.assign cell value with
          | .error error => .error error
          | .ok written => .ok (value, written)) := by
  simp only [compound, target, operand, List.head?_cons, Option.bind_some, Slot.cell?,
    List.getElem?_cons_zero, List.getElem?_cons_succ, Action.on_bind, Action.on_pure,
    Action.on_readSlot, Action.on_assign, Action.on_readCell, on_pureResult]
  cases operation.apply symbol (host.heap.read cell) (right.read host.heap) with
  | error => rfl
  | ok value =>
    simp only
    cases stored : host.heap.assign cell value with
    | error => rfl
    | ok written => simp [settle, read_of_assign stored]

private theorem on_step (cell : Cell) {op : Operator} (difference : Int)
    (stepped : ∀ value, op.computeUnary type value =
      match value with
      | .int i => Value.int <$> inRange (i.toInt + difference)
      | other => .error (.unsupportedOperand op.symbol other.type)) :
    (step ⟨op.symbol, fixity, type, [.aliased cell]⟩ difference).on host =
      settle host (match op.computeUnary type (host.heap.read cell) with
        | .error error => .error error
        | .ok value =>
          match host.heap.assign cell value with
          | .error error => .error error
          | .ok written =>
            .ok (if fixity = .trailing then host.heap.read cell else value, written)) := by
  simp only [step, target, List.head?_cons, Option.bind_some, Slot.cell?, Action.on_bind,
    Action.on_pure, Action.on_readCell, stepped]
  cases held : host.heap.read cell with
  | int i =>
    simp only [Action.on_bind, on_pureResult]
    cases inRange (i.toInt + difference) with
    | error => rfl
    | ok stepped =>
      simp only [Action.on_assign, Functor.map, Except.map]
      cases host.heap.assign cell (.int stepped) with
      | error => rfl
      | ok written => simp only [Action.on_pure, settle]
  | _ => rfl

end Application

end Reckoner.Operator

namespace Reckoner.Tree

open Operator Operator.Application

/-- An operator has an implementation, and running it on operands is performing the operator. -/
private def Implemented (op : Operator) (fixity : Fixity) (type : ValueType) (operands : List Slot)
    (host : Host) : Prop :=
  ∃ run, op.implementation? = some run ∧
    (run ⟨op.symbol, fixity, op.typeFrom type, operands⟩).on host =
      settle host (op.perform fixity type operands host.heap)

variable {op : Operator} {fixity : Fixity} {operands : List Slot}

/-- An operator that stores nothing only has to compute the value. -/
private theorem implemented_of_compute {type : ValueType} {host : Host} {run : Application → Action Value}
    (found : op.implementation? = some run) (unchanging : op.form.lvalueOnly = false)
    (computed : (run ⟨op.symbol, fixity, op.typeFrom type, operands⟩).on host =
      (op.compute (op.typeFrom type) (operands.map (·.read host.heap)), host)) :
    Implemented op fixity type operands host := by
  refine ⟨run, found, ?_⟩
  simp only [computed, perform, unchanging]
  cases op.compute (op.typeFrom type) (operands.map (·.read host.heap)) <;> rfl

private theorem implemented_binary {left right : Slot} (allowed : op.form.allows .binary = true)
    (target : op.form.lvalueOnly = true → ∃ cell, left.cell? = some cell) (type : ValueType) (host : Host) :
    Implemented op .binary type [left, right] host := by
  cases op with
  | addition | subtraction | multiplication | division | modulus | leftShift | rightShift
  | bitwiseAnd | bitwiseXor | bitwiseOr => exact implemented_of_compute rfl rfl (on_arithmetic ..)
  | lessThan | greaterThan | lessOrEqual | greaterOrEqual =>
    exact implemented_of_compute rfl rfl (on_compare ..)
  | equal | notEqual =>
    refine implemented_of_compute rfl rfl ((on_equality ..).trans ?_)
    simp [compute, computeBinary]
  | logicalAnd | logicalOr => exact implemented_of_compute rfl rfl (on_logical ..)
  | assignment =>
    obtain ⟨cell, isCell⟩ := target rfl
    cases left <;> cases isCell
    exact ⟨_, rfl, on_assign ..⟩
  | addAssign | subtractAssign | multiplyAssign | divideAssign | modulusAssign | bitwiseAndAssign
  | bitwiseOrAssign | bitwiseXorAssign | leftShiftAssign | rightShiftAssign =>
    obtain ⟨cell, isCell⟩ := target rfl
    cases left <;> cases isCell
    exact ⟨_, rfl, on_compound ..⟩
  | logicalNot | complement | increment | decrement | castBool | castInt | castFloat | castString
  | openGroup | closeGroup | comma => cases allowed

private theorem implemented_leading {only : Slot} (allowed : op.form.allows .leading = true)
    (target : op.form.lvalueOnly = true → ∃ cell, only.cell? = some cell) (type : ValueType) (host : Host) :
    Implemented op .leading type [only] host := by
  cases op with
  | addition => exact implemented_of_compute rfl rfl rfl
  | subtraction => exact implemented_of_compute rfl rfl (on_minus ..)
  | logicalNot => exact implemented_of_compute rfl rfl (on_negate ..)
  | complement => exact implemented_of_compute rfl rfl (on_complement ..)
  | castBool | castInt | castFloat | castString => exact implemented_of_compute rfl rfl (on_cast ..)
  | increment | decrement =>
    obtain ⟨cell, isCell⟩ := target rfl
    cases only <;> cases isCell
    exact ⟨_, rfl, on_step _ _ _ _ _ fun value => by cases value <;> rfl⟩
  | _ => cases allowed

private theorem implemented_trailing {only : Slot} (allowed : op.form.allows .trailing = true)
    (target : op.form.lvalueOnly = true → ∃ cell, only.cell? = some cell) (type : ValueType) (host : Host) :
    Implemented op .trailing type [only] host := by
  cases op with
  | increment | decrement =>
    obtain ⟨cell, isCell⟩ := target rfl
    cases only <;> cases isCell
    exact ⟨_, rfl, on_step _ _ _ _ _ fun value => by cases value <;> rfl⟩
  | _ => cases allowed

/-- Running an operator of a checked tree is performing it. -/
theorem operatorSlot_on (allowed : op.form.allows fixity = true)
    (count : operands.length = fixity.operandCount)
    (target : op.form.lvalueOnly = true → ∃ cell, operands.head?.bind Slot.cell? = some cell)
    (type : ValueType) (host : Host) :
    (operatorSlot op fixity type operands).on host =
      match settle host (op.perform fixity type operands host.heap) with
      | (.ok value, host) => (.ok (.owned value), host)
      | (.error error, host) => (.error error, host) := by
  have implemented : Implemented op fixity type operands host := by
    cases fixity with
    | binary =>
      obtain ⟨left, right, rfl⟩ := List.length_eq_two.mp count
      exact implemented_binary allowed target type host
    | leading =>
      obtain ⟨only, rfl⟩ := List.length_eq_one_iff.mp count
      exact implemented_leading allowed target type host
    | trailing =>
      obtain ⟨only, rfl⟩ := List.length_eq_one_iff.mp count
      exact implemented_trailing allowed target type host
  obtain ⟨run, found, performed⟩ := implemented
  simp only [typeFrom] at performed
  simp only [operatorSlot, found, Action.on_map]
  cases rule : op.result <;> simp only [rule] at performed ⊢ <;> rw [performed] <;>
    rcases settle host (op.perform fixity type operands host.heap) with ⟨_ | _, _⟩ <;> rfl

end Reckoner.Tree
