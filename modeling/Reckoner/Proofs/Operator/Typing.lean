import Reckoner.Proofs.Operator.Perform
import Reckoner.Tree.Check

/-!
Operators on operands of the types they accept. The result has the type of the operator table, and the
only failures are those of integer arithmetic and of casts from texts to numbers.
-/
namespace Reckoner

/-- A failure that an operator can have on operands of accepted types. -/
inductive Operator.Fault (op : Operator) (values : List Value) : RuntimeError → Prop where
  | divisionByZero : Fault op values .divisionByZero
  | integerOverflow : Fault op values .integerOverflow
  | invalidShift (amount : Int64) : Fault op values (.invalidShift amount)
  | castInt (text : String) : op = .castInt → values = [.string text] →
      Fault op values (.invalidCast text .int)
  | castFloat (text : String) : op = .castFloat → values = [.string text] →
      Fault op values (.invalidCast text .float)

/-- A result of the given type, or a failure of the operator. -/
def Operator.Fits (op : Operator) (values : List Value) (type : ValueType)
    (result : Except RuntimeError Value) : Prop :=
  match result with
  | .ok value => value.type = type
  | .error error => op.Fault values error

namespace Operator

variable {op : Operator} {values : List Value}

private theorem fits_inRange (i : Int) : op.Fits values .int (Value.int <$> inRange i) := by
  unfold inRange
  cases Decimal.toInt64? i with
  | none => exact .integerOverflow
  | some => rfl

private theorem fits_onInts (operation : Arithmetic) (a b : Int64) :
    op.Fits values .int (Value.int <$> operation.onInts a b) := by
  cases operation with
  | add | sub | mul => exact fits_inRange _
  | div =>
    simp only [Arithmetic.onInts]
    split
    · exact .divisionByZero
    · exact fits_inRange _
  | rem =>
    simp only [Arithmetic.onInts]
    split
    · exact .divisionByZero
    · have quotient := @fits_inRange op values (a.toInt.tdiv b.toInt)
      cases ran : inRange (a.toInt.tdiv b.toInt) with
      | error error =>
        rw [ran] at quotient
        exact quotient
      | ok => exact fits_inRange _
  | shl | shr =>
    simp only [Arithmetic.onInts, Arithmetic.shiftAmount]
    split
    · rfl
    · exact .invalidShift b
  | and | or | xor => rfl

end Operator

/-- The types on which an operation is defined. -/
def Arithmetic.accepts (operation : Arithmetic) : ValueType → Bool
  | .int => true
  | .float => operation = .add || operation = .sub || operation = .mul || operation = .div
  | .string => operation = .add
  | _ => false

namespace Operator

variable {op : Operator} {values : List Value} {type : ValueType}

private theorem fits_apply (operation : Arithmetic) (symbol : String) {left right : Value}
    (accepted : operation.accepts type = true) (one : left.type = type) (two : right.type = type) :
    op.Fits values type (operation.apply symbol left right) := by
  subst one
  cases left with
  | int a =>
    cases right with
    | int b => exact fits_onInts operation a b
    | _ => cases two
  | float a =>
    cases right with
    | float b => cases operation <;> first | rfl | cases accepted
    | _ => cases two
  | string a =>
    cases right with
    | string b => cases operation <;> first | rfl | cases accepted
    | _ => cases two
  | void | bool => cases accepted

private theorem fits_onOrder {test : Ordering → Bool} {left right : Value}
    (accepted : TypeSet.all.accepts type = true) (one : left.type = type) (two : right.type = type) :
    op.Fits values .bool (op.onOrder test left right) := by
  subst one
  cases left <;> cases right <;> first | rfl | (cases two; done) | cases accepted

private theorem fits_onTruths {operation : Bool → Bool → Bool} {left right : Value}
    (one : left.type = .bool) (two : right.type = .bool) :
    op.Fits values .bool (op.onTruths operation left right) := by
  cases left <;> cases right <;> first | rfl | (cases one; done) | cases two

private theorem eq_bool_of_accepts (h : (TypeSet.only .bool).accepts type = true) : type = .bool := by
  cases type <;> first | rfl | cases h

/-- A binary operator on two operands of one accepted type. -/
theorem fits_computeBinary {left right : Value} (allowed : op.form.binary = true)
    (accepted : op.operands.accepts type = true) (one : left.type = type)
    (two : right.type = type) :
    op.Fits values (op.typeFrom type) (op.computeBinary left right) := by
  cases op with
  | assignment => exact two
  | equal | notEqual => rfl
  | logicalAnd | logicalOr =>
    obtain rfl := eq_bool_of_accepts accepted
    exact fits_onTruths one two
  | lessThan | greaterThan | lessOrEqual | greaterOrEqual => exact fits_onOrder accepted one two
  | addition | subtraction | multiplication | division | modulus | leftShift | rightShift
  | bitwiseAnd | bitwiseXor | bitwiseOr | addAssign | subtractAssign | multiplyAssign | divideAssign
  | modulusAssign | bitwiseAndAssign | bitwiseOrAssign | bitwiseXorAssign | leftShiftAssign
  | rightShiftAssign =>
    refine fits_apply _ _ ?_ one two
    cases type <;> first | rfl | cases accepted
  | _ => cases allowed

private theorem fits_convert {value : Value} {target : ValueType}
    (void : value.type ≠ .void)
    (toInt : target = .int → op = .castInt) (toFloat : target = .float → op = .castFloat) :
    op.Fits [value] target (value.convert target) := by
  cases result : value.convert target with
  | ok converted => exact Value.type_of_convert result
  | error error =>
    cases target with
    | bool | string | void =>
      cases value <;> first | exact absurd rfl void | cases result
    | int =>
      cases value with
      | string text =>
        simp only [Value.convert, Value.toInt] at result
        split at result
        · cases result
        · cases result
          exact .castInt text (toInt rfl) rfl
      | void => exact absurd rfl void
      | _ => cases result
    | float =>
      cases value with
      | string text =>
        simp only [Value.convert, Value.toFloat] at result
        split at result
        · cases result
        · cases result
          exact .castFloat text (toFloat rfl) rfl
      | void => exact absurd rfl void
      | _ => cases result

/-- A unary operator on an operand of an accepted type. -/
theorem fits_computeUnary {value : Value} (allowed : op.form.leading = true)
    (accepted : op.operands.accepts type = true) (one : value.type = type) :
    op.Fits [value] (op.typeFrom type) (op.computeUnary (op.typeFrom type) value) := by
  subst one
  cases op with
  | addition => rfl
  | subtraction =>
    cases value with
    | int i => exact fits_inRange _
    | float x => rfl
    | _ => cases accepted
  | increment | decrement =>
    cases value with
    | int i => exact fits_inRange _
    | _ => cases accepted
  | logicalNot | complement =>
    cases value <;> first | rfl | cases accepted
  | castBool | castInt | castFloat | castString =>
    refine fits_convert ?_ ?_ ?_
    · cases value <;> first | (cases accepted; done) | simp [Value.type]
    · simp [typeFrom, result, row, castRow]
    · simp [typeFrom, result, row, castRow]
  | _ => cases allowed

/-- What the checker makes sure of about the operands of an operator, as far as their slots show it. -/
structure Ready (op : Operator) (fixity : Fixity) (type : ValueType) (operands : List Slot) : Prop where
  allowed : op.form.allows fixity = true
  count : operands.length = fixity.operandCount
  accepted : op.operands.accepts type = true
  typed : ∀ slot ∈ operands, slot.type = type
  target : op.form.lvalueOnly = true → ∃ cell, operands.head?.bind Slot.cell? = some cell

/-- An operator whose operands are as checked computes a value of the type from the table. -/
theorem Ready.fits_compute {fixity : Fixity} {operands : List Slot}
    (h : op.Ready fixity type operands) (heap : Heap) :
    op.Fits (operands.map (·.read heap)) (op.typeFrom type)
      (op.compute (op.typeFrom type) (operands.map (·.read heap))) := by
  have typed : ∀ slot ∈ operands, (slot.read heap).type = type := fun slot mem =>
    (slot.type_read heap).trans (h.typed slot mem)
  have allowed := h.allowed
  cases fixity with
  | binary =>
    obtain ⟨left, right, rfl⟩ := List.length_eq_two.mp h.count
    exact fits_computeBinary allowed h.accepted (typed left (by simp)) (typed right (by simp))
  | leading =>
    obtain ⟨only, rfl⟩ := List.length_eq_one_iff.mp h.count
    exact fits_computeUnary allowed h.accepted (typed only (by simp))
  | trailing =>
    obtain ⟨only, rfl⟩ := List.length_eq_one_iff.mp h.count
    refine fits_computeUnary ?_ h.accepted (typed only (by simp))
    cases op <;> first | rfl | cases allowed

private theorem typeFrom_of_lvalueOnly (h : op.form.lvalueOnly = true) (type : ValueType) :
    op.typeFrom type = type := by
  cases op <;> first | rfl | cases h

/-- An operator whose operands are as checked gives a value of the type from the table. -/
theorem Ready.fits_perform {fixity : Fixity} {operands : List Slot}
    (h : op.Ready fixity type operands) {static : ValueType}
    (same : op.typeFrom static = op.typeFrom type) (heap : Heap) :
    op.Fits (operands.map (·.read heap)) (op.typeFrom type)
      ((op.perform fixity static operands heap).map (·.1)) := by
  have computed := h.fits_compute heap
  simp only [perform, same]
  cases result : op.compute (op.typeFrom type) (operands.map (·.read heap)) with
  | error error =>
    rw [result] at computed
    exact computed
  | ok value =>
    rw [result] at computed
    simp only
    split
    · next writes =>
      obtain ⟨cell, isCell⟩ := h.target writes
      have cellType : cell.type = type := by
        cases operands with
        | nil => cases isCell
        | cons slot rest =>
          cases slot <;> cases isCell
          exact h.typed _ List.mem_cons_self
      have fits : value.type = cell.type := by
        rw [cellType, ← typeFrom_of_lvalueOnly writes type]
        exact computed
      simp only [isCell, Heap.assign, fits, dite_true]
      split
      · exact (heap.type_read cell).trans (cellType.trans (typeFrom_of_lvalueOnly writes type).symm)
      · exact computed
    · exact computed

end Operator

end Reckoner
