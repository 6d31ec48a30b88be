import Reckoner.Operator

/-!
Families of operators that behave alike, and the marks that the operator table has for them.
-/
namespace Reckoner.Operator

/-- The step operators, the assignment and the compound assignments. -/
def writes : Operator → Bool
  | increment | decrement | assignment | addAssign | subtractAssign | multiplyAssign | divideAssign
  | modulusAssign | bitwiseAndAssign | bitwiseOrAssign | bitwiseXorAssign | leftShiftAssign
  | rightShiftAssign => true
  | _ => false

/-- The operators that step a variable by one. -/
def isStep : Operator → Bool
  | increment | decrement => true
  | _ => false

/-- The signs. -/
def isSign : Operator → Bool
  | addition | subtraction => true
  | _ => false

/-- The operators that write are those that need a variable. -/
theorem lvalueOnly_eq (op : Operator) : op.form.lvalueOnly = op.writes := by
  cases op <;> rfl

/-- The step operators are those that may stand on either side of their variable. -/
theorem needsSide_eq (op : Operator) : op.form.needsSide = op.isStep := by
  cases op <;> rfl

/-- The signs are the operators that can be binary as well as unary. -/
theorem isIndefinite_eq (op : Operator) : op.form.isIndefinite = op.isSign := by
  cases op <;> rfl

theorem isSign_of_isStep {op : Operator} (isStep : op.isStep = true) : op.isSign = false := by
  cases op <;> first | rfl | cases isStep

/-- A sign that is not binary stands in front of its operand. -/
theorem unary_form_of_isSign {op : Operator} (isSign : op.isSign = true) :
    { op.form with binary := false } = (⟨false, true, false, false⟩ : Form) := by
  cases op <;> first | rfl | cases isSign

end Reckoner.Operator
