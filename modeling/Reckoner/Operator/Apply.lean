import Reckoner.Host.Action
import Reckoner.Operator
import Reckoner.Value.Conversion

/-!
What the operators do. Integer results that do not fit into 64 bits, divisions by zero and shifts by
less than nothing or by more than 63 places fail; floating-point numbers follow their own arithmetic.
Operands are read from their slots when the operator runs, and an assignment writes to the cell of its
first operand as its last step.
-/
namespace Reckoner

/-- The binary operations that have a compound assignment. -/
inductive Arithmetic where
  | add
  | sub
  | mul
  | div
  | rem
  | shl
  | shr
  | and
  | or
  | xor
deriving DecidableEq

/-- The integer of this value if it has 64 bits. -/
def inRange (i : Int) : Except RuntimeError Int64 :=
  match Decimal.toInt64? i with
  | some i => .ok i
  | none => .error .integerOverflow

namespace Arithmetic

/-- The number of places to shift by. -/
def shiftAmount (b : Int64) : Except RuntimeError Nat :=
  if 0 ≤ b.toInt ∧ b.toInt < 64 then .ok b.toInt.toNat else .error (.invalidShift b)

/-- The operation on integers. -/
def onInts (operation : Arithmetic) (a b : Int64) : Except RuntimeError Int64 :=
  match operation with
  | add => inRange (a.toInt + b.toInt)
  | sub => inRange (a.toInt - b.toInt)
  | mul => inRange (a.toInt * b.toInt)
  | div => if b = 0 then .error .divisionByZero else inRange (a.toInt.tdiv b.toInt)
  | rem =>
    if b = 0 then .error .divisionByZero
    else do
      let _ ← inRange (a.toInt.tdiv b.toInt)
      inRange (a.toInt.tmod b.toInt)
  | shl => do
    let amount ← shiftAmount b
    return Int64.ofInt (a.toInt <<< amount)
  | shr => do
    let amount ← shiftAmount b
    return Int64.ofInt (a.toInt >>> amount)
  | and => .ok (a &&& b)
  | or => .ok (a ||| b)
  | xor => .ok (a ^^^ b)

/-- The operation on floating-point numbers, where there is one. -/
def onFloats? (operation : Arithmetic) (a b : Float) : Option Float :=
  match operation with
  | add => some (a + b)
  | sub => some (a - b)
  | mul => some (a * b)
  | div => some (a / b)
  | _ => none

/-- The operation on values. Texts can be added; operands of two types never fit. -/
def apply (operation : Arithmetic) (symbol : String) (left right : Value) :
    Except RuntimeError Value :=
  match left, right with
  | .int a, .int b => Value.int <$> operation.onInts a b
  | .float a, .float b =>
    match operation.onFloats? a b with
    | some x => .ok (.float x)
    | none => .error (.unsupportedOperand symbol .float)
  | .string a, .string b =>
    if operation = add then .ok (.string (a ++ b))
    else .error (.unsupportedOperand symbol .string)
  | left, _ => .error (.unsupportedOperand symbol left.type)

end Arithmetic

/-- The order of two floating-point numbers, unless one of them is no number. -/
def floatOrder? (a b : Float) : Option Ordering :=
  if a < b then some .lt
  else if a == b then some .eq
  else if b < a then some .gt
  else none

/-- The order of two values of one type: false before true, numbers by size, texts by code points
from the left. -/
def Value.order? (left right : Value) : Option (Option Ordering) :=
  match left, right with
  | .bool a, .bool b => some (some (compare a.toNat b.toNat))
  | .int a, .int b => some (some (compare a.toInt b.toInt))
  | .float a, .float b => some (floatOrder? a b)
  | .string a, .string b => some (some (compareOfLessAndEq a b))
  | _, _ => none

namespace Operator

/-- What an operator is given when it runs. -/
structure Application where
  symbol : String
  fixity : Fixity
  /-- The type of the result, which the casts convert to. -/
  type : ValueType
  operands : List Slot

namespace Application

/-- The value of an operand. -/
def operand (application : Application) (index : Nat) : Action Value :=
  match application.operands[index]? with
  | some slot => Action.readSlot slot
  | none => throw (.missingOperand application.symbol)

/-- The cell that the first operand stands for. -/
def target (application : Application) : Action Cell :=
  match application.operands.head?.bind Slot.cell? with
  | some cell => return cell
  | none => throw (.notAnLvalue application.symbol)

/-- The error for an operand that the operator does not take. -/
def unsupported (application : Application) (value : Value) : RuntimeError :=
  .unsupportedOperand application.symbol value.type

/-- A result that was found without changing anything. -/
def pureResult {α : Type} (result : Except RuntimeError α) : Action α :=
  match result with
  | .ok value => return value
  | .error error => throw error

/-- A binary operation. -/
def arithmetic (application : Application) (operation : Arithmetic) : Action Value := do
  let left ← application.operand 0
  let right ← application.operand 1
  pureResult (operation.apply application.symbol left right)

/-- A plus sign adds two operands and leaves a single one alone. -/
def plus (application : Application) : Action Value :=
  match application.fixity with
  | .binary => application.arithmetic .add
  | _ => application.operand 0

/-- A minus sign subtracts, or turns the sign of a single number. -/
def minus (application : Application) : Action Value :=
  match application.fixity with
  | .binary => application.arithmetic .sub
  | _ => do
    match ← application.operand 0 with
    | .int i => Value.int <$> pureResult (inRange (-i.toInt))
    | .float x => return .float (-x)
    | other => throw (application.unsupported other)

/-- A comparison by order, which is false when there is none. -/
def compare (application : Application) (test : Ordering → Bool) : Action Value := do
  let left ← application.operand 0
  let right ← application.operand 1
  match left.order? right with
  | some order => return .bool (order.any test)
  | none => throw (application.unsupported left)

/-- A test for equal values. -/
def equality (application : Application) (expected : Bool) : Action Value := do
  let left ← application.operand 0
  let right ← application.operand 1
  return .bool (left.equals right == expected)

/-- An operation on two truth values. -/
def logical (application : Application) (operation : Bool → Bool → Bool) : Action Value := do
  let left ← application.operand 0
  let right ← application.operand 1
  match left, right with
  | .bool a, .bool b => return .bool (operation a b)
  | left, _ => throw (application.unsupported left)

/-- The opposite truth value. -/
def negate (application : Application) : Action Value := do
  match ← application.operand 0 with
  | .bool b => return .bool !b
  | other => throw (application.unsupported other)

/-- The integer with all bits turned. -/
def complement (application : Application) : Action Value := do
  match ← application.operand 0 with
  | .int i => return .int (~~~i)
  | other => throw (application.unsupported other)

/-- Stores the second operand in the cell of the first. -/
def assign (application : Application) : Action Value := do
  let cell ← application.target
  Action.assign cell (← application.operand 1)
  Action.readCell cell

/-- Stores the result of an operation on both operands in the cell of the first. -/
def compound (application : Application) (operation : Arithmetic) : Action Value := do
  let cell ← application.target
  let left ← Action.readCell cell
  let right ← application.operand 1
  Action.assign cell (← pureResult (operation.apply application.symbol left right))
  Action.readCell cell

/-- Adds to an integer variable. The result is the new value, or the old one if the operator stands
after its operand. -/
def step (application : Application) (difference : Int) : Action Value := do
  let cell ← application.target
  match ← Action.readCell cell with
  | .int i =>
    let stepped ← pureResult (inRange (i.toInt + difference))
    Action.assign cell (.int stepped)
    return if application.fixity = .trailing then .int i else .int stepped
  | other => throw (application.unsupported other)

/-- Converts the operand to the type of the result. -/
def cast (application : Application) : Action Value := do
  pureResult ((← application.operand 0).convert application.type)

end Application

/-- What each operator does; punctuation does nothing. -/
def implementation? : Operator → Option (Application → Action Value)
  | addition => some (·.plus)
  | subtraction => some (·.minus)
  | multiplication => some (·.arithmetic .mul)
  | division => some (·.arithmetic .div)
  | modulus => some (·.arithmetic .rem)
  | leftShift => some (·.arithmetic .shl)
  | rightShift => some (·.arithmetic .shr)
  | lessThan => some (·.compare (·.isLT))
  | greaterThan => some (·.compare (·.isGT))
  | lessOrEqual => some (·.compare (·.isLE))
  | greaterOrEqual => some (·.compare (·.isGE))
  | equal => some (·.equality true)
  | notEqual => some (·.equality false)
  | bitwiseAnd => some (·.arithmetic .and)
  | bitwiseXor => some (·.arithmetic .xor)
  | bitwiseOr => some (·.arithmetic .or)
  | logicalAnd => some (·.logical and)
  | logicalOr => some (·.logical or)
  | assignment => some (·.assign)
  | addAssign => some (·.compound .add)
  | subtractAssign => some (·.compound .sub)
  | multiplyAssign => some (·.compound .mul)
  | divideAssign => some (·.compound .div)
  | modulusAssign => some (·.compound .rem)
  | bitwiseAndAssign => some (·.compound .and)
  | bitwiseOrAssign => some (·.compound .or)
  | bitwiseXorAssign => some (·.compound .xor)
  | leftShiftAssign => some (·.compound .shl)
  | rightShiftAssign => some (·.compound .shr)
  | logicalNot => some (·.negate)
  | complement => some (·.complement)
  | increment => some (·.step 1)
  | decrement => some (·.step (-1))
  | castBool | castInt | castFloat | castString => some (·.cast)
  | openGroup | closeGroup | comma => none

end Operator

end Reckoner
