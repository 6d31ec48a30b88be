import Reckoner.Text.Quoted
import Reckoner.Value

/-!
The ways in which an evaluation can fail, and what is said about each. Operators are named by their
symbols. Host functions fail with these errors too, or with a message of their own.
-/
namespace Reckoner

/-- Why an evaluation failed. -/
inductive RuntimeError where
  | divisionByZero
  | integerOverflow
  | invalidShift (amount : Int64)
  | invalidCast (text : String) (target : ValueType)
  | voidValue
  | assignmentType (expected found : ValueType)
  | variableUnbound (name : String)
  | variableRebound (name : String) (expected found : ValueType)
  | notAnLvalue (symbol : String)
  | missingOperand (symbol : String)
  | missingOperator (symbol : String)
  | unsupportedOperand (symbol : String) (type : ValueType)
  | unknownFunction (name : String)
  | returnType (name : String) (expected found : ValueType)
  | argumentCount (expected found : Nat)
  | argumentType (expected : ValueType)
  | host (message : String)
deriving DecidableEq, Inhabited, Repr

namespace RuntimeError

/-- The message of the error. -/
def message : RuntimeError → String
  | divisionByZero => "division by zero"
  | integerOverflow => "integer overflow"
  | invalidShift amount => s!"shift amount {Decimal.ofInt64 amount} is out of range"
  | invalidCast text target => s!"cannot convert {Text.quoted text} to {target.name}"
  | voidValue => "expression produced no value"
  | assignmentType expected found => s!"cannot assign {found.name} to a {expected.name} variable"
  | variableUnbound name => s!"variable {name} is no longer registered"
  | variableRebound name expected found =>
    s!"variable {name} was re-registered as {found.name}, expected {expected.name}"
  | notAnLvalue symbol => s!"operator {symbol} needs a variable operand"
  | missingOperand symbol => s!"operator {symbol} is missing an operand"
  | missingOperator symbol => s!"operator {symbol} has no implementation"
  | unsupportedOperand symbol type => s!"operator {symbol} cannot be applied to {type.name}"
  | unknownFunction name => s!"function {name} is not registered"
  | returnType name expected found =>
    s!"function {name} returned {found.name}, expected {expected.name}"
  | argumentCount expected found => s!"expected {expected} argument(s), found {found}"
  | argumentType expected => s!"argument has the wrong type, expected {expected.name}"
  | host message => message

/-- What to do about the error, where something can be said. -/
def help : RuntimeError → List String
  | variableUnbound _ | variableRebound .. =>
    ["recompile the expression after changing variable bindings"]
  | _ => []

end RuntimeError

end Reckoner
