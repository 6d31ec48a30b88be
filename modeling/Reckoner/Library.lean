import Reckoner.Engine
import Reckoner.Text.LetterCase

/-!
The standard functions. Integers have absolute value, least and greatest of two; floating-point numbers
square root, power and the integer part below; texts length in characters, both cases, and printing.
None of them is there unless it is registered.
-/
namespace Reckoner.Library

/-- The absolute value of an integer, which the least integer does not have. Anything but one integer is
refused. -/
def absolute : HostFunction where
  result := .int
  params := [.int]
  body
    | [.int i] =>
      match inRange i.toInt.natAbs with
      | .ok size => return .int size
      | .error error => throw error
    | _ => throw (.argumentType .int)

/-- The number functions with their names. -/
def math : List (String × HostFunction) := [
  ("abs", absolute),
  ("min", .ofTyped fun (a b : Int64) => (pure (min a b) : StateM Host Int64)),
  ("max", .ofTyped fun (a b : Int64) => (pure (max a b) : StateM Host Int64)),
  ("sqrt", .ofTyped fun (x : Float) => (pure x.sqrt : StateM Host Float)),
  ("pow", .ofTyped fun (x y : Float) => (pure (x.pow y) : StateM Host Float)),
  ("floor", .ofTyped fun (x : Float) => (pure x.floor : StateM Host Float))]

/-- The text functions with their names. -/
def text : List (String × HostFunction) := [
  ("len", .ofTyped fun (s : String) => (pure (Int64.ofNat s.length) : StateM Host Int64)),
  ("upper", .ofTyped fun (s : String) => (pure (Text.upper s) : StateM Host String)),
  ("lower", .ofTyped fun (s : String) => (pure (Text.lower s) : StateM Host String)),
  ("print", .ofTyped fun (s : String) => (modify (·.printLine s) : StateM Host Unit))]

/-- Registers functions one after the other. -/
def register (functions : List (String × HostFunction)) : EngineAction Unit :=
  functions.forM fun (name, function) => Engine.addFunction name function

/-- Registers all standard functions. -/
def registerAll : EngineAction Unit := do
  register math
  register text

end Reckoner.Library
