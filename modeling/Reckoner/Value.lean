import Reckoner.Decimal.Notation

/-!
Values and their types. A value is a truth value, a 64-bit integer, a floating-point number or a
text; the void value stands for the result of a function that returns nothing and is no operand of
any operator.
-/
namespace Reckoner

/-- The type of a value or of a part of an expression. -/
inductive ValueType where
  | bool
  | int
  | float
  | string
  | void
deriving DecidableEq, Inhabited, Repr

namespace ValueType

/-- The name of the type in expressions and messages. -/
def name : ValueType → String
  | bool => "bool"
  | int => "int"
  | float => "float"
  | string => "string"
  | void => "void"

/-- The name of the type in summaries of signatures. -/
def title : ValueType → String
  | bool => "Boolean"
  | int => "Integer"
  | float => "Float"
  | string => "String"
  | void => "Void"

end ValueType

/-- A set of types that operands may have. The void type is in none. -/
structure TypeSet where
  bool : Bool
  int : Bool
  float : Bool
  string : Bool
deriving DecidableEq, Inhabited

namespace TypeSet

/-- No type at all. -/
def none : TypeSet :=
  ⟨false, false, false, false⟩

/-- Every type that an operand can have. -/
def all : TypeSet :=
  ⟨true, true, true, true⟩

/-- The one type, or nothing for void. -/
def only (type : ValueType) : TypeSet :=
  ⟨type = .bool, type = .int, type = .float, type = .string⟩

/-- The types of both sets. -/
def union (a b : TypeSet) : TypeSet :=
  ⟨a.bool || b.bool, a.int || b.int, a.float || b.float, a.string || b.string⟩

/-- The set of the listed types. -/
def ofList (types : List ValueType) : TypeSet :=
  types.foldl (fun set type => set.union (only type)) none

/-- Integers only. -/
def ints : TypeSet :=
  only .int

/-- Integers and floating-point numbers. -/
def numeric : TypeSet :=
  ofList [.int, .float]

/-- Numbers and texts. -/
def textual : TypeSet :=
  ofList [.int, .float, .string]

/-- Whether an operand of this type is accepted. -/
def accepts (set : TypeSet) : ValueType → Bool
  | .bool => set.bool
  | .int => set.int
  | .float => set.float
  | .string => set.string
  | .void => false

end TypeSet

/-- A computed value. -/
inductive Value where
  | void
  | bool (b : Bool)
  | int (i : Int64)
  | float (x : Float)
  | string (s : String)
deriving Inhabited

namespace Value

/-- The type of a value. -/
def type : Value → ValueType
  | void => .void
  | bool _ => .bool
  | int _ => .int
  | float _ => .float
  | string _ => .string

/-- Whether the value is the void value. -/
def isVoid : Value → Bool
  | void => true
  | _ => false

/-- Equality of values: values of different types differ, and numbers compare as numbers, so that
the value which is no number differs from itself. -/
def equals : Value → Value → Bool
  | void, void => true
  | bool a, bool b => a == b
  | int a, int b => a == b
  | float a, float b => a == b
  | string a, string b => a == b
  | _, _ => false

instance : BEq Value := ⟨equals⟩

/-- The plain text of a value; void has none. -/
def text : Value → String
  | void => ""
  | bool b => if b then "true" else "false"
  | int i => Decimal.ofInt64 i
  | float x => Decimal.ofFloat x
  | string s => s

end Value

end Reckoner
