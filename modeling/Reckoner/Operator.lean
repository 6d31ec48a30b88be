import Reckoner.Value

/-!
The operators of expressions: their symbols, how tightly they bind, where their operands stand, and
which types they take and give. Parentheses and the comma are among them, but as punctuation only.
-/
namespace Reckoner

/-- The operators, in the order of their table. -/
inductive Operator where
  | addition
  | subtraction
  | multiplication
  | division
  | modulus
  | leftShift
  | rightShift
  | lessThan
  | greaterThan
  | lessOrEqual
  | greaterOrEqual
  | equal
  | notEqual
  | bitwiseAnd
  | bitwiseXor
  | bitwiseOr
  | logicalAnd
  | logicalOr
  | assignment
  | addAssign
  | subtractAssign
  | multiplyAssign
  | divideAssign
  | modulusAssign
  | bitwiseAndAssign
  | bitwiseOrAssign
  | bitwiseXorAssign
  | leftShiftAssign
  | rightShiftAssign
  | logicalNot
  | complement
  | increment
  | decrement
  | castBool
  | castInt
  | castFloat
  | castString
  | openGroup
  | closeGroup
  | comma
deriving DecidableEq, Inhabited, Repr

/-- The ways in which an operator can stand with its operands. -/
structure Form where
  /-- Between two operands. -/
  binary : Bool
  /-- Before its one operand. -/
  leading : Bool
  /-- After its one operand. -/
  trailing : Bool
  /-- The first operand has to be a variable. -/
  lvalueOnly : Bool
deriving DecidableEq, Inhabited

namespace Form

/-- Binary as well as unary, so that the place decides. -/
def isIndefinite (form : Form) : Bool :=
  form.binary && (form.leading || form.trailing)

/-- A unary operator on a variable that may stand on either side of it. -/
def needsSide (form : Form) : Bool :=
  form.lvalueOnly && form.leading && form.trailing

end Form

/-- How operators of one precedence group. -/
inductive Associativity where
  | left
  | right
deriving DecidableEq, Inhabited

/-- How an operator stands in a finished tree. -/
inductive Fixity where
  | binary
  | leading
  | trailing
deriving DecidableEq, Inhabited

/-- The number of operands. -/
def Fixity.operandCount : Fixity → Nat
  | binary => 2
  | leading | trailing => 1

/-- The type of an operator's result: that of its first operand, or always the same one. -/
inductive ResultRule where
  | sameAsOperand
  | fixed (type : ValueType)
deriving DecidableEq, Inhabited

namespace Operator

/-- The precedence of unary operators. -/
def unaryPrecedence : Nat :=
  15

/-- A row of the operator table. -/
structure Row where
  symbol : String
  precedence : Nat
  form : Form
  operands : TypeSet
  result : ResultRule
  associativity : Associativity

/-- Binary, and not restricted to variables. -/
def binaryForm : Form :=
  ⟨true, false, false, false⟩

/-- A left-grouping operator on two operands of one type, with a result of that type. -/
def binaryRow (symbol : String) (precedence : Nat) (operands : TypeSet) : Row :=
  ⟨symbol, precedence, binaryForm, operands, .sameAsOperand, .left⟩

/-- A sign, which can also stand before a single operand. -/
def signRow (symbol : String) (operands : TypeSet) : Row :=
  ⟨symbol, 12, ⟨true, true, false, false⟩, operands, .sameAsOperand, .left⟩

/-- A comparison of two operands of any one type. -/
def comparisonRow (symbol : String) (precedence : Nat) : Row :=
  ⟨symbol, precedence, binaryForm, .all, .fixed .bool, .left⟩

/-- An assignment to the variable on its left. -/
def assignmentRow (symbol : String) (operands : TypeSet) : Row :=
  ⟨symbol, 3, ⟨true, false, false, true⟩, operands, .sameAsOperand, .right⟩

/-- A unary operator before its operand. -/
def unaryRow (symbol : String) (operands : TypeSet) : Row :=
  ⟨symbol, unaryPrecedence, ⟨false, true, false, false⟩, operands, .sameAsOperand, .right⟩

/-- An operator that steps an integer variable on either side of it. -/
def stepRow (symbol : String) : Row :=
  ⟨symbol, unaryPrecedence, ⟨false, true, true, true⟩, .ints, .sameAsOperand, .right⟩

/-- A conversion to the named type, which binds tighter than everything else. -/
def castRow (symbol : String) (target : ValueType) : Row :=
  ⟨symbol, 16, ⟨false, true, false, false⟩, .all, .fixed target, .right⟩

/-- A mark that groups or separates and never stands for an operation. -/
def punctuationRow (symbol : String) : Row :=
  ⟨symbol, 1, ⟨false, false, false, false⟩, .none, .sameAsOperand, .left⟩

/-- The operator table. -/
def row : Operator → Row
  | addition => signRow "+" .textual
  | subtraction => signRow "-" .numeric
  | multiplication => binaryRow "*" 13 .numeric
  | division => binaryRow "/" 13 .numeric
  | modulus => binaryRow "%" 13 .ints
  | leftShift => binaryRow "<<" 11 .ints
  | rightShift => binaryRow ">>" 11 .ints
  | lessThan => comparisonRow "<" 10
  | greaterThan => comparisonRow ">" 10
  | lessOrEqual => comparisonRow "<=" 10
  | greaterOrEqual => comparisonRow ">=" 10
  | equal => comparisonRow "==" 9
  | notEqual => comparisonRow "!=" 9
  | bitwiseAnd => binaryRow "&" 8 .ints
  | bitwiseXor => binaryRow "^" 7 .ints
  | bitwiseOr => binaryRow "|" 6 .ints
  | logicalAnd => binaryRow "&&" 5 (.only .bool)
  | logicalOr => binaryRow "||" 4 (.only .bool)
  | assignment => assignmentRow "=" .all
  | addAssign => assignmentRow "+=" .textual
  | subtractAssign => assignmentRow "-=" .numeric
  | multiplyAssign => assignmentRow "*=" .numeric
  | divideAssign => assignmentRow "/=" .numeric
  | modulusAssign => assignmentRow "%=" .ints
  | bitwiseAndAssign => assignmentRow "&=" .ints
  | bitwiseOrAssign => assignmentRow "|=" .ints
  | bitwiseXorAssign => assignmentRow "^=" .ints
  | leftShiftAssign => assignmentRow "<<=" .ints
  | rightShiftAssign => assignmentRow ">>=" .ints
  | logicalNot => unaryRow "!" (.only .bool)
  | complement => unaryRow "~" .ints
  | increment => stepRow "++"
  | decrement => stepRow "--"
  | castBool => castRow "(bool)" .bool
  | castInt => castRow "(int)" .int
  | castFloat => castRow "(float)" .float
  | castString => castRow "(string)" .string
  | openGroup => punctuationRow "("
  | closeGroup => punctuationRow ")"
  | comma => punctuationRow ","

/-- How the operator is written. -/
def symbol (op : Operator) : String :=
  op.row.symbol

/-- How tightly the operator binds, before its place is known. -/
def precedence (op : Operator) : Nat :=
  op.row.precedence

/-- The forms that the operator can take. -/
def form (op : Operator) : Form :=
  op.row.form

/-- The operand types that the operator accepts. -/
def operands (op : Operator) : TypeSet :=
  op.row.operands

/-- The rule for the type of the operator's result. -/
def result (op : Operator) : ResultRule :=
  op.row.result

/-- How the operator groups, before its place is known. -/
def associativity (op : Operator) : Associativity :=
  op.row.associativity

/-- Parentheses and the comma. -/
def isPunctuation : Operator → Bool
  | openGroup | closeGroup | comma => true
  | _ => false

/-- All operators in the order of the table. -/
def all : List Operator := [
  addition, subtraction, multiplication, division, modulus, leftShift, rightShift, lessThan,
  greaterThan, lessOrEqual, greaterOrEqual, equal, notEqual, bitwiseAnd, bitwiseXor, bitwiseOr,
  logicalAnd, logicalOr, assignment, addAssign, subtractAssign, multiplyAssign, divideAssign,
  modulusAssign, bitwiseAndAssign, bitwiseOrAssign, bitwiseXorAssign, leftShiftAssign,
  rightShiftAssign, logicalNot, complement, increment, decrement, castBool, castInt, castFloat,
  castString, openGroup, closeGroup, comma]

/-- The operator with exactly this symbol. -/
def ofSymbol? (symbol : String) : Option Operator :=
  all.find? (·.symbol == symbol)

/-- The operators whose symbols begin with these characters. -/
def startingWith (cs : List Char) : List Operator :=
  all.filter fun op => cs.isPrefixOf op.symbol.toList

/-- What the operator table has to a text. -/
structure Matches where
  /-- How many symbols begin with the text. -/
  count : Nat
  /-- Whether one of them is the text. -/
  whole : Bool

/-- Counts one more operator whose symbol begins with the characters. -/
def Matches.add (cs : List Char) (found : Matches) (op : Operator) : Matches :=
  ⟨found.count + 1, found.whole || op.symbol == String.ofList cs⟩

/-- The symbols that begin with the characters. -/
def matchesOf (cs : List Char) : Matches :=
  (startingWith cs).foldl (Matches.add cs) ⟨0, false⟩

/-- How many of the characters `seen` and those behind them make up the longest symbol. `best` is the length of the
longest symbol that `seen` begins with. -/
def grow (seen : List Char) (best : Option Nat) : List Char → Option Nat
  | [] => best
  | c :: cs =>
    let text := seen ++ [c]
    let found := matchesOf text
    match found.count, found.whole with
    | 0, _ => best
    | 1, true => some text.length
    | _, true => grow text (some text.length) cs
    | _, false => grow text best cs

/-- The length of the longest symbol at the front of the characters, if there is one. -/
def lengthAtFront? (cs : List Char) : Option Nat :=
  grow [] none cs

theorem mem_all (op : Operator) : op ∈ all := by
  cases op <;> decide

end Operator

end Reckoner
