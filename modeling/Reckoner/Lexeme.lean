import Reckoner.Host.Heap
import Reckoner.Operator
import Reckoner.Span

/-!
Lexemes, the smallest meaningful pieces of an expression. Each knows its text, its place in the
source and its rank among the lexemes. Names start out unresolved; operators carry the form,
precedence and associativity that their place gives them.
-/
namespace Reckoner

/-- An operator at a place. What the table allows is narrowed once its neighbours are known. -/
structure Occurrence where
  operator : Operator
  form : Form
  precedence : Nat
  associativity : Associativity
deriving DecidableEq, Inhabited

namespace Occurrence

/-- The operator as its table has it. -/
def ofOperator (op : Operator) : Occurrence :=
  ⟨op, op.form, op.precedence, op.associativity⟩

/-- The operator as a unary one of the given form. -/
def asUnary (occurrence : Occurrence) (form : Form) : Occurrence :=
  ⟨occurrence.operator, form, Operator.unaryPrecedence, .right⟩

end Occurrence

/-- What a lexeme stands for. -/
inductive Lexeme.Kind where
  /-- A name that has not been looked up. -/
  | unresolved
  | operator (occurrence : Occurrence)
  /-- The name of a function that is called. -/
  | function
  | constant (value : Value)
  | variable (cell : Cell)

/-- A piece of an expression. -/
structure Lexeme where
  text : String
  span : Span
  /-- The rank among the lexemes of the source. -/
  position : Nat
  kind : Lexeme.Kind

namespace Lexeme

/-- The operator, punctuation included, that the lexeme is. -/
def occurrence? (lexeme : Lexeme) : Option Occurrence :=
  match lexeme.kind with
  | .operator occurrence => some occurrence
  | _ => none

/-- Whether the lexeme is this operator. -/
def isOperatorOf (lexeme : Lexeme) (op : Operator) : Bool :=
  lexeme.occurrence?.any (·.operator == op)

/-- An opening parenthesis. -/
def opensGroup (lexeme : Lexeme) : Bool :=
  lexeme.isOperatorOf .openGroup

/-- A closing parenthesis. -/
def closesGroup (lexeme : Lexeme) : Bool :=
  lexeme.isOperatorOf .closeGroup

/-- A comma. -/
def isComma (lexeme : Lexeme) : Bool :=
  lexeme.isOperatorOf .comma

/-- An operator that is no punctuation. -/
def isOperator (lexeme : Lexeme) : Bool :=
  lexeme.occurrence?.any (!·.operator.isPunctuation)

/-- A constant or a variable, which has a value by itself. -/
def isEvaluable (lexeme : Lexeme) : Bool :=
  match lexeme.kind with
  | .constant _ | .variable _ => true
  | _ => false

/-- A variable, which can be assigned to. -/
def isLvalue (lexeme : Lexeme) : Bool :=
  match lexeme.kind with
  | .variable _ => true
  | _ => false

end Lexeme

end Reckoner
