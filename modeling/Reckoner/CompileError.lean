import Reckoner.Span
import Reckoner.Value

/-!
The ways in which a text can fail to be an expression: what was wrong, where, and which other places
belong to it. Every cause has a code that never changes, a message, and for some a word of help.
-/
namespace Reckoner

/-- What is wrong with a text. -/
inductive CompileError.Cause where
  | bracketOrder
  | bracketBalance
  | unexpectedCharacter (c : Char)
  | unterminatedString
  | literalOutOfRange (text : String)
  | invalidLiteral (text : String)
  | unknownFunction (name : String)
  | unknownVariable (name : String)
  | noLvalue (symbol : String)
  | unexpectedToken (text : String)
  | unexpectedComma
  | emptyExpression
  | emptyArgument (name : String)
  | missingOperand (symbol : String)
  | unresolvedOperator (symbol : String)
  | unsupportedOperandType (symbol : String) (type : ValueType)
  | operandTypeMismatch (symbol : String) (left right : ValueType)
  | notAnLvalue (symbol : String)
  | operandCount (symbol : String) (expected found : Nat)
  | arityMismatch (name : String) (expected found : Nat)
  | argumentType (name : String) (index : Nat) (expected found : ValueType)
  | unresolvedReference
  | danglingNodes (count : Nat)
  | passLimitExceeded (limit : Nat)
deriving DecidableEq

/-- What is wrong with a text, and where. -/
structure CompileError where
  cause : CompileError.Cause
  span : Span
  /-- Other places that matter, with a note for each. -/
  related : List (Span × String)
deriving DecidableEq

namespace CompileError

namespace Cause

/-- The code of the cause. -/
def code : Cause → String
  | bracketOrder => "E0001"
  | bracketBalance => "E0002"
  | unexpectedCharacter _ => "E0003"
  | unterminatedString => "E0004"
  | literalOutOfRange _ => "E0005"
  | invalidLiteral _ => "E0006"
  | unknownFunction _ => "E0007"
  | unknownVariable _ => "E0008"
  | noLvalue _ => "E0009"
  | unexpectedToken _ => "E0010"
  | unexpectedComma => "E0011"
  | emptyExpression => "E0012"
  | emptyArgument _ => "E0013"
  | missingOperand _ => "E0014"
  | unresolvedOperator _ => "E0015"
  | unsupportedOperandType .. => "E0016"
  | operandTypeMismatch .. => "E0017"
  | notAnLvalue _ => "E0018"
  | operandCount .. => "E0019"
  | arityMismatch .. => "E0020"
  | argumentType .. => "E0021"
  | unresolvedReference => "E0022"
  | danglingNodes _ => "E0023"
  | passLimitExceeded _ => "E0024"

/-- The message of the cause. -/
def message : Cause → String
  | bracketOrder => "wrong bracket order"
  | bracketBalance => "bracket balance is broken"
  | unexpectedCharacter c => s!"unexpected character '{c}'"
  | unterminatedString => "unterminated string literal"
  | literalOutOfRange text => s!"integer literal '{text}' does not fit in 64 bits"
  | invalidLiteral text => s!"invalid numeric literal '{text}'"
  | unknownFunction name => s!"unknown function {name}"
  | unknownVariable name => s!"unknown variable {name}"
  | noLvalue symbol => s!"no suitable lvalue for operator {symbol}"
  | unexpectedToken text => s!"unexpected '{text}'"
  | unexpectedComma => "unexpected ',' outside of a function call"
  | emptyExpression => "empty expression"
  | emptyArgument name => s!"empty argument in call to {name}"
  | missingOperand symbol => s!"missing operand for operator {symbol}"
  | unresolvedOperator symbol => s!"cannot resolve operator {symbol}"
  | unsupportedOperandType symbol type =>
    s!"operator {symbol} does not accept {type.name} operands"
  | operandTypeMismatch symbol left right =>
    s!"operator {symbol} needs operands of the same type, found {left.name} and {right.name}"
  | notAnLvalue symbol => s!"operator {symbol} can only be applied to a variable"
  | operandCount symbol expected found =>
    s!"operator {symbol} expects {expected} operand(s), found {found}"
  | arityMismatch name expected found =>
    s!"function {name} expects {expected} argument(s), found {found}"
  | argumentType name index expected found =>
    s!"argument {index} of {name} must be {expected.name}, found {found.name}"
  | unresolvedReference => "internal error: unresolved reference while linking the tree"
  | danglingNodes count => s!"internal error: {count} node(s) left unlinked"
  | passLimitExceeded limit => s!"expression did not reduce within {limit} worklist passes"

/-- What to do about the cause, where something can be said. -/
def help : Cause → List String
  | bracketOrder | bracketBalance => ["every '(' needs a matching ')' after it"]
  | unknownFunction _ | unknownVariable _ =>
    ["names must be registered with the engine before compiling"]
  | noLvalue symbol => [s!"{symbol} must be placed directly before or after a variable"]
  | unexpectedComma => ["commas only separate function arguments"]
  | operandTypeMismatch .. =>
    ["use a cast such as (int), (float), (bool) or (string) to convert one side"]
  | passLimitExceeded _ => ["raise `max_worklist_passes` in the compile options"]
  | _ => []

/-- Causes that can only come from a fault in the tree builder itself. -/
def isInternal : Cause → Bool
  | unresolvedReference | danglingNodes _ => true
  | _ => false

/-- The error of this cause at a place. -/
def atSpan (cause : Cause) (span : Span) : CompileError :=
  ⟨cause, span, []⟩

end Cause

/-- The error with one more related place. -/
def withRelated (error : CompileError) (span : Span) (note : String) : CompileError :=
  { error with related := error.related ++ [(span, note)] }

end CompileError

end Reckoner
