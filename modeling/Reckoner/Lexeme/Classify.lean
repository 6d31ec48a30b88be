import Reckoner.CompileError
import Reckoner.Lexeme
import Reckoner.Registry

/-!
Lexemes with every name looked up and every operator given its form. Parentheses are checked first.
A name directly before an opening parenthesis is a function and any other a variable. A step operator
belongs to the variable after it, or else to the one before it, and a sign that follows nothing with
a value is a unary operator.
-/
namespace Reckoner.Lexeme

/-- Goes through the parentheses with the number of those open and the first one that was opened. -/
def checkBracketsFrom (depth : Nat) (firstOpen : Option Span) :
    List Lexeme → Except CompileError Unit
  | [] =>
    if depth = 0 then .ok ()
    else .error (CompileError.Cause.bracketBalance.atSpan (firstOpen.getD default))
  | lexeme :: rest =>
    if lexeme.opensGroup then checkBracketsFrom (depth + 1) (firstOpen <|> some lexeme.span) rest
    else if lexeme.closesGroup then
      match depth with
      | 0 => .error (CompileError.Cause.bracketOrder.atSpan lexeme.span)
      | depth + 1 => checkBracketsFrom depth firstOpen rest
    else checkBracketsFrom depth firstOpen rest

/-- Checks that every closing parenthesis has one to close and that none stays open. -/
def checkBrackets (lexemes : List Lexeme) : Except CompileError Unit :=
  checkBracketsFrom 0 none lexemes

/-- What a name stands for, given whether it is directly followed by an opening parenthesis. -/
def resolve (registry : Registry) (lexeme : Lexeme) (beforeGroup : Bool) :
    Except CompileError Kind :=
  let name := lexeme.text
  match Operator.ofSymbol? name with
  | some op => .ok (.operator (.ofOperator op))
  | none =>
    if beforeGroup then
      if (registry.function? name).isSome then .ok .function
      else if Identifier.isIdentifier name then
        .error (CompileError.Cause.atSpan (.unknownFunction name) lexeme.span)
      else .error (CompileError.Cause.atSpan (.unexpectedToken name) lexeme.span)
    else
      match registry.cellOf? name with
      | some cell => .ok (.variable cell)
      | none =>
        if Identifier.isIdentifier name then
          .error (CompileError.Cause.atSpan (.unknownVariable name) lexeme.span)
        else .error (CompileError.Cause.atSpan (.unexpectedToken name) lexeme.span)

/-- Looks every name up, from left to right. -/
def resolveNames (registry : Registry) : List Lexeme → Except CompileError (List Lexeme)
  | [] => .ok []
  | lexeme :: rest =>
    match lexeme.kind with
    | .unresolved =>
      match resolve registry lexeme (rest.head?.any opensGroup) with
      | .error error => .error error
      | .ok kind =>
        match resolveNames registry rest with
        | .ok resolved => .ok ({ lexeme with kind := kind } :: resolved)
        | .error error => .error error
    | _ =>
      match resolveNames registry rest with
      | .ok resolved => .ok (lexeme :: resolved)
      | .error error => .error error

/-- Gives each step operator its side, going on after the lexeme `previous`. -/
def resolveSides (previous : Option Lexeme) : List Lexeme → Except CompileError (List Lexeme)
  | [] => .ok []
  | lexeme :: rest =>
    let sided : Except CompileError Lexeme :=
      match lexeme.kind with
      | .operator occurrence =>
        if !occurrence.form.needsSide then .ok lexeme
        else if rest.head?.any isLvalue then
          .ok { lexeme with kind := .operator (occurrence.asUnary ⟨false, true, false, true⟩) }
        else if previous.any isLvalue then
          .ok { lexeme with kind := .operator (occurrence.asUnary ⟨false, false, true, true⟩) }
        else .error (CompileError.Cause.atSpan (.noLvalue lexeme.text) lexeme.span)
      | _ => .ok lexeme
    match sided with
    | .error error => .error error
    | .ok lexeme =>
      match resolveSides (some lexeme) rest with
      | .ok resolved => .ok (lexeme :: resolved)
      | .error error => .error error

/-- Whether an operand can end with this lexeme, so that an operator after it is binary. -/
def endsOperand (lexeme : Lexeme) : Bool :=
  match lexeme.occurrence? with
  | none => true
  | some occurrence => occurrence.operator == .closeGroup || occurrence.form.trailing

/-- Makes the signs without an operand before them unary, going on after the lexeme `previous`. -/
def resolveSigns (previous : Option Lexeme) : List Lexeme → List Lexeme
  | [] => []
  | lexeme :: rest =>
    let signed : Lexeme :=
      match lexeme.kind with
      | .operator occurrence =>
        if occurrence.form.isIndefinite && !previous.any endsOperand then
          let form := { occurrence.form with binary := false }
          { lexeme with kind := .operator (occurrence.asUnary form) }
        else lexeme
      | _ => lexeme
    signed :: resolveSigns (some signed) rest

/-- Looks up the names and settles the forms of the operators. -/
def classify (registry : Registry) (lexemes : List Lexeme) : Except CompileError (List Lexeme) := do
  checkBrackets lexemes
  let resolved ← resolveNames registry lexemes
  let sided ← resolveSides none resolved
  return resolveSigns none sided

end Reckoner.Lexeme
