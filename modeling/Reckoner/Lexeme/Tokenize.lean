import Reckoner.CompileError
import Reckoner.Decimal.Reading
import Reckoner.Identifier
import Reckoner.Lexeme
import Reckoner.Numeral

/-!
Lexemes of a source text. At each place that is no gap stands the longest operator symbol, or else an
identifier, a text between double quotes or the longest numeral. A NUL character ends the source.
-/
namespace Reckoner.Lexeme

/-- The characters that may separate lexemes. -/
def isGap (c : Char) : Bool :=
  c == ' ' || c == '\t' || c == '\r' || c == '\n'

/-- What cannot be read, and how many characters of the source it takes up. -/
structure Fault where
  cause : CompileError.Cause
  length : Nat

/-- The kind of a lexeme, and how many of its characters follow the first. -/
structure Front where
  kind : Kind
  more : Nat

/-- The operator whose symbol the text is. -/
def operatorAtFront (text : List Char) : Except Fault Front :=
  match Operator.ofSymbol? (String.ofList text) with
  | some op => .ok ⟨.operator (.ofOperator op), text.length - 1⟩
  | none => .error ⟨.unexpectedToken (String.ofList text), text.length⟩

/-- The kind of an identifier; the words for the truth values are constants. -/
def wordKind (name : String) : Kind :=
  if name == "true" then .constant (.bool true)
  else if name == "false" then .constant (.bool false)
  else .unresolved

/-- An identifier. -/
def identifierAtFront (c : Char) (cs : List Char) : Front :=
  let tail := cs.takeWhile Identifier.isContinue
  ⟨wordKind (String.ofList (c :: tail)), tail.length⟩

/-- A text up to the next double quote, given what follows the opening one. -/
def stringAtFront (cs : List Char) : Except Fault Front :=
  let body := cs.takeWhile (· != '"')
  if body.length < cs.length then
    .ok ⟨.constant (.string (String.ofList body)), body.length + 1⟩
  else .error ⟨.unterminatedString, cs.length + 1⟩

/-- The value of a numeral: an integer if it is digits only. -/
def numeralValue (numeral : List Char) : Except CompileError.Cause Value :=
  if Numeral.isInteger numeral then
    match Decimal.readInt64? numeral with
    | some i => .ok (.int i)
    | none => .error (.literalOutOfRange (String.ofList numeral))
  else
    match Decimal.readFloat? numeral with
    | some x => .ok (.float x)
    | none => .error (.invalidLiteral (String.ofList numeral))

/-- The longest numeral at the front. -/
def numeralAtFront (cs : List Char) : Except Fault Front :=
  let length := Numeral.lengthAtFront cs
  match numeralValue (cs.take length) with
  | .ok value => .ok ⟨.constant value, length - 1⟩
  | .error cause => .error ⟨cause, length⟩

/-- The lexeme that begins with `c` and goes on in `cs`. -/
def front (c : Char) (cs : List Char) : Except Fault Front :=
  match Operator.lengthAtFront? (c :: cs) with
  | some length => operatorAtFront ((c :: cs).take length)
  | none =>
    if Identifier.isStart c then .ok (identifierAtFront c cs)
    else if c == '"' then stringAtFront cs
    else if c.isDigit then numeralAtFront (c :: cs)
    else .error ⟨.unexpectedCharacter c, 1⟩

/-- The lexemes of characters that begin at a byte of the source, ranked from `position` on. -/
def scan (offset position : Nat) : List Char → Except CompileError (List Lexeme)
  | [] => .ok []
  | c :: cs =>
    if isGap c then scan (offset + c.utf8Size) position cs
    else
      match front c cs with
      | .error fault =>
        let stop := offset + Span.bytes ((c :: cs).take fault.length)
        .error (fault.cause.atSpan ⟨offset, stop⟩)
      | .ok found =>
        let text := c :: cs.take found.more
        let stop := offset + Span.bytes text
        let lexeme : Lexeme := ⟨String.ofList text, ⟨offset, stop⟩, position, found.kind⟩
        match scan stop (position + 1) (cs.drop found.more) with
        | .ok rest => .ok (lexeme :: rest)
        | .error error => .error error
termination_by cs => cs.length
decreasing_by all_goals simp only [List.length_cons, List.length_drop]; omega

/-- The characters of a source up to the first NUL. -/
def sourceChars (source : String) : List Char :=
  source.toList.takeWhile (· != '\x00')

/-- The lexemes of a source. -/
def tokenize (source : String) : Except CompileError (List Lexeme) :=
  scan 0 0 (sourceChars source)

end Reckoner.Lexeme
