import Reckoner.Identifier
import Reckoner.Span

/-!
A line of the interactive session, cut into pieces for colouring and for counting parentheses. The pieces
make up the whole line. Unlike the lexemes of an expression they do not depend on the operator table: any
run of operator characters is one piece. An unclosed text reaches to the end of the line and is an error,
as is any character that belongs to nothing else.
-/
namespace Reckoner.Repl

/-- What a piece of a line is. -/
inductive Token where
  | gap
  | openGroup
  | closeGroup
  | comma
  | typeName
  | bool
  | number
  | string
  | identifier
  | operator
  | error
deriving DecidableEq

/-- A piece of a line. -/
structure Piece where
  token : Token
  text : List Char

namespace Token

/-- The characters between pieces. -/
def isGap (c : Char) : Bool :=
  c == ' ' || c == '\t' || c == '\r' || c == '\n' || c == '\x0c'

/-- The characters of operators. -/
def isOperatorChar (c : Char) : Bool :=
  "-+*/%<>=!&|^~".toList.contains c

/-- What a word is. -/
def ofWord (word : List Char) : Token :=
  let word := String.ofList word
  if word == "true" || word == "false" then bool
  else if word == "bool" || word == "int" || word == "float" || word == "string" then typeName
  else identifier

/-- How many characters a power of ten at the front takes; none if no digit follows its mark. -/
def powerLength : List Char → Nat
  | c :: cs =>
    if c == 'e' || c == 'E' then
      let sign := match cs with
        | '+' :: _ | '-' :: _ => 1
        | _ => 0
      let digits := ((cs.drop sign).takeWhile Char.isDigit).length
      if digits = 0 then 0 else 1 + sign + digits
    else 0
  | [] => 0

/-- How many characters a number at the front takes. -/
def numberLength (cs : List Char) : Nat :=
  let whole := (cs.takeWhile Char.isDigit).length
  let fraction := match cs.drop whole with
    | '.' :: after => 1 + (after.takeWhile Char.isDigit).length
    | _ => 0
  whole + fraction + powerLength (cs.drop (whole + fraction))

/-- The piece that begins with `c` and goes on in `cs`: what it is, and how many characters of it
follow the first. -/
def atFront (c : Char) (cs : List Char) : Token × Nat :=
  if isGap c then (gap, (cs.takeWhile isGap).length)
  else if c == '(' then (openGroup, 0)
  else if c == ')' then (closeGroup, 0)
  else if c == ',' then (comma, 0)
  else if c.isDigit then (number, numberLength (c :: cs) - 1)
  else if c == '"' then
    let body := (cs.takeWhile (· != '"')).length
    if body < cs.length then (string, body + 1) else (error, body)
  else if Identifier.isStart c then
    let tail := cs.takeWhile Identifier.isContinue
    (ofWord (c :: tail), tail.length)
  else if isOperatorChar c then (operator, (cs.takeWhile isOperatorChar).length)
  else (error, 0)

/-- The pieces of a line. -/
def pieces : List Char → List Piece
  | [] => []
  | c :: cs =>
    let (token, more) := atFront c cs
    ⟨token, c :: cs.take more⟩ :: pieces (cs.drop more)
termination_by cs => cs.length
decreasing_by simp only [List.length_cons, List.length_drop]; omega

/-- The pieces with their places. -/
def withSpans (offset : Nat) : List Piece → List (Piece × Span)
  | [] => []
  | piece :: rest =>
    let stop := offset + Span.bytes piece.text
    (piece, ⟨offset, stop⟩) :: withSpans stop rest

/-- The tokens of a line with their places, without the gaps. -/
def spanned (line : String) : List (Token × Span) :=
  (withSpans 0 (pieces line.toList)).filterMap fun (piece, span) =>
    if piece.token = gap then none else some (piece.token, span)

end Token

/-- The tokens of a line, without the gaps. -/
def tokensOf (line : String) : List Token :=
  (Token.spanned line).map (·.1)

/-- How many parentheses are open behind some tokens, not counting those that close nothing in all. There is no answer
if one of them is an error. -/
def depthOf? (tokens : List Token) : Option Nat :=
  if tokens.contains .error then none else some (tokens.count .openGroup - tokens.count .closeGroup)

/-- Whether a text with these tokens can be evaluated as it is. An open parenthesis or an unclosed text asks for
more. -/
def completes (tokens : List Token) (text : String) : Bool :=
  match depthOf? tokens with
  | some depth => depth = 0
  | none => text.toList.count '"' % 2 = 0

/-- How many parentheses are open at the end of a text. -/
def depth? (text : String) : Option Nat :=
  depthOf? (tokensOf text)

/-- Whether a text can be evaluated as it is. -/
def isComplete (text : String) : Bool :=
  completes (tokensOf text) text

end Reckoner.Repl
