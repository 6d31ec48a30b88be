import Reckoner.Repl.Token

/-!
Colours for a line of the interactive session. Each piece of the line has one colour, and errors stand out
by their background.
-/
namespace Reckoner.Repl

/-- The colours in use. -/
inductive Colour where
  | cyan
  | green
  | yellow
  | red
  | white
deriving DecidableEq

/-- The name of a colour. -/
def Colour.name : Colour → String
  | cyan => "Cyan"
  | green => "Green"
  | yellow => "Yellow"
  | red => "Red"
  | white => "White"

/-- How a piece is shown. -/
structure Style where
  colour : Colour
  background : Bool
deriving DecidableEq

/-- The style of each token. -/
def Token.style : Token → Style
  | bool | number => ⟨.cyan, false⟩
  | string => ⟨.green, false⟩
  | typeName => ⟨.yellow, false⟩
  | identifier => ⟨.red, false⟩
  | gap | operator | openGroup | closeGroup | comma => ⟨.white, false⟩
  | error => ⟨.white, true⟩

/-- The style of what is no token. -/
def Style.plain : Style :=
  ⟨.white, false⟩

/-- What lies between two places and is no token, as one piece if it is anything. -/
def gap? (line : String) (start stop : Nat) : Option (List (Style × String)) :=
  if start < stop then (Span.text? ⟨start, stop⟩ line).map fun text => [(.plain, text)] else some []

/-- The pieces of the line from the place `done` on: the tokens, and what lies in front of a token or behind the
last. There is no answer if a piece would begin or end inside a character. -/
def paint? (line : String) (done : Nat) : List (Token × Span) → Option (List (Style × String))
  | [] => gap? line done line.utf8ByteSize
  | (token, span) :: rest => do
    let skipped ← gap? line done span.start
    let text ← span.text? line
    let later ← paint? line span.stop rest
    return skipped ++ (token.style, text) :: later

/-- The pieces of a line, each with its style. -/
def highlight (line : String) : List (Style × String) :=
  (paint? line 0 (Token.spanned line)).getD []

end Reckoner.Repl
