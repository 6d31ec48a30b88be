/-!
Numerals in expressions: digits, then a point with digits after it if there are any, then a power of ten, all but
the first optional; a power cannot follow the bare point. A text is grown character by character for as long as it
can still become a numeral, and the longest of the texts on the way that was one is taken.
-/
namespace Reckoner.Numeral

/-- The signs of numerals and of powers of ten. -/
def isSign (c : Char) : Bool :=
  c == '+' || c == '-'

/-- The letters in front of powers of ten. -/
def isMark (c : Char) : Bool :=
  c == 'e' || c == 'E'

/-- What is remembered of the characters read so far. -/
structure Trace where
  /-- Whether a point is among them. -/
  point : Bool
  /-- Whether the letter of a power of ten is among them. -/
  mark : Bool
  /-- The last of them. -/
  last? : Option Char

namespace Trace

/-- Nothing has been read. -/
def start : Trace :=
  ⟨false, false, none⟩

/-- Whether one more character can follow: a point or the letter of a power only behind a digit, and only once, a
sign only at the beginning or behind the letter. -/
def admits (trace : Trace) (c : Char) : Bool :=
  if c.isDigit then true
  else if isSign c then trace.last?.all isMark
  else if c == '.' then trace.last?.any Char.isDigit && !trace.point && !trace.mark
  else if isMark c then trace.last?.any Char.isDigit && !trace.mark
  else false

/-- One more character, if it can follow. -/
def step? (trace : Trace) (c : Char) : Option Trace :=
  if trace.admits c then some ⟨trace.point || c == '.', trace.mark || isMark c, some c⟩ else none

end Trace

/-- Whether more characters could make a numeral of these. -/
def isBeginning (cs : List Char) : Bool :=
  (cs.foldlM Trace.step? .start).isSome

/-- The characters without a sign in front of them. -/
def unsigned : List Char → List Char
  | [] => []
  | c :: cs => if isSign c then cs else c :: cs

/-- An optional sign and one or more digits. -/
def isInteger (cs : List Char) : Bool :=
  !(unsigned cs).isEmpty && (unsigned cs).all Char.isDigit

/-- A numeral, with an optional sign before it: it ends with a digit or a point and has a digit in front of its
power of ten. -/
def isNumeral (cs : List Char) : Bool :=
  isBeginning cs && (unsigned cs).getLast?.any (fun c => c.isDigit || c == '.') &&
    ((unsigned cs).takeWhile (!isMark ·)).any Char.isDigit

/-- How many of the characters `seen` and those behind them make up the longest numeral. `best` is the length of the
longest numeral that `seen` begins with. -/
def grow (seen : List Char) (best : Option Nat) : List Char → Option Nat
  | [] => best
  | c :: cs =>
    let text := seen ++ [c]
    if isBeginning text then grow text (if isInteger text || isNumeral text then some text.length else best) cs
    else best

/-- The length of the longest numeral at the front of the characters. -/
def lengthAtFront (cs : List Char) : Nat :=
  (grow [] none cs).getD 0

end Reckoner.Numeral
