import Reckoner.CompileError
import Reckoner.Lexeme

/-!
The lists that an expression is taken apart into while its tree is built. A list starts out as a run
of lexemes. A part of it that becomes a list of its own leaves an item behind that refers to the new
list: a group, or a call with one list for each argument.
-/
namespace Reckoner

/-- The number of a list. There is at most one list more than there are lexemes, so a number fits into 32 bits if there
are fewer than 2^32 lexemes. -/
abbrev ListId :=
  Nat

/-- A member of a list. -/
inductive Item where
  | lexeme (lexeme : Lexeme)
  /-- Stands for a list, with the text and the place of what the list was made from. -/
  | group (list : ListId) (text : String) (span : Span) (position : Nat)
  /-- A function name with the lists of its arguments. -/
  | call (name : String) (arguments : List ListId) (span : Span) (position : Nat)

namespace Item

/-- The text of the item, for messages. -/
def text : Item → String
  | lexeme l => l.text
  | group _ text _ _ => text
  | call name _ _ _ => name

/-- The place of the item. -/
def span : Item → Span
  | lexeme l => l.span
  | group _ _ span _ => span
  | call _ _ span _ => span

/-- The rank of the lexeme that the item was made from. -/
def position : Item → Nat
  | lexeme l => l.position
  | group _ _ _ position => position
  | call _ _ _ position => position

/-- The operator, punctuation included, that the item is. -/
def occurrence? : Item → Option Occurrence
  | lexeme l => l.occurrence?
  | _ => none

/-- An opening parenthesis. -/
def opensGroup : Item → Bool
  | lexeme l => l.opensGroup
  | _ => false

/-- A closing parenthesis. -/
def closesGroup : Item → Bool
  | lexeme l => l.closesGroup
  | _ => false

/-- A comma. -/
def isComma : Item → Bool
  | lexeme l => l.isComma
  | _ => false

/-- The name of a function that is called. -/
def isFunction : Item → Bool
  | lexeme l => match l.kind with
    | .function => true
    | _ => false
  | _ => false

/-- An operator that is no punctuation. -/
def isOperator : Item → Bool
  | lexeme l => l.isOperator
  | _ => false

/-- Something that has a value, now or once its lists are finished. -/
def isEvaluable : Item → Bool
  | lexeme l => l.isEvaluable
  | _ => true

/-- The lists that have to be finished before the item can become a node. -/
def lists : Item → List ListId
  | lexeme _ => []
  | group list _ _ _ => [list]
  | call _ arguments _ _ => arguments

/-- The error for an item that has no business where it stands. -/
def unexpected (item : Item) : CompileError :=
  CompileError.Cause.atSpan (.unexpectedToken item.text) item.span

/-- The place of a run of items from the first to the last. -/
def spanOf (items : List Item) : Span :=
  match items.head?, items.getLast? with
  | some first, some last => first.span.cover last.span
  | _, _ => default

/-- The form in which an operator takes the items beside it: with both if it can, or else with the one
after it, or else with the one before it. -/
def fixity? (occurrence : Occurrence) (items : List Item) (index : Nat) : Option Fixity :=
  let before := 0 < index && (items[index - 1]?).any isEvaluable
  let after := (items[index + 1]?).any isEvaluable
  if occurrence.form.binary && before && after then some .binary
  else if occurrence.form.leading && after then some .leading
  else if occurrence.form.trailing && before then some .trailing
  else none

/-- The first and the last index of an operator with its operands. -/
def operandRange (index : Nat) : Fixity → Nat × Nat
  | .binary => (index - 1, index + 1)
  | .leading => (index, index + 1)
  | .trailing => (index - 1, index)

/-- Splits off the items up to the closing parenthesis that matches one already read, with its place.
`depth` counts the parentheses opened since. -/
def takeGroup? : Nat → List Item → Option (List Item × Span × List Item)
  | _, [] => none
  | depth, item :: rest =>
    if item.opensGroup then
      (takeGroup? (depth + 1) rest).map fun (inner, close, after) => (item :: inner, close, after)
    else if item.closesGroup then
      match depth with
      | 0 => some ([], item.span, rest)
      | depth + 1 =>
        (takeGroup? depth rest).map fun (inner, close, after) => (item :: inner, close, after)
    else
      (takeGroup? depth rest).map fun (inner, close, after) => (item :: inner, close, after)

/-- What follows a group is shorter than what began with it. -/
theorem length_of_takeGroup? {depth : Nat} {items inner after : List Item} {close : Span}
    (h : takeGroup? depth items = some (inner, close, after)) : after.length < items.length := by
  fun_induction takeGroup? depth items generalizing inner after close with
  | case1 => simp at h
  | case2 depth item rest _ ih =>
    simp only [Option.map_eq_some_iff, Prod.exists] at h
    obtain ⟨i, c, a, found, same⟩ := h
    cases same
    have := ih found
    simp only [List.length_cons]
    omega
  | case3 item rest =>
    cases h
    simp
  | case4 item rest _ _ depth ih =>
    simp only [Option.map_eq_some_iff, Prod.exists] at h
    obtain ⟨i, c, a, found, same⟩ := h
    cases same
    have := ih found
    simp only [List.length_cons]
    omega
  | case5 depth item rest _ _ ih =>
    simp only [Option.map_eq_some_iff, Prod.exists] at h
    obtain ⟨i, c, a, found, same⟩ := h
    cases same
    have := ih found
    simp only [List.length_cons]
    omega

end Item

end Reckoner
