import Reckoner.Lexeme
import Reckoner.Proofs.Rose
import Reckoner.Proofs.Separated
import Reckoner.Tree

/-!
The grammar of expressions over classified lexemes, and how the operators of an expression group. Any
operators may stand next to each other as long as their forms let them; which operands they take is
then up to their precedence, and is said by a recursive parser.
-/
namespace Reckoner

/-- What a node stands for, and for a leaf also what is in it and where it stands. -/
structure Label where
  kind : Node.Kind
  leaf : Option (Slot × Span)

/-- A tree as it can be read off an expression. -/
abbrev Term :=
  Rose Label

namespace Term

def constant (value : Value) (span : Span) : Term :=
  .node ⟨.constant, some (.owned value, span)⟩ []

def cell (name : String) (cell : Cell) (span : Span) : Term :=
  .node ⟨.variable name, some (.aliased cell, span)⟩ []

def operation (op : Operator) (fixity : Fixity) (operands : List Term) : Term :=
  .node ⟨.operator op fixity, none⟩ operands

def call (name : String) (arguments : List Term) : Term :=
  .node ⟨.call name, none⟩ arguments

end Term

/-- A classified lexeme as the grammar sees it. -/
inductive Token where
  | operand (term : Term)
  | operator (occurrence : Occurrence)
  | function (name : String)
  | opening
  | closing
  | comma
  /-- What has no place in an expression. -/
  | unknown

def Lexeme.token (lexeme : Lexeme) : Token :=
  match lexeme.kind with
  | .unresolved => .unknown
  | .constant value => .operand (.constant value lexeme.span)
  | .variable cell => .operand (.cell lexeme.text cell lexeme.span)
  | .function => .function lexeme.text
  | .operator occurrence =>
    match occurrence.operator with
    | .openGroup => .opening
    | .closeGroup => .closing
    | .comma => .comma
    | _ => .operator occurrence

/-- The sequences that are expressions, whatever the precedence of their operators. -/
inductive IsExpression : List Token → Prop where
  | operand (term : Term) : IsExpression [.operand term]
  | group {inner : List Token} : IsExpression inner →
      IsExpression (.opening :: (inner ++ [.closing]))
  | callWithout (name : String) : IsExpression [.function name, .opening, .closing]
  | call (name : String) {arguments : List (List Token)} {inner : List Token} :
      Separated (· = .comma) arguments inner → (∀ argument ∈ arguments, IsExpression argument) →
      IsExpression (.function name :: .opening :: (inner ++ [.closing]))
  | leading {occurrence : Occurrence} {operand : List Token} : occurrence.form.leading = true →
      IsExpression operand → IsExpression (.operator occurrence :: operand)
  | trailing {occurrence : Occurrence} {operand : List Token} : occurrence.form.trailing = true →
      IsExpression operand → IsExpression (operand ++ [.operator occurrence])
  | binary {occurrence : Occurrence} {left right : List Token} : occurrence.form.binary = true →
      IsExpression left → IsExpression right →
      IsExpression (left ++ .operator occurrence :: right)

/-- The least precedence of the operators that belong to the right operand of a binary one. -/
def Occurrence.rightLevel (occurrence : Occurrence) : Nat :=
  match occurrence.associativity with
  | .left => occurrence.precedence + 1
  | .right => occurrence.precedence

theorem Occurrence.precedence_le_rightLevel (occurrence : Occurrence) :
    occurrence.precedence ≤ occurrence.rightLevel := by
  unfold rightLevel
  split <;> omega

theorem Occurrence.rightLevel_le_succ (occurrence : Occurrence) :
    occurrence.rightLevel ≤ occurrence.precedence + 1 := by
  unfold rightLevel
  split <;> omega

namespace Grammar

mutual

/-- Reads an operand and the operators after it that bind at least as tightly as `least`, and returns
what follows. No part needs more levels of recursion than twice the number of its tokens and two. -/
def expression : Nat → Nat → List Token → Option (Term × List Token)
  | 0, _, _ => none
  | depth + 1, least, tokens =>
    match primary depth tokens with
    | some (left, rest) => operations depth least left rest
    | none => none

/-- Reads a leaf, a group, a call, or a leading operator with its operand. -/
def primary : Nat → List Token → Option (Term × List Token)
  | _ + 1, .operand term :: rest => some (term, rest)
  | depth + 1, .operator occurrence :: rest =>
    if occurrence.form.leading then
      match expression depth occurrence.precedence rest with
      | some (operand, rest) => some (.operation occurrence.operator .leading [operand], rest)
      | none => none
    else none
  | depth + 1, .opening :: rest =>
    match expression depth 0 rest with
    | some (inner, .closing :: rest) => some (inner, rest)
    | _ => none
  | _ + 1, .function name :: .opening :: .closing :: rest => some (.call name [], rest)
  | depth + 1, .function name :: .opening :: rest =>
    match arguments depth rest with
    | some (terms, rest) => some (.call name terms, rest)
    | none => none
  | _, _ => none

/-- Applies the trailing and binary operators that follow an operand. -/
def operations : Nat → Nat → Term → List Token → Option (Term × List Token)
  | 0, _, _, _ => none
  | depth + 1, least, left, .operator occurrence :: rest =>
    if occurrence.precedence < least then some (left, .operator occurrence :: rest)
    else if occurrence.form.trailing then
      operations depth least (.operation occurrence.operator .trailing [left]) rest
    else if occurrence.form.binary then
      match expression depth occurrence.rightLevel rest with
      | some (right, rest) =>
        operations depth least (.operation occurrence.operator .binary [left, right]) rest
      | none => none
    else some (left, .operator occurrence :: rest)
  | _ + 1, _, left, rest => some (left, rest)

/-- Reads at least one argument and those after it up to the closing parenthesis. -/
def arguments : Nat → List Token → Option (List Term × List Token)
  | 0, _ => none
  | depth + 1, tokens =>
    match expression depth 0 tokens with
    | some (term, .closing :: rest) => some ([term], rest)
    | some (term, .comma :: rest) =>
      match arguments depth rest with
      | some (terms, rest) => some (term :: terms, rest)
      | none => none
    | _ => none

end

/-- The tree of a sequence that is one expression as a whole. -/
def parse? (tokens : List Token) : Option Term :=
  match expression (2 * tokens.length + 2) 0 tokens with
  | some (term, []) => some term
  | _ => none

end Grammar

end Reckoner
