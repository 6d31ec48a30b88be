/-!
Identifiers: an ASCII letter or an underscore, followed by letters, digits and underscores.
-/
namespace Reckoner.Identifier

/-- Characters that can begin an identifier. -/
def isStart (c : Char) : Bool :=
  c.isAlpha || c == '_'

/-- Characters that can follow in an identifier. -/
def isContinue (c : Char) : Bool :=
  c.isAlphanum || c == '_'

/-- Whether the characters are an identifier as a whole. -/
def matchesAll : List Char → Bool
  | [] => false
  | c :: cs => isStart c && cs.all isContinue

/-- Whether the text is an identifier as a whole. -/
def isIdentifier (name : String) : Bool :=
  matchesAll name.toList

/-- Every character that can begin an identifier can also follow. -/
theorem isContinue_of_isStart {c : Char} (h : isStart c = true) : isContinue c = true := by
  simp only [isStart, isContinue, Char.isAlphanum, Bool.or_eq_true] at h ⊢
  rcases h with h | h
  · exact .inl (.inl h)
  · exact .inr h

end Reckoner.Identifier
