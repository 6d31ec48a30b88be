import Reckoner.Proofs.Lexeme.Symbol

/-!
What is looked for at the front of some characters: the symbol of an operator, then an identifier, a text in
double quotes and a numeral. What is proved about a lexeme, or about why there is none, goes by these cases.
-/
namespace Reckoner.Lexeme

/-- What is found at the front, or what is wrong there, and how this comes about. -/
inductive Finds (c : Char) (cs : List Char) : Except Fault Front → Prop where
  | symbol {op : Operator} (longest : Longest Symbol (c :: cs) op.symbol.toList) :
      Finds c cs (.ok ⟨.operator (.ofOperator op), op.symbol.length - 1⟩)
  | identifier (noSymbol : NoSymbol (c :: cs)) (start : Identifier.isStart c = true) :
      Finds c cs (.ok (identifierAtFront c cs))
  | text (noSymbol : NoSymbol (c :: cs)) (notStart : ¬ Identifier.isStart c = true)
      (quote : c = '"') (closed : (cs.takeWhile (· != '"')).length < cs.length) :
      Finds c cs (.ok ⟨.constant (.string (String.ofList (cs.takeWhile (· != '"')))),
        (cs.takeWhile (· != '"')).length + 1⟩)
  | unterminated (noSymbol : NoSymbol (c :: cs))
      (notStart : ¬ Identifier.isStart c = true) (quote : c = '"')
      (unclosed : ¬ (cs.takeWhile (· != '"')).length < cs.length) :
      Finds c cs (.error ⟨.unterminatedString, cs.length + 1⟩)
  | numeral {value : Value} (noSymbol : NoSymbol (c :: cs))
      (notStart : ¬ Identifier.isStart c = true) (notQuote : c ≠ '"') (digit : c.isDigit = true)
      (read : numeralValue ((c :: cs).take (Numeral.lengthAtFront (c :: cs))) = .ok value) :
      Finds c cs (.ok ⟨.constant value, Numeral.lengthAtFront (c :: cs) - 1⟩)
  | misread {cause : CompileError.Cause} (noSymbol : NoSymbol (c :: cs))
      (notStart : ¬ Identifier.isStart c = true) (notQuote : c ≠ '"') (digit : c.isDigit = true)
      (refused : numeralValue ((c :: cs).take (Numeral.lengthAtFront (c :: cs))) = .error cause) :
      Finds c cs (.error ⟨cause, Numeral.lengthAtFront (c :: cs)⟩)
  | nothing (noSymbol : NoSymbol (c :: cs)) (notStart : ¬ Identifier.isStart c = true)
      (notQuote : c ≠ '"') (notDigit : ¬ c.isDigit = true) : Finds c cs (.error ⟨.unexpectedCharacter c, 1⟩)

variable {c : Char} {cs : List Char} {result : Except Fault Front}

theorem finds_of_front (h : front c cs = result) : Finds c cs result := by
  subst h
  unfold front
  split
  · next some =>
    obtain ⟨op, longest, isOperator⟩ := exists_operator_of_length some
    rw [isOperator]
    exact .symbol longest
  next none =>
  have noSymbol := noSymbol_of_length none
  split
  · next start => exact .identifier noSymbol start
  next notStart =>
  split
  · next quote =>
    simp only [stringAtFront]
    split
    · next closed => exact .text noSymbol notStart (eq_of_beq quote) closed
    · next unclosed => exact .unterminated noSymbol notStart (eq_of_beq quote) unclosed
  next notQuote =>
  replace notQuote : c ≠ '"' := fun same => notQuote (beq_iff_eq.mpr same)
  split
  · next digit =>
    simp only [numeralAtFront]
    split
    · next read => exact .numeral noSymbol notStart notQuote digit read
    · next refused => exact .misread noSymbol notStart notQuote digit refused
  · next notDigit => exact .nothing noSymbol notStart notQuote notDigit

/-- A numeral is refused if it is too large, or for being none. -/
theorem numeralValue_eq_error {numeral : List Char} {cause : CompileError.Cause}
    (h : numeralValue numeral = .error cause) :
    cause = .literalOutOfRange (String.ofList numeral) ∨ cause = .invalidLiteral (String.ofList numeral) := by
  unfold numeralValue at h
  split at h
  · split at h <;> cases h
    exact .inl rfl
  · split at h <;> cases h
    exact .inr rfl

end Reckoner.Lexeme
