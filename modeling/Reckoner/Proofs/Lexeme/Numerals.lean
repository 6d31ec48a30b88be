import Reckoner.Proofs.Lexeme.Front

/-!
Numerals in a source. At a digit the scanner takes the longest numeral that stands there and goes on behind it.
Digits alone are the integer that they stand for in decimal, or too large, and any other numeral is a floating-point
number.
-/
namespace Reckoner.Lexeme

/-- The scanner takes the longest numeral at the front. What it reads there becomes a constant in front of the lexemes
behind the numeral, or the error of the whole numeral. -/
def TakesNumeral (offset position : Nat) (cs : List Char) : Prop :=
  ∃ text after reading, cs = text ++ after ∧ Longest Numeral.Literal cs text ∧ Reads text reading ∧
    scan offset position cs =
      match reading with
      | .ok value => (scan (offset + Span.bytes text) (position + 1) after).map
          (⟨String.ofList text, ⟨offset, offset + Span.bytes text⟩, position, .constant value⟩ :: ·)
      | .error cause => .error (cause.atSpan ⟨offset, offset + Span.bytes text⟩)

variable {c : Char} {cs : List Char}

/-- Neither a symbol nor a word nor a text begins with a digit. -/
private theorem front_digit (digit : c.isDigit = true) : front c cs = numeralAtFront (c :: cs) := by
  have noSymbol : Operator.lengthAtFront? (c :: cs) = none := by
    cases found : Operator.lengthAtFront? (c :: cs) with
    | none => rfl
    | some length =>
      obtain ⟨op, longest, -⟩ := exists_operator_of_length found
      exact absurd ⟨op, rfl⟩ (noSymbol_digit digit _ longest.front)
  have noQuote : ¬ (c == '"') = true := by
    rw [beq_iff_eq]
    rintro rfl
    cases digit
  simp only [front, noSymbol, if_neg (not_start_of_digit digit), if_neg noQuote, if_pos digit]

theorem takesNumeral_of_digit (digit : c.isDigit = true) (offset position : Nat) :
    TakesNumeral offset position (c :: cs) := by
  obtain ⟨more, length, longest⟩ := @exists_numeral c cs digit
  have notGap : ¬ isGap c = true := by
    rw [(Munches.numeral (noSymbol_digit digit) longest).not_gap]
    exact Bool.false_ne_true
  refine ⟨c :: cs.take more, cs.drop more, numeralValue (c :: cs.take more), ?_, longest,
    reads_numeralValue longest.here digit, ?_⟩
  · rw [List.cons_append, List.take_append_drop]
  · rw [scan, if_neg notGap, front_digit digit, numeralAtFront, length]
    simp only [List.take_succ_cons]
    cases numeralValue (c :: cs.take more) with
    | error cause => rfl
    | ok value =>
      simp only [Nat.add_sub_cancel]
      cases scan (offset + Span.bytes (c :: cs.take more)) (position + 1) (cs.drop more) <;> rfl

/-- The tests on texts pass exactly the numerals and exactly their beginnings. At a digit of a source the
scanner takes the longest numeral that begins there: digits only become the integer that they stand for in decimal, or
they are refused because it does not fit into 64 bits, and every other numeral becomes a floating-point number. -/
theorem numerals_exact :
    (∀ cs, Numeral.isInteger cs = true ↔ Numeral.Whole cs) ∧
    (∀ cs, Numeral.isNumeral cs = true ↔ Numeral.Literal cs) ∧
    (∀ cs, Numeral.isBeginning cs = true ↔ ∃ rest, Numeral.Literal (cs ++ rest)) ∧
    ∀ (c : Char) (cs : List Char) (offset position : Nat), c.isDigit = true →
      TakesNumeral offset position (c :: cs) := by
  refine ⟨fun cs => Numeral.isInteger_iff, fun cs => Numeral.isNumeral_iff, fun cs => Numeral.isBeginning_iff, ?_⟩
  intro c cs offset position digit
  exact takesNumeral_of_digit digit offset position

/-- A power of ten cannot follow a bare point, so the numeral ends there. -/
theorem numerals_exact_point : '1'.isDigit = true ∧ TakesNumeral 0 0 "1.e5".toList :=
  ⟨rfl, numerals_exact.2.2.2 '1' ".e5".toList 0 0 rfl⟩

end Reckoner.Lexeme
