import Reckoner.Proofs.Decimal.Integer
import Reckoner.Proofs.Lexeme.Munch
import Reckoner.Proofs.Lexeme.Neighbours

/-!
What is read at a place. Gaps are skipped, and a piece that can be read becomes a lexeme that depends on the
text of the piece alone, but for its place.
-/
namespace Reckoner.Lexeme

/-- What a lexeme with the text is. -/
def kindOf (text : List Char) : Kind :=
  match Operator.ofSymbol? (String.ofList text) with
  | some op => .operator (.ofOperator op)
  | none =>
    match text with
    | [] => .unresolved
    | c :: cs =>
      if Identifier.isStart c then (identifierAtFront c cs).kind
      else if c == '"' then .constant (.string (String.ofList cs.dropLast))
      else
        match numeralValue (c :: cs) with
        | .ok value => .constant value
        | .error _ => .unresolved

variable {c : Char} {cs text after : List Char}

/-- A text is no symbol if no symbol begins like it. -/
private theorem ofSymbol?_eq_none {test : Char → Bool} (passes : test c = true)
    (none : ∀ op : Operator, op.symbol.toList.head?.any test = false) :
    Operator.ofSymbol? (String.ofList (c :: cs)) = .none := by
  apply List.find?_eq_none.mpr
  intro op _ same
  have isSymbol : op.symbol = String.ofList (c :: cs) := by simpa using same
  have first := none op
  rw [isSymbol] at first
  simp [passes] at first

private theorem ofSymbol?_numeral (digit : c.isDigit = true) :
    Operator.ofSymbol? (String.ofList (c :: cs)) = none := by
  apply ofSymbol?_eq_none digit
  intro op
  cases op <;> decide

private theorem ofSymbol?_quoted : Operator.ofSymbol? (String.ofList ('"' :: cs)) = none := by
  have passes : ('"' == '"') = true := rfl
  apply @ofSymbol?_eq_none '"' cs (· == '"') passes
  intro op
  cases op <;> decide

/-- A symbol is its operator. -/
theorem kindOf_symbol (op : Operator) : kindOf op.symbol.toList = .operator (.ofOperator op) := by
  unfold kindOf
  rw [String.ofList_toList, Operator.ofSymbol?_symbol]

/-- What a lexeme is depends on its text alone. -/
theorem kind_of_front {found : Front} (h : front c cs = .ok found) :
    found.kind = kindOf (c :: cs.take found.more) := by
  cases finds_of_front h with
  | @symbol op longest =>
    have positive := op.symbol_pos
    have text : c :: cs.take (op.symbol.length - 1) = op.symbol.toList := by
      apply cons_take_eq longest.front
      rw [String.length_toList]
      omega
    rw [text, kindOf_symbol]
  | identifier _ start =>
    have tail : cs.take (cs.takeWhile Identifier.isContinue).length =
        cs.takeWhile Identifier.isContinue :=
      (List.prefix_iff_eq_take.mp (List.takeWhile_prefix _)).symm
    simp only [kindOf, ofSymbol?_of_isStart start, if_pos start, identifierAtFront, tail]
    simp [List.takeWhile_takeWhile]
  | text _ notStart quote closed =>
    subst quote
    obtain ⟨after, split⟩ := exists_close closed
    have text : cs.take ((cs.takeWhile (· != '"')).length + 1) = cs.takeWhile (· != '"') ++ ['"'] := by
      generalize cs.takeWhile (· != '"') = body at split
      rw [split, List.take_append]
      simp
    simp only [kindOf, ofSymbol?_quoted, text]
    simp [notStart]
  | numeral _ notStart notQuote digit read =>
    obtain ⟨more, length, -⟩ := @exists_numeral _ cs digit
    simp only [length, List.take_succ_cons, Nat.add_sub_cancel] at read ⊢
    simp only [kindOf, ofSymbol?_numeral digit, if_neg notStart, beq_eq_false_iff_ne.mpr notQuote, read]
    rfl

/-- Digits are the integer that they stand for, if it fits into 64 bits. -/
theorem kindOf_digits (digits : Numeral.Digits text) {i : Int64}
    (value : (Decimal.digitsValue text : Int) = i.toInt) : kindOf text = .constant (.int i) := by
  cases text with
  | nil => exact absurd rfl digits.1
  | cons c cs =>
    have digit := digits.2 c List.mem_cons_self
    have whole := Numeral.isInteger_iff.mpr (.mk .none digits)
    have read : Decimal.readInt64? (c :: cs) = some i := by
      rw [Numeral.readInt64?_of_digits digits, value, Decimal.toInt64?_toInt]
    have notStart := not_start_of_digit digit
    have notQuote : ¬ (c == '"') = true := by
      rw [beq_iff_eq]
      rintro rfl
      cases digit
    simp only [kindOf, ofSymbol?_numeral digit, if_neg notStart, if_neg notQuote, numeralValue]
    rw [List.nil_append] at whole
    rw [if_pos whole, read]

/-- Characters between double quotes are a text. -/
theorem kindOf_quoted (body : List Char) :
    kindOf ('"' :: (body ++ ['"'])) = .constant (.string (String.ofList body)) := by
  have notStart : ¬ Identifier.isStart '"' = true := by decide
  simp only [kindOf, ofSymbol?_quoted, if_neg notStart]
  simp

/-- The text of an operator is its symbol. -/
theorem symbol_of_kindOf {occurrence : Occurrence} (h : kindOf text = .operator occurrence) :
    String.ofList text = occurrence.operator.symbol := by
  unfold kindOf at h
  split at h
  · next op found =>
    cases h
    have same := List.find?_some found
    exact (eq_of_beq same).symm
  split at h
  · cases h
  split at h
  · simp only [identifierAtFront, wordKind] at h
    split at h
    · cases h
    · split at h <;> cases h
  split at h
  · cases h
  · split at h <;> cases h

/-- Gaps in front change only where the lexemes are. -/
theorem scan_gap {gap : List Char} (blank : ∀ c ∈ gap, isGap c = true) (offset position : Nat) :
    scan offset position (gap ++ cs) = scan (offset + Span.bytes gap) position cs := by
  induction gap generalizing offset with
  | nil => rfl
  | cons c gap ih =>
    obtain ⟨first, others⟩ := List.forall_mem_cons.mp blank
    rw [List.cons_append, scan, if_pos first, ih others, Span.bytes, Nat.add_assoc]

/-- A piece that can be read becomes a lexeme. -/
theorem scan_piece (munches : Munches (text ++ after) text) (fits : ¬ TooLarge text)
    (offset position : Nat) :
    scan offset position (text ++ after) =
      match scan (offset + Span.bytes text) (position + 1) after with
      | .ok rest =>
        .ok (⟨String.ofList text, ⟨offset, offset + Span.bytes text⟩, position, kindOf text⟩ :: rest)
      | .error error => .error error := by
  cases text with
  | nil => exact absurd rfl munches.ne_nil
  | cons c text =>
    rw [List.cons_append] at munches ⊢
    obtain ⟨found, isFront, same⟩ := front_of_munches munches fits
    have kind := kind_of_front isFront
    have left : (text ++ after).drop found.more = after := by
      have whole := List.take_append_drop found.more (text ++ after)
      rw [List.tail_eq_of_cons_eq same] at whole
      exact List.append_cancel_left whole
    have notGap : ¬ isGap c = true := by
      rw [munches.not_gap]
      exact Bool.false_ne_true
    rw [same] at kind
    rw [scan, if_neg notGap, isFront]
    cases ran : scan (offset + Span.bytes (c :: text)) (position + 1) after with
    | ok rest => simp only [same, left, kind, ran]
    | error error => simp only [same, left, ran]

end Reckoner.Lexeme
