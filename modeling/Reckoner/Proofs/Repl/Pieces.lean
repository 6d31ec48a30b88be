import Reckoner.Proofs.Lexeme.Outside
import Reckoner.Proofs.Repl.Number

/-!
The pieces of a line: what is taken at a place, and what follows from that for a line without errors. Its
parentheses outside of texts are its pieces for them.
-/
namespace Reckoner.Repl.Token

/-- What is taken of the characters in front, and what it is. -/
inductive Takes : List Char → Token → List Char → Prop where
  | gap {c : Char} {cs : List Char} : isGap c = true → Takes (c :: cs) .gap (c :: cs.takeWhile isGap)
  | openGroup {cs : List Char} : Takes ('(' :: cs) .openGroup ['(']
  | closeGroup {cs : List Char} : Takes (')' :: cs) .closeGroup [')']
  | comma {cs : List Char} : Takes (',' :: cs) .comma [',']
  | number {c : Char} {cs : List Char} : c.isDigit = true →
      Takes (c :: cs) .number ((c :: cs).take (numberLength (c :: cs)))
  | string {body after : List Char} : '"' ∉ body →
      Takes ('"' :: (body ++ '"' :: after)) .string ('"' :: (body ++ ['"']))
  | unclosed {cs : List Char} : '"' ∉ cs → Takes ('"' :: cs) .error ('"' :: cs)
  | word {c : Char} {cs : List Char} : Identifier.isStart c = true →
      Takes (c :: cs) (ofWord (c :: cs.takeWhile Identifier.isContinue)) (c :: cs.takeWhile Identifier.isContinue)
  | operator {c : Char} {cs : List Char} : isOperatorChar c = true →
      Takes (c :: cs) .operator (c :: cs.takeWhile isOperatorChar)
  | unknown {c : Char} {cs : List Char} : isGap c = false → c ≠ '(' → c ≠ ')' → c ≠ ',' → c.isDigit = false →
      c ≠ '"' → Identifier.isStart c = false → isOperatorChar c = false → Takes (c :: cs) .error [c]

/-- The characters are cut into these pieces. -/
inductive Cut : List Char → List Piece → Prop where
  | done : Cut [] []
  | next {token : Token} {text after : List Char} {pieces : List Piece} :
      Takes (text ++ after) token text → Cut after pieces → Cut (text ++ after) (⟨token, text⟩ :: pieces)

variable {c : Char} {cs : List Char}

private theorem take_takeWhile (test : Char → Bool) : cs.take (cs.takeWhile test).length = cs.takeWhile test :=
  (List.prefix_iff_eq_take.mp (List.takeWhile_prefix test)).symm

/-- A text goes on to the next double quote, or to the end of the line if there is none. -/
private theorem takes_quote (cs : List Char) :
    let body := (cs.takeWhile (· != '"')).length
    Takes ('"' :: cs) (if body < cs.length then (string, body + 1) else (error, body)).1
      ('"' :: cs.take (if body < cs.length then (string, body + 1) else (error, body)).2) := by
  intro body
  by_cases closed : body < cs.length
  · obtain ⟨after, split⟩ := Lexeme.exists_close closed
    have free : '"' ∉ cs.takeWhile (· != '"') := fun mem => by cases List.mem_takeWhile_imp mem
    have taken : cs.take (body + 1) = cs.takeWhile (· != '"') ++ ['"'] := by
      have front : cs.takeWhile (· != '"') ++ ['"'] <+: cs := ⟨after, by rw [List.append_assoc]; exact split.symm⟩
      rw [List.prefix_iff_eq_take.mp front, List.length_append]
      rfl
    rw [if_pos closed, taken]
    generalize cs.takeWhile (· != '"') = text at split free
    subst split
    exact .string free
  · have whole := (List.takeWhile_prefix (· != '"')).eq_of_length_le (Nat.not_lt.mp closed)
    have free : '"' ∉ cs := fun mem => by cases List.takeWhile_eq_self_iff.mp whole '"' mem
    rw [if_neg closed, List.take_of_length_le (Nat.not_lt.mp closed)]
    exact .unclosed free

theorem takes_atFront (c : Char) (cs : List Char) :
    Takes (c :: cs) (atFront c cs).1 (c :: cs.take (atFront c cs).2) := by
  unfold atFront
  by_cases gap : isGap c = true
  · rw [if_pos gap, take_takeWhile]
    exact .gap gap
  rw [if_neg gap]
  by_cases opens : (c == '(') = true
  · obtain rfl := eq_of_beq opens
    exact .openGroup
  rw [if_neg opens]
  by_cases closes : (c == ')') = true
  · obtain rfl := eq_of_beq closes
    exact .closeGroup
  rw [if_neg closes]
  by_cases comma : (c == ',') = true
  · obtain rfl := eq_of_beq comma
    exact .comma
  rw [if_neg comma]
  by_cases digit : c.isDigit = true
  · rw [if_pos digit]
    obtain ⟨more, count⟩ := Nat.exists_eq_add_one_of_ne_zero (numberLength_pos digit cs).ne'
    rw [count, Nat.add_sub_cancel, ← List.take_succ_cons, ← count]
    exact .number digit
  rw [if_neg digit]
  by_cases quote : (c == '"') = true
  · obtain rfl := eq_of_beq quote
    exact takes_quote cs
  rw [if_neg quote]
  by_cases start : Identifier.isStart c = true
  · rw [if_pos start, take_takeWhile]
    exact .word start
  rw [if_neg start]
  by_cases op : isOperatorChar c = true
  · rw [if_pos op, take_takeWhile]
    exact .operator op
  rw [if_neg op]
  simp only [Bool.not_eq_true, beq_eq_false_iff_ne] at *
  exact .unknown gap opens closes comma digit quote start op

theorem cut_pieces (cs : List Char) : Cut cs (pieces cs) := by
  fun_induction pieces cs with
  | case1 => exact .done
  | case2 c cs token more front ih =>
    have takes := takes_atFront c cs
    rw [front] at takes
    have split : c :: cs = c :: cs.take more ++ cs.drop more := by
      rw [List.cons_append, List.take_append_drop]
    rw [split] at takes ⊢
    exact .next takes ih

theorem forall_takeWhile {test : Char → Bool} (first : test c = true) :
    ∀ d ∈ c :: cs.takeWhile test, test d = true :=
  List.forall_mem_cons.mpr ⟨first, fun _ => List.mem_takeWhile_imp⟩

theorem ofWord_ne {word : List Char} :
    ofWord word ≠ .openGroup ∧ ofWord word ≠ .closeGroup ∧ ofWord word ≠ .error := by
  simp only [ofWord]
  split_ifs <;> decide

/-- The characters of a number are neither double quotes nor parentheses. -/
theorem number_plain (digit : c.isDigit = true) :
    ∀ d ∈ (c :: cs).take (numberLength (c :: cs)), d ≠ '"' ∧ d ≠ '(' ∧ d ≠ ')' := by
  have ofDigit : ∀ d : Char, d.isDigit = true → d ≠ '"' ∧ d ≠ '(' ∧ d ≠ ')' := by
    intro d digit
    refine ⟨?_, ?_, ?_⟩ <;> rintro rfl <;> cases digit
  rcases @number_cases cs c digit with same | ⟨whole, mark, sign, power, rest, -, isWhole, isMark, isSign, isPower, -,
    -, text⟩
  · rw [same]
    exact (Numeral.longest_digit digit cs).2.here.plain
  · rw [text]
    simp only [List.forall_mem_append, List.forall_mem_cons]
    refine ⟨⟨fun d mem => ofDigit d (isWhole.2 d mem), by simp⟩, ?_, ?_, fun d mem => ofDigit d (isPower.2 d mem)⟩
    · cases isMark <;> simp
    · cases isSign <;> simp

/-- A piece that is no error is a parenthesis, a text, or has neither double quotes nor parentheses. -/
private theorem Takes.plain {token : Token} {text : List Char} (takes : Takes cs token text)
    (noError : token ≠ .error) : (token = .openGroup ∧ text = ['(']) ∨ (token = .closeGroup ∧ text = [')']) ∨
      (token ≠ .openGroup ∧ token ≠ .closeGroup ∧
        (Lexeme.Quoted text ∨ ∀ c ∈ text, c ≠ '"' ∧ c ≠ '(' ∧ c ≠ ')')) := by
  have others (test : Char → Bool) (fails : test '"' = false ∧ test '(' = false ∧ test ')' = false)
      (passes : ∀ c ∈ text, test c = true) : ∀ c ∈ text, c ≠ '"' ∧ c ≠ '(' ∧ c ≠ ')' := by
    refine fun c mem => ⟨?_, ?_, ?_⟩ <;> rintro rfl <;> simp_all
  cases takes with
  | openGroup => exact .inl ⟨rfl, rfl⟩
  | closeGroup => exact .inr (.inl ⟨rfl, rfl⟩)
  | comma => exact .inr (.inr ⟨by decide, by decide, .inr (by simp)⟩)
  | unclosed | unknown => exact absurd rfl noError
  | string free => exact .inr (.inr ⟨by decide, by decide, .inl ⟨_, free, rfl⟩⟩)
  | number digit => exact .inr (.inr ⟨by decide, by decide, .inr (number_plain digit)⟩)
  | gap gap => exact .inr (.inr ⟨by decide, by decide, .inr (others isGap (by decide) (forall_takeWhile gap))⟩)
  | operator op =>
    exact .inr (.inr ⟨by decide, by decide, .inr (others isOperatorChar (by decide) (forall_takeWhile op))⟩)
  | word start =>
    refine .inr (.inr ⟨ofWord_ne.1, ofWord_ne.2.1, .inr (others Identifier.isContinue (by decide) ?_)⟩)
    exact forall_takeWhile (Identifier.isContinue_of_isStart start)

/-- Such a piece adds a parenthesis if it is one. -/
private theorem Takes.tally {token : Token} {text rest : List Char} {opened closed : Nat}
    (takes : Takes cs token text) (noError : token ≠ .error) (h : Tally rest opened closed) :
    Tally (text ++ rest) (opened + if token = .openGroup then 1 else 0)
      (closed + if token = .closeGroup then 1 else 0) := by
  rw [Nat.add_comm, Nat.add_comm closed]
  rcases takes.plain noError with ⟨rfl, rfl⟩ | ⟨rfl, rfl⟩ | ⟨opens, closes, quoted | free⟩
  · exact h.append (by decide) (by decide)
  · exact h.append (by decide) (by decide)
  · rw [if_neg opens, if_neg closes, Nat.zero_add, Nat.zero_add]
    exact h.quoted quoted
  · rw [if_neg opens, if_neg closes, Nat.zero_add, Nat.zero_add]
    exact h.plain free

/-- Behind it stands outside of texts what stood there before. -/
theorem Takes.suffix {token : Token} {text rest : List Char} (takes : Takes cs token text)
    (noError : token ≠ .error) : outside false rest <:+ outside false (text ++ rest) := by
  have unquoted (free : '"' ∉ text) : outside false rest <:+ outside false (text ++ rest) := by
    rw [outside_append free]
    exact List.suffix_append _ _
  rcases takes.plain noError with ⟨-, rfl⟩ | ⟨-, rfl⟩ | ⟨-, -, quoted | free⟩
  · exact unquoted (by decide)
  · exact unquoted (by decide)
  · rw [outside_quoted quoted]
  · exact unquoted fun mem => (free _ mem).1 rfl

/-- Without errors the pieces of a line have its parentheses. -/
theorem Cut.tally {pieces : List Piece} (h : Cut cs pieces) (noError : ∀ piece ∈ pieces, piece.token ≠ .error) :
    Tally cs (pieces.countP (·.token = .openGroup)) (pieces.countP (·.token = .closeGroup)) := by
  induction h with
  | done => exact .nil
  | next takes _ ih =>
    obtain ⟨first, others⟩ := List.forall_mem_cons.mp noError
    simpa only [List.countP_cons, decide_eq_true_eq] using takes.tally first (ih others)

end Reckoner.Repl.Token
