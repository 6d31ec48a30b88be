import Reckoner.Proofs.Numeral.Literal
import Reckoner.Proofs.Strict.Lexing

/-!
What a lexeme takes of the characters in front of it: the longest operator symbol that begins there, or, if
none does, the longest identifier, the text up to the next double quote or the longest numeral. There is at
most one such piece, the scanner finds it, and it gives up where there is none or where the piece is an integer
that is too large.
-/
namespace Reckoner.Lexeme

/-- A letter or an underscore, followed by letters, digits and underscores. -/
def Word (text : List Char) : Prop :=
  Identifier.matchesAll text = true

/-- Characters between double quotes that are no double quotes themselves. -/
def Quoted (text : List Char) : Prop :=
  ∃ body, '"' ∉ body ∧ text = '"' :: (body ++ ['"'])

/-- The piece that a lexeme takes. -/
inductive Munches (cs : List Char) : List Char → Prop where
  | symbol {text : List Char} : Longest Symbol cs text → Munches cs text
  | word {text : List Char} : NoSymbol cs → Longest Word cs text → Munches cs text
  | quoted {text : List Char} : NoSymbol cs → Longest Quoted cs text → Munches cs text
  | numeral {text : List Char} : NoSymbol cs → Longest Numeral.Literal cs text → Munches cs text

/-- An integer that does not fit into 64 bits. -/
def TooLarge (text : List Char) : Prop :=
  Numeral.Digits text ∧ Int64.maxValue.toInt < Decimal.digitsValue text

/-- How a numeral without a sign is read: digits as the integer that they stand for if it fits into 64 bits, and
every other numeral as a floating-point number. -/
inductive Reads (text : List Char) : Except CompileError.Cause Value → Prop where
  | int {i : Int64} : Numeral.Digits text → i.toInt = Nat.ofDigitChars 10 text 0 → Reads text (.ok (.int i))
  | tooLarge : Numeral.Digits text → Int64.maxValue.toInt < Nat.ofDigitChars 10 text 0 →
      Reads text (.error (.literalOutOfRange (String.ofList text)))
  | float {x : Float} : ¬ Numeral.Digits text → Decimal.readFloat? text = some x → Reads text (.ok (.float x))

/-- There is no piece, or it is an integer that is too large. -/
def Unreadable (cs : List Char) : Prop :=
  (∀ text, ¬ Munches cs text) ∨ ∃ text, Munches cs text ∧ TooLarge text

variable {c : Char} {cs text : List Char}

/-- No symbol begins with a digit. -/
theorem Symbol.not_tooLarge (h : Symbol text) : ¬ TooLarge text := by
  have first : ∀ op : Operator, op.symbol.toList.head?.all Char.isDigit = false := by
    intro op
    cases op <;> decide
  rintro ⟨⟨nonempty, all⟩, -⟩
  obtain ⟨op, rfl⟩ := h
  have noDigit := first op
  generalize op.symbol.toList = text at *
  cases text with
  | nil => exact nonempty rfl
  | cons c text =>
    have digit := all c List.mem_cons_self
    simp [digit] at noDigit

theorem word_cons : Word (c :: cs) ↔ Identifier.isStart c = true ∧ ∀ d ∈ cs, Identifier.isContinue d = true := by
  simp [Word, Identifier.matchesAll]

theorem Word.isContinue (h : Word text) : ∀ c ∈ text, Identifier.isContinue c = true := by
  cases text with
  | nil => simp
  | cons first rest =>
    obtain ⟨start, continued⟩ := word_cons.mp h
    exact List.forall_mem_cons.mpr ⟨Identifier.isContinue_of_isStart start, continued⟩

/-- What a numeral can begin with. -/
theorem literal_head (h : Numeral.Literal (c :: cs)) : c.isDigit = true ∨ c = '+' ∨ c = '-' := by
  obtain ⟨_, rest, ⟨isSign, isDigits⟩, split⟩ := h.exists_whole
  cases isSign with
  | none =>
    obtain ⟨first, more, rfl⟩ := List.exists_cons_of_ne_nil isDigits.1
    cases split
    exact .inl (isDigits.2 c List.mem_cons_self)
  | plus =>
    cases split
    exact .inr (.inl rfl)
  | minus =>
    cases split
    exact .inr (.inr rfl)

/-- A numeral at a place where no symbol begins has no sign. -/
private theorem NoSymbol.isDigit (none : NoSymbol (c :: cs)) (front : text <+: c :: cs)
    (literal : Numeral.Literal text) : c.isDigit = true := by
  cases text with
  | nil => exact absurd rfl literal.ne_nil
  | cons first rest =>
    obtain ⟨rfl, -⟩ := List.cons_prefix_cons.mp front
    rcases literal_head literal with digit | rfl | rfl
    · exact digit
    · exact absurd ⟨.addition, rfl⟩ (none ['+'] (by simp))
    · exact absurd ⟨.subtraction, rfl⟩ (none ['-'] (by simp))

private theorem takeWhile_of_quoted {body after : List Char} (inside : '"' ∉ body) :
    (body ++ '"' :: after).takeWhile (· != '"') = body := by
  have all : ∀ c ∈ body, (c != '"') = true := by
    intro c mem
    rw [bne_iff_ne]
    rintro rfl
    exact inside mem
  rw [List.takeWhile_append_of_pos all]
  simp

/-- A text that is closed reaches to the first double quote. -/
theorem quoted_front (quoted : Quoted text) (front : text <+: '"' :: cs) :
    (cs.takeWhile (· != '"')).length < cs.length ∧
      text.length = (cs.takeWhile (· != '"')).length + 2 := by
  obtain ⟨body, inside, rfl⟩ := quoted
  obtain ⟨-, within⟩ := List.cons_prefix_cons.mp front
  obtain ⟨after, rfl⟩ := within
  rw [List.append_assoc, List.singleton_append, takeWhile_of_quoted inside]
  simp

theorem longest_quote {body after : List Char} (inside : '"' ∉ body) :
    Longest Quoted ('"' :: (body ++ '"' :: after)) ('"' :: (body ++ ['"'])) := by
  have front : '"' :: (body ++ ['"']) <+: '"' :: (body ++ '"' :: after) := ⟨after, by simp⟩
  have isQuoted : Quoted ('"' :: (body ++ ['"'])) := ⟨body, inside, rfl⟩
  refine ⟨front, isQuoted, fun other within quoted => ?_⟩
  rw [(quoted_front quoted within).2, (quoted_front isQuoted front).2]

/-- The first characters of the pieces that are no symbols tell these apart. -/
private theorem isStart_of_word (word : Word text) (front : text <+: c :: cs) :
    Identifier.isStart c = true := by
  cases text with
  | nil => cases word
  | cons first rest =>
    obtain ⟨rfl, -⟩ := List.cons_prefix_cons.mp front
    exact (word_cons.mp word).1

private theorem eq_quote_of_quoted (quoted : Quoted text) (front : text <+: c :: cs) : c = '"' := by
  obtain ⟨body, -, rfl⟩ := quoted
  exact (List.cons_prefix_cons.mp front).1.symm

theorem not_start_of_digit (digit : c.isDigit = true) : ¬ Identifier.isStart c = true := by
  intro start
  delta Identifier.isStart Char.isAlpha Char.isUpper Char.isLower at start
  simp only [Bool.or_eq_true, Bool.and_eq_true, decide_eq_true_eq, beq_iff_eq] at start
  simp only [Char.isDigit, Bool.and_eq_true, decide_eq_true_eq] at digit
  rcases start with (upper | lower) | rfl
  · exact absurd (UInt32.le_trans upper.1 digit.2) (by decide)
  · exact absurd (UInt32.le_trans lower.1 digit.2) (by decide)
  · exact absurd digit.2 (by decide)

theorem Word.not_tooLarge (isWord : Word text) : ¬ TooLarge text := by
  rintro ⟨⟨-, digits⟩, -⟩
  cases text with
  | nil => cases isWord
  | cons c cs => exact not_start_of_digit (digits c List.mem_cons_self) (word_cons.mp isWord).1

/-- Where no symbol stands the first character tells which piece can be there. -/
theorem Munches.head (h : Munches (c :: cs) text) (none : NoSymbol (c :: cs)) :
    (Identifier.isStart c = true ∧ Longest Word (c :: cs) text) ∨
      (c = '"' ∧ Longest Quoted (c :: cs) text) ∨
      (c.isDigit = true ∧ Longest Numeral.Literal (c :: cs) text) := by
  cases h with
  | symbol longest => exact absurd longest.here (none _ longest.front)
  | word _ longest => exact .inl ⟨isStart_of_word longest.here longest.front, longest⟩
  | quoted _ longest => exact .inr (.inl ⟨eq_quote_of_quoted longest.here longest.front, longest⟩)
  | numeral _ longest => exact .inr (.inr ⟨none.isDigit longest.front longest.here, longest⟩)

/-- There is at most one piece. -/
theorem Munches.unique {other : List Char} (one : Munches cs text) (two : Munches cs other) :
    text = other := by
  cases cs with
  | nil =>
    have empty : ∀ {text}, Munches [] text → text = [] := by
      intro text munches
      cases munches with
      | symbol longest | word _ longest | quoted _ longest | numeral _ longest =>
        exact List.prefix_nil.mp longest.front
    rw [empty one, empty two]
  | cons c cs =>
    by_cases none : NoSymbol (c :: cs)
    · rcases one.head none with ⟨start, one⟩ | ⟨rfl, one⟩ | ⟨digit, one⟩ <;>
        rcases two.head none with ⟨start', two⟩ | ⟨quote', two⟩ | ⟨digit', two⟩
      · exact one.unique two
      · rw [quote'] at start
        cases start
      · exact absurd start (not_start_of_digit digit')
      · cases start'
      · exact one.unique two
      · cases digit'
      · exact absurd start' (not_start_of_digit digit)
      · rw [quote'] at digit
        cases digit
      · exact one.unique two
    · have symbol : ∀ {text}, Munches (c :: cs) text → Longest Symbol (c :: cs) text := by
        intro text munches
        cases munches with
        | symbol longest => exact longest
        | word none' _ | quoted none' _ | numeral none' _ => exact absurd none' none
      exact (symbol one).unique (symbol two)

theorem cons_take_eq {more : Nat} (front : text <+: c :: cs) (count : text.length = more + 1) :
    c :: cs.take more = text := by
  rw [List.prefix_iff_eq_take.mp front, count, List.take_succ_cons]

/-- A numeral that does not begin with a sign has a value unless it is a large integer. -/
theorem reads_numeralValue (literal : Numeral.Literal (c :: cs)) (digit : c.isDigit = true) :
    Reads (c :: cs) (numeralValue (c :: cs)) := by
  unfold numeralValue
  by_cases whole : Numeral.isInteger (c :: cs) = true
  · have digits : Numeral.Digits (c :: cs) := by
      have isWhole := Numeral.isInteger_iff.mp whole
      generalize isText : c :: cs = text at isWhole
      obtain ⟨sign, digits⟩ := isWhole
      cases sign with
      | none => exact digits
      | plus | minus =>
        cases isText
        cases digit
    rw [if_pos whole, Numeral.readInt64?_of_digits digits, Decimal.toInt64?]
    by_cases large : Int64.maxValue.toInt < Decimal.digitsValue (c :: cs)
    · rw [if_neg]
      · exact .tooLarge digits large
      · rintro ⟨-, fits⟩
        omega
    · have least : Int64.minValue.toInt = -2 ^ 63 := rfl
      have most : Int64.maxValue.toInt = 2 ^ 63 - 1 := rfl
      rw [if_pos (by omega)]
      exact .int digits (Int64.toInt_ofInt_of_le (by omega) (by omega))
  · obtain ⟨x, read⟩ := Numeral.readFloat?_of_literal literal
    rw [if_neg whole, read]
    exact .float (fun digits => whole (Numeral.isInteger_iff.mpr (.mk .none digits))) read

theorem longest_word (start : Identifier.isStart c = true) :
    Longest Word (c :: cs) (c :: cs.takeWhile Identifier.isContinue) := by
  apply Longest.takeWhile
  · intro tail
    rw [word_cons]
    simp [start]
  · rintro ⟨⟩

private theorem munches_identifier (none : NoSymbol (c :: cs)) (start : Identifier.isStart c = true) :
    Munches (c :: cs) (c :: cs.take (identifierAtFront c cs).more) ∧
      ¬ TooLarge (c :: cs.take (identifierAtFront c cs).more) := by
  have longest : Longest Word (c :: cs) (c :: cs.takeWhile Identifier.isContinue) := longest_word start
  have text := cons_take_eq longest.front (List.length_cons ..)
  simp only [identifierAtFront]
  rw [text]
  refine ⟨.word none longest, ?_⟩
  rintro ⟨⟨-, all⟩, -⟩
  exact not_start_of_digit (all c List.mem_cons_self) start

/-- The first double quote, if there is one. -/
theorem exists_close (closed : (cs.takeWhile (· != '"')).length < cs.length) :
    ∃ after, cs = cs.takeWhile (· != '"') ++ '"' :: after := by
  have whole := @List.takeWhile_append_dropWhile _ (· != '"') cs
  have stops := List.head?_dropWhile_not (· != '"') cs
  cases left : cs.dropWhile (· != '"') with
  | nil =>
    rw [left, List.append_nil] at whole
    rw [whole] at closed
    exact absurd closed (Nat.lt_irrefl _)
  | cons d after =>
    rw [left] at stops whole
    obtain rfl : d = '"' := by simpa using stops
    exact ⟨after, whole.symm⟩

private theorem longest_quoted (closed : (cs.takeWhile (· != '"')).length < cs.length) :
    Longest Quoted ('"' :: cs) ('"' :: cs.take ((cs.takeWhile (· != '"')).length + 1)) := by
  obtain ⟨after, split⟩ := exists_close closed
  have longest : Longest Quoted ('"' :: cs) ('"' :: (cs.takeWhile (· != '"') ++ ['"'])) := by
    refine ⟨?_, ⟨_, ?_, rfl⟩, ?_⟩
    · refine List.cons_prefix_cons.mpr ⟨rfl, after, ?_⟩
      rw [List.append_assoc, List.singleton_append, ← split]
    · intro mem
      have passes := List.mem_takeWhile_imp mem
      cases passes
    · intro other front quoted
      rw [(quoted_front quoted front).2]
      simp
  rw [cons_take_eq longest.front (by simp)]
  exact longest

/-- The longest numeral at a digit. -/
theorem exists_numeral (digit : c.isDigit = true) :
    ∃ more, Numeral.lengthAtFront (c :: cs) = more + 1 ∧
      Longest Numeral.Literal (c :: cs) (c :: cs.take more) := by
  obtain ⟨positive, longest⟩ := Numeral.longest_digit digit cs
  obtain ⟨more, length⟩ : ∃ more, Numeral.lengthAtFront (c :: cs) = more + 1 :=
    ⟨Numeral.lengthAtFront (c :: cs) - 1, by omega⟩
  rw [length, List.take_succ_cons] at longest
  exact ⟨more, length, longest⟩

/-- The lexeme at the front takes its piece. -/
theorem munches_of_front {found : Front} (h : front c cs = .ok found) :
    Munches (c :: cs) (c :: cs.take found.more) ∧ ¬ TooLarge (c :: cs.take found.more) := by
  cases finds_of_front h with
  | @symbol op longest =>
    have positive := op.symbol_pos
    have text : c :: cs.take (op.symbol.length - 1) = op.symbol.toList := by
      apply cons_take_eq longest.front
      rw [String.length_toList]
      omega
    rw [text]
    exact ⟨.symbol longest, longest.here.not_tooLarge⟩
  | identifier noSymbol start => exact munches_identifier noSymbol start
  | text noSymbol _ quote closed =>
    subst quote
    refine ⟨.quoted noSymbol (longest_quoted closed), ?_⟩
    rintro ⟨⟨-, all⟩, -⟩
    cases all '"' List.mem_cons_self
  | numeral noSymbol _ _ digit read =>
    obtain ⟨more, length, longest⟩ := @exists_numeral _ cs digit
    have reads := reads_numeralValue longest.here digit
    simp only [length, List.take_succ_cons, Nat.add_sub_cancel] at read ⊢
    rw [read] at reads
    refine ⟨.numeral noSymbol longest, fun tooLarge => ?_⟩
    cases reads with
    | @int i _ value =>
      have most := i.toInt_le
      rw [value] at most
      exact absurd tooLarge.2 (Int.not_lt.mpr most)
    | float notDigits => exact notDigits tooLarge.1

/-- Where there is no lexeme at the front its piece cannot be read. -/
theorem unreadable_of_front {fault : Fault} (h : front c cs = .error fault) : Unreadable (c :: cs) := by
  cases finds_of_front h with
  | unterminated noSymbol notStart quote unclosed =>
    refine .inl fun text munches => ?_
    rcases munches.head noSymbol with ⟨start, -⟩ | ⟨rfl, longest⟩ | ⟨digit, -⟩
    · exact notStart start
    · exact unclosed (quoted_front longest.here longest.front).1
    · rw [quote] at digit
      cases digit
  | misread noSymbol _ _ digit refused =>
    obtain ⟨more, length, longest⟩ := @exists_numeral _ cs digit
    have reads := reads_numeralValue longest.here digit
    rw [length, List.take_succ_cons] at refused
    rw [refused] at reads
    cases reads with
    | tooLarge digits large =>
      exact .inr ⟨_, .numeral noSymbol longest, digits, large⟩
  | nothing noSymbol notStart notQuote notDigit =>
    refine .inl fun text munches => ?_
    rcases munches.head noSymbol with ⟨start, -⟩ | ⟨quote, -⟩ | ⟨digit, -⟩
    · exact notStart start
    · exact notQuote quote
    · exact notDigit digit

/-- A piece that can be read is taken. -/
theorem front_of_munches (munches : Munches (c :: cs) text) (fits : ¬ TooLarge text) :
    ∃ found, front c cs = .ok found ∧ c :: cs.take found.more = text := by
  cases result : front c cs with
  | ok found => exact ⟨found, rfl, (munches_of_front result).1.unique munches⟩
  | error fault =>
    rcases unreadable_of_front result with none | ⟨other, munches', tooLarge⟩
    · exact absurd munches (none text)
    · rw [munches'.unique munches] at tooLarge
      exact absurd tooLarge fits

theorem Munches.ne_nil (h : Munches cs text) : text ≠ [] := by
  rintro rfl
  cases h with
  | symbol longest => exact Symbol.not_nil longest.here
  | word _ longest => cases longest.here
  | quoted _ longest =>
    obtain ⟨body, -, same⟩ := longest.here
    cases same
  | numeral _ longest => exact longest.here.ne_nil rfl

/-- No piece begins with a gap. -/
theorem Munches.not_gap (h : Munches (c :: cs) text) : isGap c = false := by
  by_contra gap
  rw [Bool.not_eq_false] at gap
  simp only [isGap, Bool.or_eq_true, beq_iff_eq] at gap
  by_cases none : NoSymbol (c :: cs)
  · rcases h.head none with ⟨start, -⟩ | ⟨rfl, -⟩ | ⟨digit, -⟩
    · rcases gap with ((rfl | rfl) | rfl) | rfl <;> cases start
    · rcases gap with ((h | h) | h) | h <;> cases h
    · rcases gap with ((rfl | rfl) | rfl) | rfl <;> cases digit
  · cases h with
    | symbol longest =>
      obtain ⟨op, rfl⟩ := longest.here
      have first : ∀ op : Operator, op.symbol.toList.head?.all isGap = false := by
        intro op
        cases op <;> decide
      have front := longest.front
      have stops := first op
      generalize op.symbol.toList = text at front stops
      cases text with
      | nil => cases stops
      | cons d text =>
        obtain ⟨rfl, -⟩ := List.cons_prefix_cons.mp front
        rcases gap with ((rfl | rfl) | rfl) | rfl <;> cases stops
    | word none' _ | quoted none' _ | numeral none' _ => exact absurd none' none

end Reckoner.Lexeme
