import Reckoner.Proofs.Repl.Pieces

/-!
The patterns of tokens. The piece at a place is the longest text there that is of any pattern, and an error where no
text is. This leaves open which of two patterns of the same text is taken and how a line goes on behind an error, but
not how many parentheses are open.
-/
namespace Reckoner.Repl

namespace Token

/-- The texts of a token. -/
def Pattern : Token → List Char → Prop
  | gap, text => text ≠ [] ∧ ∀ c ∈ text, isGap c = true
  | openGroup, text => text = ['(']
  | closeGroup, text => text = [')']
  | comma, text => text = [',']
  | typeName, text => String.ofList text ∈ ["bool", "int", "float", "string"]
  | bool, text => String.ofList text ∈ ["true", "false"]
  | number, text => Number text
  | string, text => Lexeme.Quoted text
  | identifier, text => Lexeme.Word text
  | operator, text => text ≠ [] ∧ ∀ c ∈ text, isOperatorChar c = true
  | error, _ => False

/-- The text is of a pattern. -/
def Declared (text : List Char) : Prop :=
  ∃ token, Pattern token text

/-- The tokens of a line are of its longest texts with a pattern, without gaps, up to an error where no text has one.
Anything may stand behind an error. -/
inductive Lexed : List Char → List Token → Prop where
  | done : Lexed [] []
  | gap {cs text : List Char} {tokens : List Token} : Longest Declared cs text → Pattern .gap text →
      Lexed (cs.drop text.length) tokens → Lexed cs tokens
  | token {cs text : List Char} {token : Token} {tokens : List Token} : Longest Declared cs text →
      Pattern token text → token ≠ .gap → Lexed (cs.drop text.length) tokens → Lexed cs (token :: tokens)
  | error {cs : List Char} {tokens : List Token} : cs ≠ [] → (∀ text, text <+: cs → ¬ Declared text) →
      Lexed cs (.error :: tokens)

variable {c : Char} {cs text : List Char} {token other : Token}

section Patterns

/-- The words of the language are identifiers, too. -/
def shape : Token → Token
  | typeName | bool => identifier
  | token => token

theorem Pattern.shape (h : Pattern token text) : Pattern token.shape text := by
  have word {words : List String} (mem : String.ofList text ∈ words)
      (all : ∀ word ∈ words, Lexeme.Word word.toList) : Lexeme.Word text := by
    simpa using all _ mem
  cases token with
  | typeName => exact word h (by simp [Lexeme.Word]; decide)
  | bool => exact word h (by simp [Lexeme.Word]; decide)
  | _ => exact h

theorem Pattern.ne_nil (h : Pattern token text) : text ≠ [] := by
  rintro rfl
  cases token with
  | gap | operator => exact h.1 rfl
  | number => exact h.ne_nil rfl
  | string =>
    obtain ⟨body, -, same⟩ := h
    cases same
  | typeName | bool => simp [Pattern] at h
  | _ => cases h

/-- The test of the first character of a token's texts. -/
private def begins : Token → Char → Bool
  | gap => isGap
  | openGroup => (· == '(')
  | closeGroup => (· == ')')
  | comma => (· == ',')
  | number => Char.isDigit
  | string => (· == '"')
  | typeName | bool | identifier => Identifier.isStart
  | operator => isOperatorChar
  | error => fun _ => false

private theorem Pattern.begins (h : Pattern token (c :: cs)) : token.begins c = true := by
  cases token with
  | gap | operator => exact h.2 c List.mem_cons_self
  | openGroup | closeGroup | comma =>
    cases h
    rfl
  | number =>
    generalize whole : c :: cs = text at h
    obtain ⟨isDigits, -⟩ := h
    obtain ⟨first, more, rfl⟩ := List.exists_cons_of_ne_nil isDigits.1
    cases whole
    exact isDigits.2 c List.mem_cons_self
  | string =>
    obtain ⟨_, -, same⟩ := h
    cases same
    rfl
  | typeName | bool | identifier => exact (Lexeme.word_cons.mp h.shape).1
  | error => cases h

/-- The characters that begin a token but neither a number nor a word. -/
private def marks : List Char :=
  [' ', '\t', '\r', '\n', '\x0c', '(', ')', ',', '"', '-', '+', '*', '/', '%', '<', '>', '=', '!', '&', '|', '^', '~']

private theorem begins_cases (h : token.begins c = true) :
    c ∈ marks ∨ token.shape = .number ∧ c.isDigit = true ∨ token.shape = .identifier ∧ Identifier.isStart c = true := by
  cases token with
  | number => exact .inr (.inl ⟨rfl, h⟩)
  | typeName | bool | identifier => exact .inr (.inr ⟨rfl, h⟩)
  | operator =>
    have chars : "-+*/%<>=!&|^~".toList = ['-', '+', '*', '/', '%', '<', '>', '=', '!', '&', '|', '^', '~'] := rfl
    simp only [Token.begins, isOperatorChar, chars, List.contains_iff_mem] at h
    exact .inl (List.mem_of_mem_drop (i := 9) h)
  | gap =>
    simp only [Token.begins, isGap, Bool.or_eq_true, beq_iff_eq] at h
    rcases h with (((rfl | rfl) | rfl) | rfl) | rfl <;> simp [marks]
  | openGroup | closeGroup | comma | string =>
    simp only [Token.begins, beq_iff_eq] at h
    simp [marks, h]
  | error => cases h

private def all : List Token :=
  [gap, openGroup, closeGroup, comma, typeName, bool, number, string, identifier, operator, error]

private theorem eq_of_mark (mark : c ∈ marks) (one : token.begins c = true) (two : other.begins c = true) :
    token = other := by
  have alone : marks.all (fun c => (all.filter (·.begins c)).length = 1) = true := by decide
  have mem (token : Token) (begins : token.begins c = true) : token ∈ all.filter (·.begins c) :=
    List.mem_filter.mpr ⟨by cases token <;> decide, begins⟩
  obtain ⟨only, isOnly⟩ := List.length_eq_one_iff.mp (of_decide_eq_true (List.all_eq_true.mp alone c mark))
  have one := mem token one
  have two := mem other two
  rw [isOnly, List.mem_singleton] at one two
  rw [one, two]

/-- The first character of a text tells its pattern, but for words. -/
private theorem shape_unique (one : token.begins c = true) (two : other.begins c = true) :
    token.shape = other.shape := by
  rcases begins_cases one with mark | ⟨shape, digit⟩ | ⟨shape, start⟩
  · rw [eq_of_mark mark one two]
  · rcases begins_cases two with mark | ⟨shape', -⟩ | ⟨-, start⟩
    · rw [eq_of_mark mark one two]
    · rw [shape, shape']
    · exact absurd start (Lexeme.not_start_of_digit digit)
  · rcases begins_cases two with mark | ⟨-, digit⟩ | ⟨shape', -⟩
    · rw [eq_of_mark mark one two]
    · exact absurd start (Lexeme.not_start_of_digit digit)
    · rw [shape, shape']

theorem Pattern.shape_eq (one : Pattern token text) (two : Pattern other text) : token.shape = other.shape := by
  obtain ⟨c, cs, rfl⟩ := List.exists_cons_of_ne_nil one.ne_nil
  exact shape_unique one.begins two.begins

end Patterns

section Longest

private theorem shape_ofWord (word : List Char) : (ofWord word).shape = .identifier := by
  simp only [ofWord]
  split_ifs <;> rfl

private theorem pattern_ofWord {word : List Char} (isWord : Lexeme.Word word) : Pattern (ofWord word) word := by
  simp only [ofWord]
  split_ifs with truth name
  · simpa [Pattern] using truth
  · simpa [Pattern, or_assoc] using name
  · exact isWord

private theorem longest_run {test : Char → Bool} (first : test c = true) :
    Longest (fun text => text ≠ [] ∧ ∀ d ∈ text, test d = true) (c :: cs) (c :: cs.takeWhile test) :=
  .takeWhile (by simp [first]) (by simp)

/-- A piece that is no error is of its pattern, and no longer text is, not even of another word. -/
private theorem Takes.longest (takes : Takes cs token text) (noError : token ≠ .error) :
    Pattern token text ∧ Longest (Pattern token.shape) cs text := by
  have single (token : Token) (text after : List Char) (only : ∀ other, Pattern token other ↔ other = text) :
      Pattern token text ∧ Longest (Pattern token) (text ++ after) text :=
    ⟨(only _).mpr rfl, List.prefix_append _ _, (only _).mpr rfl, fun other _ held => by rw [(only other).mp held]⟩
  cases takes with
  | gap gap => exact ⟨(longest_run gap).here, longest_run gap⟩
  | operator isOperator => exact ⟨(longest_run isOperator).here, longest_run isOperator⟩
  | openGroup => exact single .openGroup _ _ fun _ => .rfl
  | closeGroup => exact single .closeGroup _ _ fun _ => .rfl
  | comma => exact single .comma _ _ fun _ => .rfl
  | number digit => exact ⟨(longest_number digit _).here, longest_number digit _⟩
  | @string body after free =>
    have longest := @Lexeme.longest_quote body after free
    exact ⟨longest.here, longest⟩
  | @word c cs start =>
    have longest := @Lexeme.longest_word c cs start
    rw [shape_ofWord]
    exact ⟨pattern_ofWord longest.here, longest⟩
  | unclosed | unknown => exact absurd rfl noError

/-- A piece that is no error is the longest text with a pattern. -/
theorem Takes.matched (takes : Takes cs token text) (noError : token ≠ .error) :
    Longest Declared cs text ∧ Pattern token text := by
  obtain ⟨isPattern, longest⟩ := takes.longest noError
  refine ⟨⟨longest.front, ⟨token, isPattern⟩, ?_⟩, isPattern⟩
  rintro other front ⟨token', isPattern'⟩
  obtain ⟨c, tail, rfl⟩ := List.exists_cons_of_ne_nil isPattern.ne_nil
  obtain ⟨c', tail', rfl⟩ := List.exists_cons_of_ne_nil isPattern'.ne_nil
  obtain ⟨rest, rfl⟩ := longest.front
  obtain ⟨rfl, -⟩ := List.cons_prefix_cons.mp front
  have same := shape_unique isPattern'.begins isPattern.begins
  exact longest.most _ front (same ▸ isPattern'.shape)

private theorem Takes.ne_nil (takes : Takes cs token text) : cs ≠ [] := by
  cases takes <;> simp

/-- Where an error is taken no text has a pattern. -/
theorem Takes.unmatched (takes : Takes cs .error text) (other : List Char) (front : other <+: cs) : ¬ Declared other := by
  rintro ⟨token, isPattern⟩
  obtain ⟨c, tail, rfl⟩ := List.exists_cons_of_ne_nil isPattern.ne_nil
  have begins := isPattern.begins
  generalize isError : Token.error = found at takes
  cases takes with
  | unclosed free =>
    obtain ⟨rfl, within⟩ := List.cons_prefix_cons.mp front
    have quote : Token.begins .string '"' = true := rfl
    have shape := isPattern.shape
    rw [shape_unique begins quote] at shape
    obtain ⟨body, -, same⟩ := shape
    cases same
    exact free (within.subset (by simp))
  | unknown gap opens closes comma digit quote start isOperator =>
    obtain ⟨rfl, -⟩ := List.cons_prefix_cons.mp front
    cases token <;> simp_all [Token.begins]
  | word => exact ofWord_ne.2.2 isError.symm
  | _ => cases isError

end Longest

section Tokens

/-- The pieces without the gaps are tokens of the patterns. -/
theorem Cut.lexed {pieces : List Piece} (cut : Cut cs pieces) :
    Lexed cs ((pieces.filter (·.token ≠ gap)).map (·.token)) := by
  induction cut with
  | done => exact .done
  | @next token text after pieces takes _ ih =>
    by_cases isError : token = .error
    · subst isError
      exact .error takes.ne_nil takes.unmatched
    · obtain ⟨longest, isPattern⟩ := takes.matched isError
      rw [← @List.drop_left _ text after] at ih
      by_cases isGap : token = gap
      · subst isGap
        exact .gap longest isPattern ih
      · have kept : decide (token ≠ gap) = true := decide_eq_true isGap
        simp only [List.filter_cons, kept, if_true, List.map_cons]
        exact .token longest isPattern isGap ih

/-- Either both lists of tokens have an error, or neither has, and the parentheses are the same. -/
private def Agree (tokens others : List Token) : Prop :=
  (error ∈ tokens ∧ error ∈ others) ∨ (error ∉ tokens ∧ error ∉ others ∧
    tokens.count openGroup = others.count openGroup ∧ tokens.count closeGroup = others.count closeGroup)

private theorem shape_self (noWord : token.shape ≠ .identifier) : token.shape = token := by
  cases token with
  | typeName | bool | identifier => exact absurd rfl noWord
  | _ => rfl

private theorem eq_of_shape {only : Token} (same : token.shape = only.shape) (noWord : only.shape ≠ .identifier) :
    token = only := by
  have self : only.shape = only := shape_self noWord
  rw [← same] at noWord self
  rw [← shape_self noWord, self]

private theorem Agree.cons {tokens others : List Token} (agree : Agree tokens others) (same : token.shape = other.shape) :
    Agree (token :: tokens) (other :: others) := by
  have equal (only : Token) (noWord : only.shape ≠ .identifier) : token = only ↔ other = only :=
    ⟨fun is => (eq_of_shape (is ▸ same).symm noWord), fun is => eq_of_shape (is ▸ same) noWord⟩
  rcases agree with ⟨mem, mem'⟩ | ⟨none, none', opens, closes⟩
  · exact .inl ⟨List.mem_cons_of_mem _ mem, List.mem_cons_of_mem _ mem'⟩
  by_cases isError : token = .error
  · exact .inl ⟨by simp [isError], by simp [(equal .error (by decide)).mp isError]⟩
  · have noError := mt (equal .error (by decide)).mpr isError
    refine .inr ⟨by simp [none, Ne.symm isError], by simp [none', Ne.symm noError], ?_, ?_⟩
    · simp only [List.count_cons, opens, beq_iff_eq, equal .openGroup (by decide)]
    · simp only [List.count_cons, closes, beq_iff_eq, equal .closeGroup (by decide)]

/-- A line has no different tokens as far as the parentheses in front of an error go. -/
private theorem Lexed.agree {tokens others : List Token} (one : Lexed cs tokens) (two : Lexed cs others) :
    Agree tokens others := by
  induction one generalizing others with
  | done =>
    cases two with
    | done => exact .inr ⟨nofun, nofun, rfl, rfl⟩
    | gap longest isPattern _ | token longest isPattern _ _ =>
      exact absurd (List.prefix_nil.mp longest.front) isPattern.ne_nil
    | error nonempty _ => exact absurd rfl nonempty
  | gap longest isGap _ ih =>
    cases two with
    | done => exact absurd (List.prefix_nil.mp longest.front) isGap.ne_nil
    | gap longest' _ later =>
      rw [longest.unique longest'] at ih
      exact ih later
    | token longest' isPattern notGap _ =>
      rw [← longest.unique longest'] at isPattern
      exact absurd (eq_of_shape (isPattern.shape_eq isGap) (by decide)) notGap
    | error _ none => exact absurd longest.here (none _ longest.front)
  | token longest isPattern notGap _ ih =>
    cases two with
    | done => exact absurd (List.prefix_nil.mp longest.front) isPattern.ne_nil
    | gap longest' isGap _ =>
      rw [← longest.unique longest'] at isGap
      exact absurd (eq_of_shape (isPattern.shape_eq isGap) (by decide)) notGap
    | token longest' isPattern' _ later =>
      rw [longest.unique longest'] at ih isPattern
      exact (ih later).cons (isPattern.shape_eq isPattern')
    | error _ none => exact absurd longest.here (none _ longest.front)
  | error nonempty none =>
    cases two with
    | done => exact absurd rfl nonempty
    | gap longest _ _ | token longest _ _ _ => exact absurd longest.here (none _ longest.front)
    | error _ _ => exact .inl ⟨List.mem_cons_self, List.mem_cons_self⟩

private theorem filterMap_withSpans (offset : Nat) (pieces : List Piece) :
    ((withSpans offset pieces).filterMap fun (piece, span) =>
      if piece.token = gap then none else some (piece.token, span)).map (·.1) =
      (pieces.filter (·.token ≠ gap)).map (·.token) := by
  induction pieces generalizing offset with
  | nil => rfl
  | cons piece rest ih =>
    simp only [withSpans, List.filterMap_cons, List.filter_cons]
    by_cases isGap : piece.token = gap <;> simp [isGap, ih]

end Tokens

end Token

theorem tokensOf_eq (line : String) :
    tokensOf line = ((Token.pieces line.toList).filter (·.token ≠ .gap)).map (·.token) :=
  Token.filterMap_withSpans 0 _

/-- The tokens of a line are of the patterns. -/
theorem lexed_tokensOf (line : String) : Token.Lexed line.toList (tokensOf line) := by
  rw [tokensOf_eq]
  exact (Token.cut_pieces line.toList).lexed

/-- Whatever tokens of the patterns are found in a line, they say the same about it. -/
theorem completes_of_lexed {line : String} {tokens : List Token} (lexed : Token.Lexed line.toList tokens) :
    completes tokens line = isComplete line := by
  have same : depthOf? tokens = depthOf? (tokensOf line) := by
    rcases lexed.agree (lexed_tokensOf line) with ⟨mem, mem'⟩ | ⟨none, none', opens, closes⟩
    · simp [depthOf?, mem, mem']
    · simp [depthOf?, none, none', opens, closes]
  rw [isComplete, completes, completes, same]

end Reckoner.Repl
