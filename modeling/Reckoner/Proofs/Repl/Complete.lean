import Reckoner.Proofs.Expression.Causes
import Reckoner.Proofs.Expression.Checked
import Reckoner.Proofs.Lexeme.Readable
import Reckoner.Proofs.Repl.Patterns

/-!
When a line waits for more. What can be read to the end has no errors as a line, either, unless a number goes on
where a numeral has ended. So a line is complete if it is an expression, and waits for more if a parenthesis or a
text is still open.
-/
namespace Reckoner.Repl

open Lexeme (Readable)

variable {c : Char} {cs text rest run : List Char}

/-- Outside of texts a power of ten with a sign stands right behind a point. -/
def SignedPowerBehindPoint (cs : List Char) : Prop :=
  ∃ mark sign digit, Numeral.Mark mark ∧ Numeral.Sign sign ∧ sign ≠ [] ∧ digit.isDigit = true ∧
    '.' :: mark :: (sign ++ [digit]) <:+: outside false cs

section Readable

/-- Nothing but a symbol begins with an operator character. -/
private theorem operatorChar_begins (isOperator : Token.isOperatorChar c = true) :
    Lexeme.isGap c = false ∧ ¬ (Identifier.isStart c = true ∨ c = '"' ∨ c.isDigit = true) := by
  have chars : "-+*/%<>=!&|^~".toList = ['-', '+', '*', '/', '%', '<', '>', '=', '!', '&', '|', '^', '~'] := rfl
  have all : ['-', '+', '*', '/', '%', '<', '>', '=', '!', '&', '|', '^', '~'].all (fun c =>
      !Lexeme.isGap c && !(Identifier.isStart c || c == '"' || c.isDigit)) = true := by decide
  rw [Token.isOperatorChar, chars] at isOperator
  simpa [and_assoc] using List.all_eq_true.mp all c (List.contains_iff_mem.mp isOperator)

/-- A symbol that begins with an operator character consists of such characters. -/
private theorem symbol_operatorChars (op : Operator) :
    op.symbol.toList.head?.any Token.isOperatorChar = true → op.symbol.toList.all Token.isOperatorChar = true := by
  cases op <;> decide

/-- Operator characters are cut into symbols up to the last one. -/
private theorem readable_behind_operators (h : Readable (run ++ rest))
    (all : ∀ d ∈ run, Token.isOperatorChar d = true)
    (stop : rest.head?.all (fun d => !Token.isOperatorChar d) = true) : Readable rest := by
  induction count : run.length using Nat.strong_induction_on generalizing run with
  | _ n ih =>
    cases run with
    | nil => exact h
    | cons d run =>
      obtain ⟨first, others⟩ := List.forall_mem_cons.mp all
      obtain ⟨notGap, noOther⟩ := operatorChar_begins first
      obtain ⟨op, symbol, after, isSymbol, split, later⟩ := Readable.exists_symbol h notGap noOther
      have chars := symbol_operatorChars op (by rw [isSymbol]; exact first)
      rw [isSymbol, List.all_cons, Bool.and_eq_true, List.all_eq_true] at chars
      -- A symbol cannot reach behind the operator characters.
      obtain ⟨run, rfl⟩ : symbol <+: run :=
        prefix_of_prefix_append stop (fun a mem => by simp [chars.2 a mem]) ⟨after, split.symm⟩
      have same : run ++ rest = after := by
        have split : symbol ++ run ++ rest = symbol ++ after := split
        rwa [List.append_assoc, List.append_cancel_left_eq] at split
      rw [← same] at later
      refine ih run.length ?_ later (fun d mem => others d (List.mem_append_right _ mem)) rfl
      rw [← count, List.length_cons, List.length_append]
      omega

/-- What is left behind all characters that pass a test begins with one that does not. -/
private theorem stop_of_takeWhile {test : Char → Bool} (whole : c :: cs.takeWhile test ++ rest = c :: cs) :
    rest.head?.all (fun d => !test d) = true := by
  have left : rest = cs.dropWhile test := by
    refine @List.append_cancel_left _ (c :: cs.takeWhile test) _ _ (whole.trans ?_)
    rw [List.cons_append, List.takeWhile_append_dropWhile]
  have stops := List.head?_dropWhile_not test cs
  rw [left]
  cases head : (cs.dropWhile test).head? with
  | none => rfl
  | some d => simpa [head] using stops

/-- What can be read begins with a character that a line knows. -/
private theorem begins_of_readable (h : Readable (c :: cs)) : Lexeme.isGap c = true ∨
    (Identifier.isStart c = true ∨ c = '"' ∨ c.isDigit = true) ∨
      (c == '(' || c == ')' || c == ',' || Token.isOperatorChar c) = true := by
  have first : ∀ op : Operator, op.symbol.toList.head?.any (fun c =>
      c == '(' || c == ')' || c == ',' || Token.isOperatorChar c) = true := by
    intro op
    cases op <;> decide
  by_cases gap : Lexeme.isGap c = true
  · exact .inl gap
  by_cases other : Identifier.isStart c = true ∨ c = '"' ∨ c.isDigit = true
  · exact .inr (.inl other)
  · obtain ⟨op, symbol, after, isSymbol, -, -⟩ := h.exists_symbol (Bool.eq_false_iff.mpr gap) other
    have known := first op
    rw [isSymbol] at known
    exact .inr (.inr known)

private theorem readable_behind_gaps (h : Readable (run ++ rest)) (all : ∀ d ∈ run, Token.isGap d = true) :
    Readable rest := by
  induction run with
  | nil => exact h
  | cons d run ih =>
    obtain ⟨first, others⟩ := List.forall_mem_cons.mp all
    refine ih (h.behind_gap ?_) others
    have begins := begins_of_readable h
    simp only [Token.isGap, Bool.or_eq_true, beq_iff_eq] at first
    rcases first with (((rfl | rfl) | rfl) | rfl) | rfl
    · rfl
    · rfl
    · rfl
    · rfl
    · -- A form feed is no gap between lexemes.
      exact absurd begins (by decide)

/-- Behind a number that is longer than the numeral there a word goes on. -/
private theorem readable_behind_number (digit : c.isDigit = true) (whole : text ++ rest = c :: cs)
    (number : text = (c :: cs).take (Token.numberLength (c :: cs))) (h : Readable (c :: cs))
    (noPower : ¬ SignedPowerBehindPoint (c :: cs)) : Readable rest := by
  obtain ⟨more, length, longest⟩ := @Lexeme.exists_numeral c cs digit
  have munches := Lexeme.Munches.numeral (Lexeme.noSymbol_digit digit) longest
  rcases @Token.number_cases cs c digit with same | ⟨before, mark, sign, power, after, split, -, isMark, isSign,
    isPower, stops, numeral, number'⟩
  · rw [same, length, List.take_succ_cons] at number
    rw [← whole] at h munches
    rw [← number] at munches
    exact h.behind_piece munches
  · have unquoted : '"' ∉ text := fun mem => (Token.number_plain digit _ (number ▸ mem)).1 rfl
    rw [number'] at number
    obtain rfl : rest = after := by
      refine @List.append_cancel_left _ text _ _ ?_
      rw [whole, split, number]
      simp
    obtain rfl : sign = [] := by
      by_contra nonempty
      obtain ⟨d, digits, rfl⟩ := List.exists_cons_of_ne_nil isPower.1
      refine noPower ⟨mark, sign, d, isMark, isSign, nonempty, isPower.2 d List.mem_cons_self, ?_⟩
      rw [← whole, outside_append unquoted, number]
      exact ⟨before, digits ++ outside false rest, by simp⟩
    rw [← List.take_succ_cons, ← length, numeral] at munches
    rw [split] at h munches
    have behind : Readable (mark :: (power ++ rest)) := h.behind_piece munches
    refine behind.behind_word ?_ (fun d mem => ?_) stops
    · cases isMark <;> rfl
    · simp [Identifier.isContinue, Char.isAlphanum, isPower.2 d mem]

/-- A line that goes on where it can be read to the end has no error there. -/
private theorem readable_behind {token : Token} (takes : Token.Takes (text ++ rest) token text)
    (h : Readable (text ++ rest)) (noPower : ¬ SignedPowerBehindPoint (text ++ rest)) :
    token ≠ .error ∧ Readable rest := by
  generalize whole : text ++ rest = cs at takes
  cases takes with
  | @gap c cs gap =>
    refine ⟨by decide, readable_behind_gaps h ?_⟩
    exact List.forall_mem_cons.mpr ⟨gap, fun _ => List.mem_takeWhile_imp⟩
  | openGroup => exact ⟨by decide, h.behind_openGroup⟩
  | closeGroup => exact ⟨by decide, h.behind_mark (.inl rfl)⟩
  | comma => exact ⟨by decide, h.behind_mark (.inr rfl)⟩
  | number digit => exact ⟨by decide, readable_behind_number digit whole rfl (whole ▸ h) (whole ▸ noPower)⟩
  | @string body after free =>
    refine ⟨by decide, h.behind_piece ?_⟩
    rw [whole]
    exact Lexeme.munches_quote free
  | unclosed free => exact absurd (whole ▸ h).quote_behind free
  | word start =>
    refine ⟨Token.ofWord_ne.2.2, h.behind_piece ?_⟩
    rw [whole]
    exact Lexeme.munches_letter start
  | operator isOperator =>
    refine ⟨by decide, readable_behind_operators h ?_ (stop_of_takeWhile whole)⟩
    exact List.forall_mem_cons.mpr ⟨isOperator, fun _ => List.mem_takeWhile_imp⟩
  | @unknown c cs gap opens closes comma digit quote start isOperator =>
    rw [whole] at h
    have notGap : Lexeme.isGap c = false := by
      rw [Token.isGap, Bool.or_eq_false_iff] at gap
      exact gap.1
    have begins := begins_of_readable h
    simp [notGap, opens, closes, comma, digit, quote, start, isOperator] at begins

/-- A line that can be read to the end has no error. -/
private theorem noError_of_readable {pieces : List Piece} (cut : Token.Cut cs pieces) (h : Readable cs)
    (noPower : ¬ SignedPowerBehindPoint cs) : ∀ piece ∈ pieces, piece.token ≠ .error := by
  induction cut with
  | done => simp
  | @next token text after pieces takes _ ih =>
    obtain ⟨noError, later⟩ := readable_behind takes h noPower
    refine List.forall_mem_cons.mpr ⟨noError, ih later ?_⟩
    rintro ⟨mark, sign, digit, isMark, isSign, nonempty, isDigit, within⟩
    exact noPower ⟨mark, sign, digit, isMark, isSign, nonempty, isDigit,
      within.trans (takes.suffix noError).isInfix⟩

end Readable

section Complete

variable {line : String} {opened closed : Nat}

private theorem count_tokensOf (line : String) {token : Token} (notGap : token ≠ .gap) :
    (tokensOf line).count token = (Token.pieces line.toList).countP (·.token = token) := by
  rw [tokensOf_eq, List.count, List.countP_map, List.countP_filter]
  refine congrArg (List.countP · _) (funext fun piece => ?_)
  by_cases same : piece.token = token
  · simp [same, notGap]
  · simp [same]

private theorem error_mem_tokensOf :
    .error ∈ tokensOf line ↔ ¬ ∀ piece ∈ Token.pieces line.toList, piece.token ≠ .error := by
  rw [← List.count_pos_iff, count_tokensOf line (by decide), List.countP_pos_iff]
  simp

/-- Without errors the depth is the one that any other cut of the line says. -/
private theorem depth_of_noError (noError : ∀ piece ∈ Token.pieces line.toList, piece.token ≠ .error)
    (tally : Tally line.toList opened closed) : depthOf? (tokensOf line) = some (opened - closed) := by
  have same := tally.unique ((Token.cut_pieces line.toList).tally noError)
  have none : .error ∉ tokensOf line := fun mem => error_mem_tokensOf.mp mem noError
  simp only [depthOf?, List.contains_iff_mem, none, if_false, count_tokensOf line (show Token.openGroup ≠ .gap by decide),
    count_tokensOf line (show Token.closeGroup ≠ .gap by decide), Option.some.injEq]
  omega

/-- With errors a line is complete if its double quotes come in pairs. -/
private theorem isComplete_of_error (error : ¬ ∀ piece ∈ Token.pieces line.toList, piece.token ≠ .error) :
    isComplete line = decide (line.toList.count '"' % 2 = 0) := by
  have mem := error_mem_tokensOf.mpr error
  simp [isComplete, completes, depthOf?, mem]

/-- If as many parentheses are closed as are opened, the line is complete. -/
private theorem isComplete_of_tally (tally : Tally line.toList opened closed) (closes : opened = closed) :
    isComplete line = true := by
  by_cases noError : ∀ piece ∈ Token.pieces line.toList, piece.token ≠ .error
  · rw [isComplete, completes, depth_of_noError noError tally, closes, Nat.sub_self]
    rfl
  · rw [isComplete_of_error noError, tally.paired]
    rfl

/-- If more are opened, a line without errors waits for more. -/
private theorem not_isComplete_of_tally (tally : Tally line.toList opened closed) (opens : closed < opened)
    (noError : ∀ piece ∈ Token.pieces line.toList, piece.token ≠ .error) : isComplete line = false := by
  rw [isComplete, completes, depth_of_noError noError tally]
  exact decide_eq_false (by omega)

/-- An odd number of double quotes leaves a text that is not closed. -/
private theorem not_isComplete_of_odd (odd : line.toList.count '"' % 2 = 1) : isComplete line = false := by
  have error : ¬ ∀ piece ∈ Token.pieces line.toList, piece.token ≠ .error := by
    intro noError
    have paired := ((Token.cut_pieces line.toList).tally noError).paired
    omega
  rw [isComplete_of_error error, odd]
  rfl

end Complete

/-- Only reading finds that a text is not closed. -/
private theorem tokenize_of_unterminated {registry : Registry} {passLimit : Nat} {line : String}
    {error : CompileError} (failed : Expression.compileTree registry passLimit line = .error error)
    (unterminated : error.cause = .unterminatedString) : Lexeme.tokenize line = .error error := by
  rcases Expression.compileTree_error_cases failed with unread | ⟨_, _, unbalanced⟩ | other | other | other | other
  · exact unread
  · have causes := Lexeme.checkBracketsFrom_error unbalanced
    rw [unterminated] at causes
    rcases causes with balance | order
    · cases balance
    · cases order
  all_goals rw [unterminated] at other
  · cases other
  · cases other
  · cases other
  · cases other with
    | call miscalled => cases miscalled

/-- Only the check of the parentheses finds that one is not closed. -/
private theorem checkBrackets_of_balance {registry : Registry} {passLimit : Nat} {line : String}
    {error : CompileError} (failed : Expression.compileTree registry passLimit line = .error error)
    (balance : error.cause = .bracketBalance) :
    ∃ lexemes, Lexeme.tokenize line = .ok lexemes ∧ Lexeme.checkBrackets lexemes = .error error := by
  rcases Expression.compileTree_error_cases failed with unread | unbalanced | other | other | other | other
  · have misread := Lexeme.scan_error unread
    rw [balance] at misread
    cases misread
  · exact unbalanced
  all_goals rw [balance] at other
  · cases other
  · cases other
  · cases other
  · cases other with
    | call miscalled => cases miscalled

/-- A line without NUL that compiles is complete. One that is refused for a text or a parenthesis that is not closed
waits for more, but for a parenthesis only if outside of texts no power of ten with a sign stands right behind a
point. This does not depend on how tokens are found, if each is of the longest text with a pattern, or else an error. -/
theorem isComplete_agrees (registry : Registry) (passLimit : Nat) {line : String} (free : '\x00' ∉ line.toList) :
    (∀ expression, Expression.compile registry passLimit line = .ok expression → isComplete line = true) ∧
      (∀ error, Expression.compileTree registry passLimit line = .error error →
        (error.cause = .unterminatedString → isComplete line = false) ∧
          (error.cause = .bracketBalance → ¬ SignedPowerBehindPoint line.toList → isComplete line = false)) ∧
      Token.Lexed line.toList (tokensOf line) ∧
      ∀ tokens, Token.Lexed line.toList tokens → completes tokens line = isComplete line := by
  refine ⟨fun expression compiled => ?_, fun error failed => ⟨fun unterminated => ?_, fun balance noPower => ?_⟩,
    lexed_tokensOf line, fun tokens => completes_of_lexed⟩
  · obtain ⟨lexemes, classified, tree, stages⟩ := Expression.exists_stages compiled
    have closed := (Lexeme.count_of_checkBracketsFrom 0 none lexemes).1 (Lexeme.checkBrackets_of_classify stages.known)
    rw [Nat.zero_add] at closed
    exact isComplete_of_tally (Lexeme.tally_of_tokenize free stages.read) closed
  · have unread := tokenize_of_unterminated failed unterminated
    rw [Lexeme.tokenize, Lexeme.sourceChars_eq free] at unread
    exact not_isComplete_of_odd (Lexeme.odd_of_scan unread unterminated)
  · obtain ⟨lexemes, read, unbalanced⟩ := checkBrackets_of_balance failed balance
    have opened := (Lexeme.count_of_checkBracketsFrom 0 none lexemes).2 error unbalanced balance
    rw [Nat.zero_add] at opened
    exact not_isComplete_of_tally (Lexeme.tally_of_tokenize free read) opened
      (noError_of_readable (Token.cut_pieces _) (Lexeme.readable_of_tokenize free read) noPower)

/-- What is between double quotes counts neither for the parentheses nor as a power of ten. -/
theorem isComplete_agrees_lines :
    (∃ expression, Expression.compile .empty 9 "(\")\")" = .ok expression ∧ isComplete "(\")\")" = true) ∧
      (∃ error, Expression.compileTree .empty 9 "(2, \".e+5)" = .error error ∧ error.cause = .unterminatedString ∧
        isComplete "(2, \".e+5)" = false) ∧
      ∃ error, Expression.compileTree .empty 9 "(2, \".e+5)\"" = .error error ∧ error.cause = .bracketBalance ∧
        isComplete "(2, \".e+5)\"" = false := by
  have noPower : ¬ SignedPowerBehindPoint "(2, \".e+5)\"".toList := by
    rintro ⟨mark, sign, digit, -, -, -, -, within⟩
    have outer : outside false "(2, \".e+5)\"".toList = ['(', '2', ',', ' '] := by rfl
    rw [outer] at within
    exact absurd (within.subset List.mem_cons_self) (by decide)
  have complete : ∃ expression, Expression.compile .empty 9 "(\")\")" = .ok expression := ⟨_, by cbv⟩
  have quoted : ∃ error, Expression.compileTree .empty 9 "(2, \".e+5)" = .error error ∧
      error.cause = .unterminatedString := ⟨_, by cbv, by cbv⟩
  have opened : ∃ error, Expression.compileTree .empty 9 "(2, \".e+5)\"" = .error error ∧
      error.cause = .bracketBalance := ⟨_, by cbv, by cbv⟩
  obtain ⟨expression, compiled⟩ := complete
  obtain ⟨error, unread, unterminated⟩ := quoted
  obtain ⟨error', unbalanced, balance⟩ := opened
  exact ⟨⟨expression, compiled, (isComplete_agrees .empty 9 (by decide)).1 expression compiled⟩,
    ⟨error, unread, unterminated, ((isComplete_agrees .empty 9 (by decide)).2.1 error unread).1 unterminated⟩,
    error', unbalanced, balance, ((isComplete_agrees .empty 9 (by decide)).2.1 error' unbalanced).2 balance noPower⟩

/-- The lexemes of a line in which a number goes on behind a bare point. -/
private theorem tokenize_bare_point : Lexeme.tokenize "(1.e+5.5" =
    .ok [⟨"(", ⟨0, 1⟩, 0, Lexeme.kindOf ['(']⟩, ⟨"1.", ⟨1, 3⟩, 1, Lexeme.kindOf ['1', '.']⟩,
      ⟨"e", ⟨3, 4⟩, 2, Lexeme.kindOf ['e']⟩, ⟨"+", ⟨4, 5⟩, 3, Lexeme.kindOf ['+']⟩,
      ⟨"5.5", ⟨5, 8⟩, 4, Lexeme.kindOf ['5', '.', '5']⟩] := by
  have fits (text : List Char) (c : Char) (mem : c ∈ text) (notDigit : c.isDigit = false) :
      ¬ Lexeme.TooLarge text := fun large => by
    rw [large.1.2 c mem] at notDigit
    cases notDigit
  have number {c : Char} {cs : List Char} (digit : c.isDigit = true) :
      Lexeme.Munches (c :: cs) ((c :: cs).take (Numeral.lengthAtFront (c :: cs))) := by
    obtain ⟨more, length, longest⟩ := @Lexeme.exists_numeral c cs digit
    rw [length, List.take_succ_cons]
    exact .numeral (Lexeme.noSymbol_digit digit) longest
  have group : Lexeme.Munches (['('] ++ (['1', '.'] ++ (['e'] ++ (['+'] ++ ['5', '.', '5'])))) ['('] :=
    Lexeme.munches_symbol_digit .openGroup rfl
  have bare : Lexeme.Munches (['1', '.'] ++ (['e'] ++ (['+'] ++ ['5', '.', '5']))) ['1', '.'] := number rfl
  have word : Lexeme.Munches (['e'] ++ (['+'] ++ ['5', '.', '5'])) ['e'] := Lexeme.munches_letter rfl
  have sign : Lexeme.Munches (['+'] ++ ['5', '.', '5']) ['+'] := Lexeme.munches_symbol_digit .addition rfl
  have last : Lexeme.Munches ['5', '.', '5'] ['5', '.', '5'] := number rfl
  have split : "(1.e+5.5".toList = ['('] ++ (['1', '.'] ++ (['e'] ++ (['+'] ++ ['5', '.', '5']))) := rfl
  rw [Lexeme.tokenize, Lexeme.sourceChars_eq (by decide), split,
    Lexeme.scan_piece group (fits _ '(' (by decide) rfl), Lexeme.scan_piece bare (fits _ '.' (by decide) rfl),
    Lexeme.scan_piece word (fits _ 'e' (by decide) rfl), Lexeme.scan_piece sign (fits _ '+' (by decide) rfl),
    Lexeme.scan_last last (fits _ '.' (by decide) rfl)]
  rfl

/-- Behind a bare point a number goes on with a power of ten and leaves the next point alone, which is an error. So
the line is taken as complete, although its parenthesis is open. -/
theorem open_parenthesis_complete :
    (∃ error, Expression.compileTree .empty 9 "(1.e+5.5" = .error error ∧ error.cause = .bracketBalance) ∧
      SignedPowerBehindPoint "(1.e+5.5".toList ∧ isComplete "(1.e+5.5" = true := by
  have split : "(1.e+5.5".toList = ['(', '1', '.', 'e', '+', '5', '.', '5'] := rfl
  refine ⟨?_, ⟨'e', ['+'], '5', .lower, .plus, by decide, rfl, ['(', '1'], ['.', '5'], rfl⟩, ?_⟩
  · refine ⟨CompileError.Cause.atSpan .bracketBalance ⟨0, 1⟩, ?_, rfl⟩
    simp only [Expression.compileTree, Expression.parse, tokenize_bare_point]
    rfl
  · rw [isComplete, completes, tokensOf_eq]
    simp [depthOf?, split, Token.pieces, Token.atFront, Token.isGap, Token.numberLength, Token.powerLength,
      Identifier.isStart, Token.isOperatorChar]

end Reckoner.Repl
