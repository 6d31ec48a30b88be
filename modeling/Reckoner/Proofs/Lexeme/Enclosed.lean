import Reckoner.Proofs.Lexeme.Outside
import Reckoner.Proofs.Lexeme.Readable
import Reckoner.Proofs.Lexeme.Settled
import Reckoner.Proofs.Lexeme.Viewed
import Reckoner.Proofs.Span

/-!
A source between parentheses. Unless it makes a cast together with them, its lexemes stand between theirs, and they are
classified as they are without these: a parenthesis is neither a variable, which a step could belong to, nor the end of
an operand.
-/
namespace Reckoner

/-- How a source is seen from the one that has parentheses around it: behind one byte, one lexeme and one list. -/
def View.enclosed (source : String) : View :=
  ⟨.keep, Span.moved 1, 1, 1, "(" ++ source ++ ")", Span.moved_cover 1⟩

namespace Lexeme

/-- The lexeme is this mark of punctuation. -/
abbrev IsMark (lexeme : Lexeme) (op : Operator) : Prop :=
  lexeme.kind = .operator (.ofOperator op)

theorem IsMark.isOperatorOf_eq {lexeme : Lexeme} {op : Operator} (isMark : lexeme.IsMark op) (other : Operator) :
    lexeme.isOperatorOf other = (op == other) := by
  rw [isOperatorOf, occurrence?, isMark]
  rfl

theorem IsMark.opensGroup {lexeme : Lexeme} (isMark : lexeme.IsMark .openGroup) : lexeme.opensGroup = true :=
  isMark.isOperatorOf_eq .openGroup

theorem IsMark.closesGroup {lexeme : Lexeme} (isMark : lexeme.IsMark .closeGroup) :
    lexeme.opensGroup = false ∧ lexeme.closesGroup = true :=
  ⟨isMark.isOperatorOf_eq .openGroup, isMark.isOperatorOf_eq .closeGroup⟩

/-- So many parentheses are open in front of the lexemes, and they close all of them. -/
def Closes (depth : Nat) (lexemes : List Lexeme) : Prop :=
  ∃ firstOpen, checkBracketsFrom depth firstOpen lexemes = .ok ()

variable {cs text before after word : List Char} {position depth : Nat} {lexeme opening closing : Lexeme}
  {lexemes others : List Lexeme} {source : String}

section Scanning

private theorem Word.plain (isWord : Word word) : ∀ c ∈ word, c ≠ '"' ∧ c ≠ '(' ∧ c ≠ ')' :=
  fun c mem => ne_of_isContinue (isWord.isContinue c mem)

private theorem not_tooLarge_opening : ¬ TooLarge ['('] :=
  Symbol.not_tooLarge ⟨.openGroup, rfl⟩

private theorem not_tooLarge_closing : ¬ TooLarge [')'] :=
  Symbol.not_tooLarge ⟨.closeGroup, rfl⟩

/-- What is taken is taken again with a parenthesis behind everything, if this does not make a symbol of it all. -/
private theorem Munches.concat (munches : Munches cs text) (noSymbol : ¬ Symbol (cs ++ [')'])) :
    Munches (cs ++ [')']) text := by
  have none (none : NoSymbol cs) : NoSymbol (cs ++ [')']) := by
    intro other front
    rcases List.prefix_concat_iff.mp front with rfl | within
    · exact noSymbol
    · exact none other within
  have mem : ')' ∈ cs ++ [')'] := by simp
  cases munches with
  | symbol longest => exact .symbol (longest.concat noSymbol)
  | word noSymbol longest => exact .word (none noSymbol) (longest.concat fun isWord => (Word.plain isWord _ mem).2.2 rfl)
  | quoted noSymbol longest =>
    refine .quoted (none noSymbol) (longest.concat ?_)
    rintro ⟨body, -, same⟩
    have last := congrArg List.getLast? same
    rw [← List.cons_append, List.getLast?_concat, List.getLast?_concat] at last
    cases last
  | numeral noSymbol longest =>
    exact .numeral (none noSymbol) (longest.concat fun literal => (literal.plain _ mem).2.2 rfl)

private theorem Closes.tail (h : Closes depth (lexeme :: lexemes)) : ∃ depth, Closes depth lexemes := by
  obtain ⟨firstOpen, checked⟩ := h
  rw [checkBracketsFrom.eq_def] at checked
  simp only at checked
  split at checked
  · exact ⟨_, _, checked⟩
  split at checked
  · split at checked
    · cases checked
    · exact ⟨_, _, checked⟩
  · exact ⟨_, _, checked⟩

/-- An opening parenthesis with only a word behind it stays open. -/
private theorem Cut.ne_opened {gap : List Char} (cut : Cut before position (gap ++ cs) lexemes)
    (blank : ∀ c ∈ gap, isGap c = true) (closes : Closes depth lexemes) (isWord : Word word) : cs ≠ '(' :: word := by
  rintro rfl
  obtain ⟨firstOpen, checked⟩ := closes
  have count := (count_of_checkBracketsFrom depth firstOpen lexemes).1 checked
  have tally : Tally (gap ++ (['('] ++ (word ++ []))) (1 + 0) (0 + 0) :=
    .plain (.append (.plain .nil (Word.plain isWord)) (by simp) rfl) fun c mem => ne_of_isGap (blank c mem)
  rw [List.append_nil] at tally
  have same := cut.tally.unique tally
  omega

/-- A parenthesis behind lexemes that leave none open becomes one more lexeme. -/
private theorem scan_concat (source : String) (cut : Cut before position cs lexemes) (closes : Closes depth lexemes) :
    ∃ closing : Lexeme, closing.IsMark .closeGroup ∧ scan (Span.bytes before + 1) (position + 1) (cs ++ [')']) =
      .ok (lexemes.map (viewed (.enclosed source)) ++ [closing]) := by
  induction cut generalizing depth with
  | done blank =>
    rw [scan_gap blank, scan_last munches_closeGroup not_tooLarge_closing]
    exact ⟨_, by exact kindOf_symbol .closeGroup, rfl⟩
  | @next before gap text after position lexemes blank munches fits later ih =>
    obtain ⟨_, closes'⟩ := closes.tail
    obtain ⟨closing, isClosing, ran⟩ := ih closes'
    -- Only a cast could take the parenthesis, but then the one that it begins with would stay open.
    have noSymbol : ¬ Symbol (text ++ after ++ [')']) := by
      rintro ⟨op, isSymbol⟩
      rcases parenthesis_or_cast op (.inr (by simp [← isSymbol])) with rfl | rfl | ⟨word, isWord, isCast⟩
      · have last := congrArg List.getLast? isSymbol
        rw [List.getLast?_concat] at last
        cases last
      · have none : text ++ after = [] := @List.append_cancel_right _ (text ++ after) [')'] [] isSymbol
        exact munches.ne_nil (List.append_eq_nil_iff.mp none).1
      · rw [← isSymbol, ← List.cons_append] at isCast
        exact (Cut.next blank munches fits later).ne_opened blank closes isWord (List.append_cancel_right isCast)
    have taken := munches.concat noSymbol
    rw [List.append_assoc] at taken
    have starts : Span.bytes before + 1 + Span.bytes gap = Span.bytes (before ++ gap) + 1 := by
      rw [Span.bytes_append, Nat.add_right_comm]
    have stops : Span.bytes (before ++ gap) + 1 + Span.bytes text = Span.bytes (before ++ gap ++ text) + 1 := by
      rw [Span.bytes_append _ text, Nat.add_right_comm]
    refine ⟨closing, isClosing, ?_⟩
    rw [List.append_assoc, List.append_assoc, scan_gap blank, scan_piece taken fits, starts, stops, ran, List.map_cons,
      viewed, View.enclosed, Kind.relabel_keep, Span.bytes_append _ text]
    rfl

/-- A source that begins with a word and a parenthesis closes one that is not open. -/
private theorem ne_closed {offset : Nat} (read : scan offset position cs = .ok lexemes) (closes : Closes 0 lexemes)
    (isWord : Word word) : cs ≠ word ++ ([')'] ++ after) := by
  rintro rfl
  obtain ⟨firstOpen, checked⟩ := closes
  rw [scan_piece (munches_word isWord rfl) isWord.not_tooLarge] at read
  split at read
  · next rest ran =>
    cases read
    rw [scan_piece munches_closeGroup not_tooLarge_closing] at ran
    split at ran
    · cases ran
      have opens : word ≠ ['('] := by
        rintro rfl
        cases isWord
      have closes : word ≠ [')'] := by
        rintro rfl
        cases isWord
      have differ : [')'] ≠ ['('] := by decide
      rw [checkBracketsFrom, if_neg (mt opensGroup_iff.mp opens), if_neg (mt closesGroup_iff.mp closes),
        checkBracketsFrom, if_neg (mt opensGroup_iff.mp differ), if_pos (closesGroup_iff.mpr rfl)] at checked
      cases checked
    · cases ran
  · cases read

/-- A parenthesis in front of a source that leaves none open is taken alone, unless the source makes a cast. -/
private theorem munches_opening {offset : Nat} (noCast : ¬ Symbol ('(' :: (cs ++ [')'])))
    (read : scan offset position cs = .ok lexemes) (closes : Closes 0 lexemes) :
    Munches ('(' :: (cs ++ [')'])) ['('] := by
  refine .symbol ⟨by simp, ⟨.openGroup, rfl⟩, ?_⟩
  rintro _ front ⟨op, rfl⟩
  rcases List.prefix_cons_iff.mp front with none | ⟨rest, isSymbol, front⟩
  · simp [none]
  rcases parenthesis_or_cast op (.inl (by simp [isSymbol])) with rfl | rfl | ⟨word, isWord, isCast⟩
  · exact Nat.le_refl 1
  · cases isSymbol
  · rw [isSymbol, List.cons_inj_right] at isCast
    subst isCast
    rcases List.prefix_concat_iff.mp front with whole | ⟨rest, split⟩
    · rw [whole] at isSymbol
      exact absurd ⟨op, isSymbol.symm⟩ noCast
    · rw [List.append_assoc] at split
      exact absurd split.symm (ne_closed read closes isWord)

/-- Only the names of types make casts between parentheses. -/
private theorem noSymbol_enclosed (noType : source ∉ ["bool", "int", "float", "string"]) :
    ¬ Symbol ('(' :: (source.toList ++ [')'])) := by
  have known : ∀ op : Operator, op.symbol.toList.head? = some '(' → op.symbol.toList.getLast? = some ')' →
      String.ofList op.symbol.toList.tail.dropLast ∈ ["bool", "int", "float", "string"] := by
    intro op
    cases op <;> decide
  rintro ⟨op, isSymbol⟩
  have isType := known op (by rw [← isSymbol]; rfl) (by rw [← isSymbol, ← List.cons_append, List.getLast?_concat])
  rw [← isSymbol, List.tail_cons, List.dropLast_concat, String.ofList_toList] at isType
  exact noType isType

/-- A source that is not the name of a type has its lexemes between those of the parentheses around it. -/
theorem tokenize_enclosed (free : '\x00' ∉ source.toList) (noType : source ∉ ["bool", "int", "float", "string"])
    (read : tokenize source = .ok lexemes) (balanced : checkBrackets lexemes = .ok ()) :
    ∃ opening closing : Lexeme, opening.IsMark .openGroup ∧ closing.IsMark .closeGroup ∧
      tokenize ("(" ++ source ++ ")") =
        .ok (opening :: (lexemes.map (viewed (.enclosed source)) ++ [closing])) := by
  have whole : ("(" ++ source ++ ")").toList = '(' :: (source.toList ++ [')']) := by
    simp
  have free' : '\x00' ∉ ("(" ++ source ++ ")").toList := by
    simp [whole, free]
  rw [tokenize, sourceChars_eq free] at read
  have cut : Cut [] 0 source.toList lexemes := cut_of_scan read
  have opened := munches_opening (noSymbol_enclosed noType) read ⟨none, balanced⟩
  obtain ⟨closing, isClosing, ran⟩ := scan_concat source cut ⟨none, balanced⟩
  have taken := @scan_piece ['('] (source.toList ++ [')']) opened not_tooLarge_opening 0 0
  have start : 0 + Span.bytes ['('] = Span.bytes [] + 1 := rfl
  rw [start, ran] at taken
  rw [tokenize, sourceChars_eq free', whole]
  exact ⟨_, closing, by exact kindOf_symbol .openGroup, isClosing, taken⟩

end Scanning

section Classifying

/-- A change that leaves the parentheses as they are and sees nothing in them. -/
private structure Shielded (change : Option Lexeme → Lexeme → Option Lexeme → Except CompileError Lexeme)
    (opening closing : Lexeme) : Prop where
  first : ∀ next, change none opening next = .ok opening
  last : ∀ previous, change previous closing none = .ok closing
  behind : ∀ lexeme next, change (some opening) lexeme next = change none lexeme next
  before : ∀ previous lexeme, change previous lexeme (some closing) = change previous lexeme none

variable {change : Option Lexeme → Lexeme → Option Lexeme → Except CompileError Lexeme} {previous : Option Lexeme}
  {registry : Registry}

private theorem Shielded.sweep_concat (h : Shielded change opening closing) :
    sweep change previous (lexemes ++ [closing]) = (· ++ [closing]) <$> sweep change previous lexemes := by
  induction lexemes generalizing previous with
  | nil =>
    rw [List.nil_append, sweep, sweep, List.head?_nil, h.last]
    rfl
  | cons lexeme rest ih =>
    have next : change previous lexeme (rest ++ [closing]).head? = change previous lexeme rest.head? := by
      cases rest with
      | nil => exact h.before previous lexeme
      | cons => rfl
    rw [List.cons_append, sweep, sweep, next]
    cases change previous lexeme rest.head? with
    | error error => rfl
    | ok changed =>
      simp only [bind, Except.bind, ih]
      cases sweep change (some changed) rest <;> rfl

private theorem Shielded.sweep (h : Shielded change opening closing)
    (swept : sweep change none lexemes = .ok others) :
    Lexeme.sweep change none (opening :: (lexemes ++ [closing])) = .ok (opening :: (others ++ [closing])) := by
  have behind : Lexeme.sweep change (some opening) (lexemes ++ [closing]) =
      Lexeme.sweep change none (lexemes ++ [closing]) := by
    cases lexemes ++ [closing] with
    | nil => rfl
    | cons lexeme rest => rw [Lexeme.sweep, Lexeme.sweep, h.behind]
  rw [Lexeme.sweep, h.first]
  simp only [bind, Except.bind, behind, h.sweep_concat, swept]
  rfl

/-- No sweep of the classification sees anything in a parenthesis. -/
private theorem shielded_of_marks (opens : opening.IsMark .openGroup) (closes : closing.IsMark .closeGroup) :
    Shielded (resolveName registry) opening closing ∧ Shielded resolveSide opening closing ∧
      Shielded resolveSign opening closing := by
  obtain ⟨_, _, _, _⟩ := opening
  obtain ⟨_, _, _, _⟩ := closing
  cases opens
  cases closes
  exact ⟨⟨fun _ => rfl, fun _ => rfl, fun _ _ => rfl, fun _ _ => rfl⟩,
    ⟨fun _ => rfl, fun _ => rfl, fun _ _ => rfl, fun _ _ => rfl⟩,
    ⟨fun _ => rfl, fun _ => rfl, fun _ _ => rfl, fun _ _ => rfl⟩⟩

/-- Where no parenthesis stays open a further one can be closed. -/
private theorem checkBracketsFrom_concat (closes : closing.IsMark .closeGroup) {firstOpen firstOpen' : Option Span}
    (checked : checkBracketsFrom depth firstOpen lexemes = .ok ()) :
    checkBracketsFrom (depth + 1) firstOpen' (lexemes ++ [closing]) = .ok () := by
  fun_induction checkBracketsFrom depth firstOpen lexemes generalizing firstOpen' with
  | case1 =>
    obtain ⟨notOpening, isClosing⟩ := closes.closesGroup
    rw [List.nil_append, checkBracketsFrom, if_neg (by simp [notOpening]), if_pos isClosing]
    rfl
  | case2 | case4 => cases checked
  | case3 depth firstOpen lexeme rest opens ih =>
    rw [List.cons_append, checkBracketsFrom, if_pos opens]
    exact ih checked
  | case5 firstOpen lexeme rest opens closes depth ih =>
    rw [List.cons_append, checkBracketsFrom, if_neg opens, if_pos closes]
    exact ih checked
  | case6 depth firstOpen lexeme rest opens closes ih =>
    rw [List.cons_append, checkBracketsFrom, if_neg opens, if_neg closes]
    exact ih checked

/-- Between parentheses lexemes are classified as they are without them. -/
theorem classify_enclosed {classified : List Lexeme} (opens : opening.IsMark .openGroup)
    (closes : closing.IsMark .closeGroup) (known : classify registry lexemes = .ok classified) :
    classify registry (opening :: (lexemes ++ [closing])) = .ok (opening :: (classified ++ [closing])) := by
  obtain ⟨names, sides, signs⟩ := @shielded_of_marks opening closing registry opens closes
  have balanced : checkBrackets (opening :: (lexemes ++ [closing])) = .ok () := by
    rw [checkBrackets, checkBracketsFrom, if_pos opens.opensGroup]
    exact checkBracketsFrom_concat closes (checkBrackets_of_classify known)
  rw [classify_eq_sweeps] at known ⊢
  obtain ⟨_, -, known⟩ := bind_eq_ok.mp known
  obtain ⟨resolved, resolves, known⟩ := bind_eq_ok.mp known
  obtain ⟨sided, sides', known⟩ := bind_eq_ok.mp known
  exact bind_eq_ok.mpr ⟨(), balanced, bind_eq_ok.mpr ⟨_, names.sweep resolves,
    bind_eq_ok.mpr ⟨_, sides.sweep sides', signs.sweep known⟩⟩⟩

end Classifying

end Lexeme

end Reckoner
