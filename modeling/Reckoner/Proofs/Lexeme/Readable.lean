import Reckoner.Proofs.Lexeme.Front
import Reckoner.Proofs.Lexeme.Partition

/-!
Characters that can be read to the end. They stay so if one goes on from another place than the scanner does: behind
any character of a gap, behind the parenthesis that a cast begins with, and behind some characters of a word.
-/
namespace Reckoner.Lexeme

/-- The characters are cut into gaps and pieces. -/
inductive Readable : List Char → Prop where
  | nil : Readable []
  | gap {c : Char} {cs : List Char} : isGap c = true → Readable cs → Readable (c :: cs)
  | piece {text after : List Char} : Munches (text ++ after) text → Readable after → Readable (text ++ after)

variable {c : Char} {cs text rest after word : List Char}

private theorem Readable.gaps {gap : List Char} (blank : ∀ c ∈ gap, isGap c = true) (h : Readable cs) :
    Readable (gap ++ cs) := by
  induction gap with
  | nil => exact h
  | cons c gap ih =>
    obtain ⟨first, others⟩ := List.forall_mem_cons.mp blank
    exact .gap first (ih others)

private theorem Cut.readable {before : List Char} {position : Nat} {lexemes : List Lexeme}
    (h : Cut before position cs lexemes) : Readable cs := by
  induction h with
  | @done _ gap _ blank =>
    rw [← List.append_nil gap]
    exact .gaps blank .nil
  | next blank munches _ _ ih => exact .gaps blank (.piece munches ih)

/-- A source that has lexemes can be read to the end. -/
theorem readable_of_tokenize {source : String} {lexemes : List Lexeme} (free : '\x00' ∉ source.toList)
    (read : tokenize source = .ok lexemes) : Readable source.toList := by
  rw [tokenize, sourceChars_eq free] at read
  exact (@cut_of_scan [] _ _ _ read).readable

/-- The first character tells what stands at a place. -/
theorem Munches.first (h : Munches (c :: cs) text) :
    (Symbol text ∧ text <+: c :: cs) ∨ Identifier.isStart c = true ∨ c = '"' ∨ c.isDigit = true := by
  by_cases none : NoSymbol (c :: cs)
  · rcases h.head none with ⟨start, -⟩ | ⟨quote, -⟩ | ⟨digit, -⟩
    · exact .inr (.inl start)
    · exact .inr (.inr (.inl quote))
    · exact .inr (.inr (.inr digit))
  · cases h with
    | symbol longest => exact .inl ⟨longest.here, longest.front⟩
    | word none' _ | quoted none' _ | numeral none' _ => exact absurd none' none

/-- A symbol with a parenthesis in it is that alone, or it is a cast. -/
theorem parenthesis_or_cast (op : Operator) : '(' ∈ op.symbol.toList ∨ ')' ∈ op.symbol.toList →
    op = .openGroup ∨ op = .closeGroup ∨ ∃ word, Word word ∧ op.symbol.toList = '(' :: (word ++ [')']) := by
  cases op with
  | openGroup => exact fun _ => .inl rfl
  | closeGroup => exact fun _ => .inr (.inl rfl)
  | castBool => exact fun _ => .inr (.inr ⟨"bool".toList, rfl, rfl⟩)
  | castInt => exact fun _ => .inr (.inr ⟨"int".toList, rfl, rfl⟩)
  | castFloat => exact fun _ => .inr (.inr ⟨"float".toList, rfl, rfl⟩)
  | castString => exact fun _ => .inr (.inr ⟨"string".toList, rfl, rfl⟩)
  | _ => exact fun inside => absurd inside (by decide)

/-- A closing parenthesis and a comma are pieces of their own. -/
private theorem closeGroup_or_comma (op : Operator) :
    op.symbol.toList.head? = some ')' ∨ op.symbol.toList.head? = some ',' → op.symbol.toList.length = 1 := by
  cases op <;> decide

theorem munches_closeGroup : Munches (')' :: cs) [')'] :=
  @munches_symbol cs .closeGroup fun d _ other front => by
    have first : other.symbol.toList.head? = some ')' := by
      obtain ⟨rest, symbol⟩ := front
      rw [← symbol]
      rfl
    have longer : 2 ≤ other.symbol.toList.length := front.length_le
    rw [closeGroup_or_comma other (.inl first)] at longer
    exact absurd longer (by decide)

namespace Readable

theorem behind_gap (h : Readable (c :: cs)) (gap : isGap c = true) : Readable cs := by
  generalize whole : c :: cs = all at h
  cases h with
  | nil => cases whole
  | gap _ later =>
    cases whole
    exact later
  | piece munches _ =>
    rw [← whole] at munches
    have notGap := munches.not_gap
    rw [gap] at notGap
    cases notGap

/-- At anything but a gap stands a piece, behind which it goes on. -/
theorem exists_piece (h : Readable (c :: cs)) (notGap : isGap c = false) :
    ∃ text after, c :: cs = text ++ after ∧ Munches (c :: cs) text ∧ Readable after := by
  generalize whole : c :: cs = all at h
  cases h with
  | nil => cases whole
  | gap gap _ =>
    cases whole
    rw [gap] at notGap
    cases notGap
  | @piece text after munches later => exact ⟨text, after, rfl, munches, later⟩

theorem behind_piece (h : Readable (text ++ after)) (munches : Munches (text ++ after) text) : Readable after := by
  cases text with
  | nil => exact absurd rfl munches.ne_nil
  | cons c cs =>
    obtain ⟨text, after', split, munches', later⟩ := h.exists_piece munches.not_gap
    obtain rfl := munches'.unique munches
    have same : after = after' := @List.append_cancel_left _ (c :: cs) _ _ split
    rwa [same]

/-- Where a word begins it can be left behind any of its characters, unless a digit comes next. -/
theorem behind_word (h : Readable (c :: (cs ++ rest))) (start : Identifier.isStart c = true)
    (all : ∀ d ∈ cs, Identifier.isContinue d = true) (stops : rest.head?.all (fun d => !d.isDigit) = true) :
    Readable rest := by
  have munches := @munches_letter c (cs ++ rest) start
  rw [List.takeWhile_append_of_pos all] at munches
  have split : c :: (cs ++ rest) =
      c :: (cs ++ rest.takeWhile Identifier.isContinue) ++ rest.dropWhile Identifier.isContinue := by
    simp
  rw [split] at h munches
  have later := h.behind_piece munches
  cases rest with
  | nil => exact .nil
  | cons d rest =>
    by_cases continues : Identifier.isContinue d = true
    · -- The rest of the word is a word of its own.
      have start' : Identifier.isStart d = true := by
        simpa [Identifier.isContinue, Identifier.isStart, Char.isAlphanum, by simpa using stops] using continues
      have rejoined : d :: rest.takeWhile Identifier.isContinue ++ (d :: rest).dropWhile Identifier.isContinue =
          d :: rest := by
        rw [List.dropWhile_cons_of_pos continues, List.cons_append, List.takeWhile_append_dropWhile]
      rw [← rejoined]
      refine .piece ?_ later
      rw [rejoined]
      exact munches_letter start'
    · rwa [List.dropWhile_cons_of_neg continues] at later

/-- A piece that does not begin like a word, a text or a number is a symbol. -/
theorem exists_symbol (h : Readable (c :: cs)) (notGap : isGap c = false)
    (other : ¬ (Identifier.isStart c = true ∨ c = '"' ∨ c.isDigit = true)) :
    ∃ op : Operator, ∃ symbol after, op.symbol.toList = c :: symbol ∧ cs = symbol ++ after ∧ Readable after := by
  obtain ⟨text, after, split, munches, later⟩ := h.exists_piece notGap
  obtain ⟨op, rfl⟩ := (munches.first.resolve_right other).1
  cases symbol : op.symbol.toList with
  | nil => exact absurd ⟨op, symbol.symm⟩ Symbol.not_nil
  | cons d rest =>
    rw [symbol] at split
    obtain ⟨rfl, rfl⟩ := List.cons.inj split
    exact ⟨op, rest, after, symbol, rfl, later⟩

theorem behind_openGroup (h : Readable ('(' :: cs)) : Readable cs := by
  obtain ⟨op, symbol, after, isSymbol, rfl, later⟩ := h.exists_symbol rfl (by decide)
  rcases parenthesis_or_cast op (.inl (by simp [isSymbol])) with rfl | rfl | ⟨word, isWord, isCast⟩
  · cases isSymbol
    exact later
  · cases isSymbol
  · -- The scanner took the cast as a whole, but its word and the parenthesis behind that are pieces, too.
    rw [isSymbol, List.cons_inj_right] at isCast
    subst isCast
    rw [List.append_assoc]
    exact .piece (munches_word isWord rfl) (.piece munches_closeGroup later)

/-- A closing parenthesis and a comma are read alone. -/
theorem behind_mark (h : Readable (c :: cs)) (isMark : c = ')' ∨ c = ',') : Readable cs := by
  obtain ⟨op, symbol, after, isSymbol, rfl, later⟩ :=
    h.exists_symbol (by rcases isMark with rfl | rfl <;> rfl) (by rcases isMark with rfl | rfl <;> decide)
  have alone := closeGroup_or_comma op (by rw [isSymbol]; rcases isMark with rfl | rfl <;> simp)
  rw [isSymbol, List.length_cons, Nat.add_eq_right, List.length_eq_zero_iff] at alone
  subst alone
  exact later

/-- A double quote has another one behind it. -/
theorem quote_behind (h : Readable ('"' :: cs)) : '"' ∈ cs := by
  obtain ⟨text, after, -, munches, -⟩ := h.exists_piece rfl
  rcases munches.head noSymbol_quote with ⟨start, -⟩ | ⟨-, longest⟩ | ⟨digit, -⟩
  · cases start
  · obtain ⟨body, -, rfl⟩ := longest.here
    have behind := (List.cons_prefix_cons.mp longest.front).2
    exact behind.subset (by simp)
  · cases digit

end Readable

end Reckoner.Lexeme
