import Reckoner.Proofs.Lexeme.Kind

/-!
Pieces by their first character. A letter begins a word, a digit a numeral and a double quote a text, since no
symbol begins with any of these. A source that is one piece is one lexeme.
-/
namespace Reckoner.Lexeme

variable {c : Char} {cs text body after : List Char}

/-- No symbol stands where a character is that no symbol begins with. -/
theorem noSymbol_of_first {test : Char → Bool} (passes : test c = true)
    (none : ∀ op : Operator, op.symbol.toList.head?.any test = false) : NoSymbol (c :: cs) := by
  rintro _ front ⟨op, rfl⟩
  have first := none op
  generalize written : op.symbol.toList = symbol at front first
  cases symbol with
  | nil => exact Symbol.not_nil ⟨op, written.symm⟩
  | cons d symbol =>
    obtain ⟨rfl, -⟩ := List.cons_prefix_cons.mp front
    rw [List.head?_cons, Option.any_some, passes] at first
    cases first

theorem noSymbol_letter (start : Identifier.isStart c = true) : NoSymbol (c :: cs) :=
  noSymbol_of_first start fun op => by cases op <;> decide

theorem noSymbol_digit (digit : c.isDigit = true) : NoSymbol (c :: cs) :=
  noSymbol_of_first digit fun op => by cases op <;> decide

theorem noSymbol_quote : NoSymbol ('"' :: cs) :=
  noSymbol_of_first (beq_self_eq_true '"') fun op => by cases op <;> decide

/-- A letter is taken with everything after it that can belong to an identifier. -/
theorem munches_letter (start : Identifier.isStart c = true) :
    Munches (c :: cs) (c :: cs.takeWhile Identifier.isContinue) := by
  refine .word (noSymbol_letter start) (.takeWhile (fun tail => ?_) (by simp [Word, Identifier.matchesAll]))
  rw [word_cons, and_iff_right start]

/-- A word is taken if it ends where nothing more can belong to an identifier. -/
theorem munches_word (isWord : Word text) (stop : after.head?.all (fun d => !Identifier.isContinue d) = true) :
    Munches (text ++ after) text := by
  cases text with
  | nil => cases isWord
  | cons c cs =>
    obtain ⟨start, all⟩ := word_cons.mp isWord
    have munches := @munches_letter c (cs ++ after) start
    have none : after.takeWhile Identifier.isContinue = [] := by
      cases after with
      | nil => rfl
      | cons d after => exact List.takeWhile_cons_of_neg (by simpa using stop)
    rwa [List.takeWhile_append_of_pos all, none, List.append_nil] at munches

/-- A double quote is taken with everything up to the next one. -/
theorem munches_quote (inside : '"' ∉ body) :
    Munches ('"' :: (body ++ '"' :: after)) ('"' :: (body ++ ['"'])) :=
  .quoted noSymbol_quote (longest_quote inside)

/-- A symbol is taken alone if no symbol goes on with what follows it. -/
theorem munches_symbol (op : Operator) (stop : ∀ d ∈ cs.head?, ∀ other : Operator,
    ¬ op.symbol.toList ++ [d] <+: other.symbol.toList) : Munches (op.symbol.toList ++ cs) op.symbol.toList := by
  refine .symbol ⟨List.prefix_append _ _, ⟨op, rfl⟩, ?_⟩
  rintro _ front ⟨other, rfl⟩
  by_contra longer
  -- A longer symbol would begin with this one and the character after it.
  obtain ⟨rest, split⟩ := List.prefix_of_prefix_length_le (List.prefix_append _ _) front (by omega)
  cases rest with
  | nil =>
    rw [List.append_nil] at split
    rw [split] at longer
    exact longer (Nat.le_refl _)
  | cons d rest =>
    refine stop d ?_ other ⟨rest, by rw [← split]; simp⟩
    rw [← split, List.prefix_append_right_inj] at front
    obtain ⟨behind, rfl⟩ := front
    simp

/-- A symbol that is followed by a digit is taken alone, since no symbol contains one. -/
theorem munches_symbol_digit (op : Operator) (digit : c.isDigit = true) :
    Munches (op.symbol.toList ++ c :: cs) op.symbol.toList := by
  have none : ∀ other : Operator, other.symbol.toList.all (fun d => !d.isDigit) = true := by
    intro other
    cases other <;> decide
  refine munches_symbol op fun d head other front => ?_
  cases head
  have free := List.all_eq_true.mp (none other) c (front.subset (by simp))
  rw [digit] at free
  cases free

/-- Digits are taken if nothing follows them. -/
theorem munches_digits (digits : Numeral.Digits text) : Munches text text := by
  obtain ⟨nonempty, all⟩ := digits
  cases text with
  | nil => exact absurd rfl nonempty
  | cons c cs =>
    have literal : Numeral.Literal (c :: cs) := .mantissa (.whole (.mk .none ⟨nonempty, all⟩))
    refine .numeral (noSymbol_digit (all c List.mem_cons_self)) ?_
    exact ⟨List.prefix_refl _, literal, fun _ front _ => front.length_le⟩

/-- A source without NUL is read to its end. -/
theorem sourceChars_eq {source : String} (free : '\x00' ∉ source.toList) : sourceChars source = source.toList := by
  rw [sourceChars, List.takeWhile_eq_self_iff]
  intro c mem
  rw [bne_iff_ne]
  rintro rfl
  exact free mem

/-- A piece with nothing behind it is the last lexeme. -/
theorem scan_last (munches : Munches text text) (fits : ¬ TooLarge text) (offset position : Nat) :
    scan offset position text =
      .ok [⟨String.ofList text, ⟨offset, offset + Span.bytes text⟩, position, kindOf text⟩] := by
  have piece := @scan_piece text [] (by rwa [List.append_nil]) fits offset position
  rwa [List.append_nil, scan] at piece

/-- A source that is one piece is one lexeme. -/
theorem tokenize_piece {source : String} (munches : Munches source.toList source.toList)
    (fits : ¬ TooLarge source.toList) (free : '\x00' ∉ source.toList) :
    tokenize source = .ok [⟨source, ⟨0, Span.bytes source.toList⟩, 0, kindOf source.toList⟩] := by
  rw [tokenize, sourceChars_eq free, scan_last munches fits, String.ofList_toList, Nat.zero_add]

end Reckoner.Lexeme
