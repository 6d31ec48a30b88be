import Reckoner.Proofs.Lexeme.Partition

/-!
Sources that differ in their gaps only. The text of a lexeme is taken again in front of any gap, whatever it was
followed by before. So a source that spells the lexemes of another one in other gaps has the same lexemes at
other places.
-/
namespace Reckoner.Lexeme

/-- The characters spell the texts one after another with a gap between any two of them, and perhaps one before
the first and one behind the last. -/
inductive Spaced : List String → List Char → Prop where
  | blank {gap : List Char} : (∀ c ∈ gap, isGap c = true) → Spaced [] gap
  /-- What follows a text begins with a gap, if anything does. -/
  | text {gap after : List Char} {text : String} {texts : List String} :
      (∀ c ∈ gap, isGap c = true) → after.head?.all isGap = true → Spaced texts after →
      Spaced (text :: texts) (gap ++ (text.toList ++ after))

/-- A space in front of each text will do. -/
theorem Spaced.blanks (texts : List String) : Spaced texts (texts.flatMap fun text => ' ' :: text.toList) := by
  induction texts with
  | nil => exact .blank (by simp)
  | cons text texts ih =>
    have begins : (texts.flatMap fun text => ' ' :: text.toList).head?.all isGap = true := by
      cases texts <;> rfl
    exact @Spaced.text [' '] _ text texts (by simp [isGap]) begins ih

/-- The lexeme without its place in the source. -/
def unplaced (lexeme : Lexeme) : Lexeme :=
  { lexeme with span := default }

variable {c : Char} {cs text rest after : List Char} {offset position : Nat} {lexemes : List Lexeme}
  {source other : String}

section Gap

private theorem Symbol.free (h : Symbol text) : ∀ c ∈ text, isGap c = false := by
  have all : ∀ op : Operator, op.symbol.toList.all (fun c => !isGap c) = true := by
    intro op
    cases op <;> decide
  obtain ⟨op, rfl⟩ := h
  simpa using all op

private theorem isContinue_of_gap (gap : isGap c = true) : Identifier.isContinue c = false := by
  simp only [isGap, Bool.or_eq_true, beq_iff_eq] at gap
  rcases gap with ((rfl | rfl) | rfl) | rfl <;> decide

private theorem Word.free (h : Word text) : ∀ c ∈ text, isGap c = false := by
  intro c mem
  by_contra gap
  have not := isContinue_of_gap (Bool.of_not_eq_false gap)
  rw [h.isContinue c mem] at not
  cases not

private theorem step_of_gap (gap : isGap c = true) (state : Numeral.State) : state.step c = none := by
  simp only [isGap, Bool.or_eq_true, beq_iff_eq] at gap
  rcases gap with ((rfl | rfl) | rfl) | rfl <;> cases state <;> rfl

private theorem literal_free (h : Numeral.Literal text) : ∀ c ∈ text, isGap c = false := by
  intro c mem
  obtain ⟨state, stepped⟩ := h.exists_step c mem
  by_contra gap
  exact stepped (step_of_gap (Bool.of_not_eq_false gap) state)

private theorem NoSymbol.before_gap (h : NoSymbol (text ++ rest)) (stop : after.head?.all isGap = true) :
    NoSymbol (text ++ after) := by
  intro other front symbol
  have within := prefix_of_prefix_append stop symbol.free front
  exact h other (within.trans (List.prefix_append text rest)) symbol

/-- A text that is taken is taken again in front of a gap. -/
theorem Munches.before_gap (h : Munches (text ++ rest) text) (stop : after.head?.all isGap = true) :
    Munches (text ++ after) text := by
  cases h with
  | symbol longest => exact .symbol (longest.replace_rest (fun _ => Symbol.free) stop)
  | word none longest =>
    exact .word (none.before_gap stop) (longest.replace_rest (fun _ => Word.free) stop)
  | quoted none longest =>
    -- A string may have gaps in it, but it ends at the first double quote in any case.
    refine .quoted (none.before_gap stop) ⟨List.prefix_append text after, longest.here, ?_⟩
    intro other front quoted
    obtain ⟨body, inside, rfl⟩ := longest.here
    have first := quoted_front longest.here (List.prefix_append _ after)
    have second := quoted_front quoted front
    exact Nat.le_of_eq (second.2.trans first.2.symm)
  | numeral none longest =>
    exact .numeral (none.before_gap stop) (longest.replace_rest (fun _ => literal_free) stop)

end Gap

/-- Lexemes that are cut out of some characters are read from any that spell them in other gaps. -/
private theorem scan_of_spaced {before : List Char} (cut : Cut before position rest lexemes)
    (spaced : Spaced (lexemes.map (·.text)) cs) :
    ∃ others, scan offset position cs = .ok others ∧ others.map unplaced = lexemes.map unplaced := by
  induction cut generalizing offset cs with
  | done =>
    cases spaced with
    | blank blank =>
      refine ⟨[], ?_, rfl⟩
      rw [← List.append_nil cs, scan_gap blank, scan]
  | @next _ _ text _ position lexemes _ munches fits _ ih =>
    rw [List.map_cons] at spaced
    cases spaced with
    | @text gap after _ _ blank stop later =>
      rw [String.toList_ofList, scan_gap blank, scan_piece (munches.before_gap stop) fits]
      obtain ⟨others, ran, same⟩ := @ih after (offset + Span.bytes gap + Span.bytes text) later
      rw [ran]
      refine ⟨_, rfl, ?_⟩
      rw [List.map_cons, List.map_cons, same]
      rfl

private theorem ne_nul_of_spaced {texts : List String} (spaced : Spaced texts cs)
    (free : ∀ text ∈ texts, ∀ c ∈ text.toList, c ≠ '\x00') : ∀ c ∈ cs, c ≠ '\x00' := by
  have inGap : ∀ c, isGap c = true → c ≠ '\x00' := by
    rintro _ gap rfl
    cases gap
  induction spaced with
  | blank blank => exact fun c mem => inGap c (blank c mem)
  | text blank _ _ ih =>
    obtain ⟨first, others⟩ := List.forall_mem_cons.mp free
    intro c mem
    rcases List.mem_append.mp mem with gap | mem
    · exact inGap c (blank c gap)
    rcases List.mem_append.mp mem with mem | mem
    · exact first c mem
    · exact ih others c mem

/-- A source that spells the lexemes of another one in other gaps has the same lexemes. -/
theorem tokenize_of_spaced (read : tokenize source = .ok lexemes)
    (spaced : Spaced (lexemes.map (·.text)) other.toList) :
    ∃ others, tokenize other = .ok others ∧ others.map unplaced = lexemes.map unplaced := by
  have parts := partition_of_tokenize read
  have free : ∀ c ∈ other.toList, c ≠ '\x00' := by
    apply ne_nul_of_spaced spaced
    intro text mem c inText
    obtain ⟨lexeme, isLexeme, rfl⟩ := List.mem_map.mp mem
    obtain ⟨before, after, split, -⟩ := parts.munched lexeme isLexeme
    have inside : c ∈ sourceChars source := by
      rw [split]
      simp [inText]
    simpa using List.mem_takeWhile_imp inside
  have whole : sourceChars other = other.toList := by
    rw [sourceChars, List.takeWhile_eq_self_iff]
    simpa using free
  have cut : Cut [] 0 (sourceChars source) lexemes := cut_of_scan read
  rw [tokenize, whole]
  exact scan_of_spaced cut spaced

end Reckoner.Lexeme
