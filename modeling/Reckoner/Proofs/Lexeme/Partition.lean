import Reckoner.Proofs.Lexeme.Kind

/-!
Lexemes cut a source into pieces. Their places follow each other without overlapping, each one's text is what
the source has at its place, and what is left over between them are gaps. Reading a source fails exactly if
going from lexeme to lexeme leads to a place where no lexeme can be read.
-/
namespace Reckoner.Lexeme

/-- The characters are cut into gaps and lexemes, of which the first has the rank `position`; the ones in
`before` come in front of them. -/
inductive Cut : List Char → Nat → List Char → List Lexeme → Prop where
  | done {before gap : List Char} {position : Nat} : (∀ c ∈ gap, isGap c = true) →
      Cut before position gap []
  | next {before gap text after : List Char} {position : Nat} {lexemes : List Lexeme} :
      (∀ c ∈ gap, isGap c = true) → Munches (text ++ after) text → ¬ TooLarge text →
      Cut (before ++ gap ++ text) (position + 1) after lexemes →
      Cut before position (gap ++ (text ++ after))
        (⟨String.ofList text,
          ⟨Span.bytes (before ++ gap), Span.bytes (before ++ gap) + Span.bytes text⟩, position,
          kindOf text⟩ :: lexemes)

/-- The places in front of, between and behind the lexemes, from `start` up to `stop`. -/
def gaps (start stop : Nat) : List Lexeme → List Span
  | [] => [⟨start, stop⟩]
  | lexeme :: rest => ⟨start, lexeme.span.start⟩ :: gaps lexeme.span.stop stop rest

/-- The lexemes and the gaps between them make up the source up to its end, and each lexeme takes its piece. -/
structure Partition (source : String) (lexemes : List Lexeme) : Prop where
  ranked : lexemes.map (·.position) = List.range lexemes.length
  nonempty : ∀ lexeme ∈ lexemes, lexeme.span.start < lexeme.span.stop
  apart : lexemes.Pairwise fun first second => first.span.stop ≤ second.span.start
  /-- In particular the ends of its place lie between characters. -/
  text : ∀ lexeme ∈ lexemes, lexeme.span.text? source = some lexeme.text
  blank : ∀ gap ∈ gaps 0 (Span.bytes (sourceChars source)) lexemes,
    ∃ text, gap.text? source = some text ∧ ∀ c ∈ text.toList, isGap c = true
  munched : ∀ lexeme ∈ lexemes, ∃ before after,
    sourceChars source = before ++ (lexeme.text.toList ++ after) ∧
      Span.bytes before = lexeme.span.start ∧ Munches (lexeme.text.toList ++ after) lexeme.text.toList ∧
      ¬ TooLarge lexeme.text.toList

/-- The places that are looked at for a lexeme, as what follows them: at the start, behind a character of a gap
and behind a lexeme. -/
inductive Reached (source : List Char) : List Char → Prop where
  | start : Reached source source
  | gap {c : Char} {cs : List Char} : Reached source (c :: cs) → isGap c = true → Reached source cs
  | lexeme {text cs : List Char} : Reached source (text ++ cs) → Munches (text ++ cs) text →
      ¬ TooLarge text → Reached source cs

/-- A place where a lexeme should begin but none can be read. -/
def Stuck (cs : List Char) : Prop :=
  cs.head?.any (fun c => !isGap c) = true ∧ Unreadable cs

variable {before cs after : List Char} {position : Nat} {lexemes : List Lexeme} {source : String}

private theorem Cut.cons {c : Char} (gap : isGap c = true) (h : Cut (before ++ [c]) position cs lexemes) :
    Cut before position (c :: cs) lexemes := by
  generalize start : before ++ [c] = more at h
  cases h with
  | done gaps =>
    exact .done (List.forall_mem_cons.mpr ⟨gap, gaps⟩)
  | @next _ rest text after _ lexemes gaps munches fits later =>
    subst start
    have longer : before ++ [c] ++ rest = before ++ (c :: rest) := by simp
    rw [longer] at later ⊢
    rw [← List.cons_append]
    exact .next (List.forall_mem_cons.mpr ⟨gap, gaps⟩) munches fits later

/-- What the scanner returns cuts the characters. -/
theorem cut_of_scan (h : scan (Span.bytes before) position cs = .ok lexemes) :
    Cut before position cs lexemes := by
  generalize start : Span.bytes before = offset at h
  fun_induction scan offset position cs generalizing before lexemes with
  | case1 =>
    cases h
    exact .done (by simp)
  | case2 offset position c cs gap ih =>
    apply Cut.cons gap
    apply ih _ h
    rw [Span.bytes_append, start]
    simp [Span.bytes]
  | case3 | case5 => cases h
  | case4 offset position c cs notGap found isFront text stop lexeme rest =>
    rename_i ran ih
    cases h
    subst start
    obtain ⟨munches, fits⟩ := munches_of_front isFront
    have split : c :: cs = [] ++ (text ++ cs.drop found.more) := by
      simp [text, List.take_append_drop]
    have next := @Cut.next before [] text (cs.drop found.more) position rest
    rw [List.append_nil, ← kind_of_front isFront] at next
    rw [split]
    apply next
    · simp
    · rw [List.nil_append] at split
      rw [← split]
      exact munches
    · exact fits
    · apply ih _ ran
      exact Span.bytes_append ..

private theorem Cut.ranked (h : Cut before position cs lexemes) :
    lexemes.map (·.position) = List.range' position lexemes.length := by
  induction h with
  | done => rfl
  | next _ _ _ _ ih => rw [List.map_cons, ih, List.length_cons, List.range'_succ]

private theorem Cut.le_start (h : Cut before position cs lexemes) :
    ∀ lexeme ∈ lexemes, Span.bytes before ≤ lexeme.span.start := by
  induction h with
  | done => simp
  | next _ _ _ _ ih =>
    simp only [Span.bytes_append] at ih ⊢
    refine List.forall_mem_cons.mpr ⟨?_, ?_⟩
    · simp
    · intro lexeme mem
      have := ih lexeme mem
      omega

private theorem Cut.nonempty (h : Cut before position cs lexemes) :
    ∀ lexeme ∈ lexemes, lexeme.span.start < lexeme.span.stop := by
  induction h with
  | done => simp
  | @next before gap text after _ lexemes _ munches _ _ ih =>
    refine List.forall_mem_cons.mpr ⟨?_, ih⟩
    cases text with
    | nil => exact absurd rfl munches.ne_nil
    | cons c text =>
      have positive := Char.utf8Size_pos c
      simp only [Span.bytes]
      omega

private theorem Cut.apart (h : Cut before position cs lexemes) :
    lexemes.Pairwise fun first second => first.span.stop ≤ second.span.start := by
  induction h with
  | done => exact .nil
  | next _ _ _ later ih =>
    refine List.Pairwise.cons ?_ ih
    intro lexeme mem
    have behind := later.le_start lexeme mem
    rw [Span.bytes_append] at behind
    exact behind

private theorem Cut.text (h : Cut before position cs lexemes)
    (split : source.toList = before ++ cs ++ after) :
    ∀ lexeme ∈ lexemes, lexeme.span.text? source = some lexeme.text := by
  induction h with
  | done => simp
  | next _ _ _ _ ih =>
    refine List.forall_mem_cons.mpr ⟨?_, ih (by simp [split])⟩
    apply Strict.text?_of_split
    rw [split, ← List.append_assoc, ← List.append_assoc, List.append_assoc]

private theorem Cut.blank (h : Cut before position cs lexemes)
    (split : source.toList = before ++ cs ++ after) :
    ∀ gap ∈ gaps (Span.bytes before) (Span.bytes (before ++ cs)) lexemes,
      ∃ text, gap.text? source = some text ∧ ∀ c ∈ text.toList, isGap c = true := by
  induction h with
  | @done before gap _ blank =>
    intro place mem
    rw [gaps, List.mem_singleton] at mem
    rw [mem, Span.bytes_append]
    exact ⟨_, Strict.text?_of_split split, by simpa using blank⟩
  | @next before gap text rest _ lexemes blank _ _ _ ih =>
    refine List.forall_mem_cons.mpr ⟨?_, ?_⟩
    · simp only [Span.bytes_append]
      refine ⟨_, @Strict.text?_of_split source before gap (text ++ rest ++ after) ?_, ?_⟩
      · simp [split]
      · simpa using blank
    · have later := ih (by simp [split])
      simpa [Span.bytes_append, Nat.add_assoc] using later

private theorem Cut.munched (h : Cut before position cs lexemes) :
    ∀ lexeme ∈ lexemes, ∃ front rest, before ++ cs = front ++ (lexeme.text.toList ++ rest) ∧
      Span.bytes front = lexeme.span.start ∧ Munches (lexeme.text.toList ++ rest) lexeme.text.toList ∧
      ¬ TooLarge lexeme.text.toList := by
  induction h with
  | done => simp
  | @next before gap text rest _ lexemes _ munches fits _ ih =>
    refine List.forall_mem_cons.mpr ⟨?_, ?_⟩
    · refine ⟨before ++ gap, rest, ?_, rfl, ?_, ?_⟩
      · simp
      · simpa using munches
      · simpa using fits
    · intro lexeme mem
      obtain ⟨front, last, split, rest⟩ := ih lexeme mem
      exact ⟨front, last, by rw [← split]; simp, rest⟩

private theorem Cut.kind (h : Cut before position cs lexemes) :
    ∀ lexeme ∈ lexemes, lexeme.kind = kindOf lexeme.text.toList := by
  induction h with
  | done => simp
  | next _ _ _ _ ih => exact List.forall_mem_cons.mpr ⟨by simp, ih⟩

/-- The text of a lexeme says what it is. -/
theorem kind_of_tokenize (h : tokenize source = .ok lexemes) :
    ∀ lexeme ∈ lexemes, lexeme.kind = kindOf lexeme.text.toList := by
  have cut : Cut [] 0 (sourceChars source) lexemes := cut_of_scan h
  exact cut.kind

/-- The lexemes of a source are a partition of it. -/
theorem partition_of_tokenize (h : tokenize source = .ok lexemes) : Partition source lexemes := by
  have cut : Cut [] 0 (sourceChars source) lexemes := cut_of_scan h
  have split : source.toList = [] ++ sourceChars source ++ source.toList.dropWhile (· != '\x00') := by
    simp [sourceChars]
  refine ⟨?_, cut.nonempty, cut.apart, cut.text split, cut.blank split, cut.munched⟩
  rw [cut.ranked, List.range_eq_range']

section Stuck

variable {source rest : List Char}

private theorem Reached.trans {middle : List Char} (first : Reached source middle)
    (second : Reached middle rest) : Reached source rest := by
  induction second with
  | start => exact first
  | gap _ isGap ih => exact .gap ih isGap
  | lexeme _ munches fits ih => exact .lexeme ih munches fits

/-- Whatever the place and the rank are that the scanner starts with, it fails. -/
private def Fails (cs : List Char) : Prop :=
  ∀ offset position, ∃ error, scan offset position cs = .error error

private theorem fails_of_stuck (stuck : Stuck cs) : Fails cs := by
  intro offset position
  obtain ⟨begins, unreadable⟩ := stuck
  cases cs with
  | nil => cases begins
  | cons c cs =>
    have notGap : ¬ isGap c = true := by simpa using begins
    rw [scan, if_neg notGap]
    cases isFront : front c cs with
    | error fault => exact ⟨_, rfl⟩
    | ok found =>
      obtain ⟨munches, fits⟩ := munches_of_front isFront
      rcases unreadable with none | ⟨text, munches', tooLarge⟩
      · exact absurd munches (none _)
      · rw [munches'.unique munches] at tooLarge
        exact absurd tooLarge fits

/-- A place that is reached is read next. -/
private theorem Reached.fails (reached : Reached source rest) (fails : Fails rest) : Fails source := by
  induction reached with
  | start => exact fails
  | @gap c cs _ isGap ih =>
    apply ih
    intro offset position
    rw [scan, if_pos isGap]
    exact fails _ _
  | @lexeme text cs _ munches fits ih =>
    apply ih
    intro offset position
    obtain ⟨error, failed⟩ := fails (offset + Span.bytes text) (position + 1)
    rw [scan_piece munches fits, failed]
    exact ⟨error, rfl⟩

/-- A scan that fails reaches a place where it is stuck. -/
private theorem exists_stuck {offset : Nat} {error : CompileError}
    (h : scan offset position cs = .error error) : ∃ rest, Reached cs rest ∧ Stuck rest := by
  fun_induction scan offset position cs generalizing error with
  | case1 => cases h
  | case2 offset position c cs gap ih =>
    obtain ⟨rest, reached, stuck⟩ := ih h
    exact ⟨rest, Reached.trans (.gap .start gap) reached, stuck⟩
  | case3 offset position c cs notGap fault failed =>
    exact ⟨c :: cs, .start, by simpa using notGap, unreadable_of_front failed⟩
  | case4 => cases h
  | case5 offset position c cs notGap found isFront text stop later failed =>
    rename_i ih
    obtain ⟨rest, reached, stuck⟩ := ih failed
    obtain ⟨munches, fits⟩ := munches_of_front isFront
    have split : text ++ cs.drop found.more = c :: cs := by
      simp [text, List.take_append_drop]
    have first : Reached (c :: cs) (cs.drop found.more) := by
      rw [← split] at munches ⊢
      exact .lexeme .start munches fits
    exact ⟨rest, first.trans reached, stuck⟩

end Stuck

/-- Where a source has lexemes they are a partition of it, in which each takes the longest operator symbol
at its place, or else the longest identifier, the text up to the next double quote or the longest numeral. It
has none exactly if a place is reached, behind gaps and such lexemes, at which none of these stands or an
integer that is too large. -/
theorem tokenize_partition (source : String) :
    (∀ lexemes, tokenize source = .ok lexemes → Partition source lexemes) ∧
      ((∃ error, tokenize source = .error error) ↔
        ∃ rest, Reached (sourceChars source) rest ∧ Stuck rest) := by
  refine ⟨fun lexemes => partition_of_tokenize, ?_⟩
  constructor
  · rintro ⟨error, failed⟩
    exact exists_stuck failed
  · rintro ⟨rest, reached, stuck⟩
    exact reached.fails (fails_of_stuck stuck) 0 0

example : (tokenize "x<<=1e(int)").map (List.map (·.text)) = .ok ["x", "<<=", "1", "e", "(int)"] := by
  cbv

end Reckoner.Lexeme
