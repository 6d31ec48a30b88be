import Reckoner.Proofs.Lexeme.Partition
import Reckoner.Proofs.Located
import Reckoner.Proofs.Strict.Classifying

/-!
Where the lexemes of a source lie. They follow each other in the source, each on its text, and classifying moves
none of them. What cannot be read or classified is blamed on a place of the source.
-/
namespace Reckoner.Lexeme

/-- The text of an operator is its symbol. -/
def Spelled (lexeme : Lexeme) : Prop :=
  ∀ occurrence, lexeme.kind = .operator occurrence → lexeme.text = occurrence.operator.symbol

/-- The lexemes lie in a row in the source, each on its text. -/
structure Laid (source : String) (lexemes : List Lexeme) : Prop where
  row : Span.Row 0 source.utf8ByteSize (lexemes.map (·.span))
  text : ∀ lexeme ∈ lexemes, lexeme.span.text? source = some lexeme.text
  spelled : ∀ lexeme ∈ lexemes, lexeme.Spelled

/-- The lexeme is still where it was, whatever it now stands for. -/
structure Stays (lexeme changed : Lexeme) : Prop where
  text : changed.text = lexeme.text
  span : changed.span = lexeme.span
  spelled : changed.Spelled

variable {source : String} {lexeme : Lexeme} {lexemes : List Lexeme} {previous next : Option Lexeme}

theorem Laid.fits (laid : Laid source lexemes) (mem : lexeme ∈ lexemes) : lexeme.span.Fits source :=
  Span.fits_iff.mpr ⟨_, laid.text lexeme mem⟩

/-- A parenthesis that closes is written as one. -/
theorem Laid.closing (laid : Laid source lexemes) (mem : lexeme ∈ lexemes) (closes : lexeme.closesGroup = true) :
    lexeme.text = ")" := by
  simp only [closesGroup, isOperatorOf, occurrence?] at closes
  split at closes
  · next occurrence isOperator =>
    have isClosing : occurrence.operator = .closeGroup := by simpa using closes
    rw [laid.spelled lexeme mem occurrence isOperator, isClosing]
    rfl
  · cases closes

theorem laid_of_tokenize (read : tokenize source = .ok lexemes) : Laid source lexemes := by
  have partition := partition_of_tokenize read
  refine ⟨.of_apart (Nat.zero_le _) ?_ (List.pairwise_map.mpr partition.apart), partition.text, ?_⟩
  · refine List.forall_mem_map.mpr fun lexeme mem => ⟨Nat.zero_le _, partition.nonempty lexeme mem, ?_⟩
    exact Span.Boundary.le_size (Span.fits_iff.mpr ⟨_, partition.text lexeme mem⟩).stop
  · intro lexeme mem occurrence isOperator
    rw [kind_of_tokenize read lexeme mem] at isOperator
    simpa using symbol_of_kindOf isOperator

/-- What cannot be read is blamed on the place where it begins. -/
private theorem scan_yields {before cs after : List Char} (position : Nat)
    (split : source.toList = before ++ cs ++ after) :
    Yields source (fun _ => True) (scan (Span.bytes before) position cs) := by
  generalize start : Span.bytes before = offset
  fun_induction scan offset position cs generalizing before with
  | case1 => trivial
  | case2 offset position c cs gap ih =>
    apply @ih (before ++ [c])
    · simp [split]
    · rw [Span.bytes_append, start]
      simp [Span.bytes]
  | case3 offset position c cs notGap fault failed =>
    subst start
    refine .atSpan _ (@Span.fits_of_split _ _ _ ((c :: cs).drop fault.length ++ after) ?_)
    rw [split, List.append_assoc, List.append_assoc, ← List.append_assoc (List.take ..), List.take_append_drop]
  | case4 => trivial
  | case5 offset position c cs notGap found isFront text stop error failed =>
    rename_i ih
    subst start
    have later := @ih (before ++ text) (by simp [split, text, List.take_append_drop]) (Span.bytes_append ..)
    exact later.of_error failed

/-- Reading a source gives lexemes that lie in a row. -/
theorem tokenize_yields (source : String) : Yields source (Laid source) (tokenize source) := by
  have split : source.toList = [] ++ sourceChars source ++ source.toList.dropWhile (· != '\x00') := by
    simp [sourceChars]
  cases read : tokenize source with
  | ok lexemes => exact laid_of_tokenize read
  | error error => exact (scan_yields 0 split).of_error read

private theorem checkBracketsFrom_yields {depth : Nat} {opened : Option Span}
    (inside : ∀ span ∈ opened, span.Fits source) (fits : ∀ lexeme ∈ lexemes, lexeme.span.Fits source) :
    Yields source (fun _ => True) (checkBracketsFrom depth opened lexemes) := by
  induction lexemes generalizing depth opened with
  | nil =>
    rw [checkBracketsFrom]
    split
    · trivial
    · refine .atSpan _ ?_
      cases opened with
      | none => exact Span.fits_default source
      | some span => exact inside span rfl
  | cons lexeme rest ih =>
    obtain ⟨here, later⟩ := List.forall_mem_cons.mp fits
    rw [checkBracketsFrom.eq_def]
    simp only
    split
    · refine ih (fun span mem => ?_) later
      cases opened with
      | none =>
        cases mem
        exact here
      | some first => exact inside span mem
    split
    · split
      · exact .atSpan _ here
      · exact ih inside later
    · exact ih inside later

/-- A sweep that moves no lexeme leaves all of them where they are. -/
private theorem sweep_yields {change : Option Lexeme → Lexeme → Option Lexeme → Except CompileError Lexeme}
    (each : ∀ previous, ∀ lexeme ∈ lexemes, ∀ next,
      Yields source lexeme.Stays (change previous lexeme next)) :
    Yields source (List.Forall₂ Stays lexemes) (sweep change previous lexemes) := by
  induction lexemes generalizing previous with
  | nil => exact .nil
  | cons lexeme rest ih =>
    refine (each previous lexeme List.mem_cons_self rest.head?).bind fun changed stays => ?_
    refine (ih fun previous lexeme mem next => each previous lexeme (List.mem_cons_of_mem _ mem) next).bind
      fun others rest => ?_
    exact List.Forall₂.cons stays rest

private theorem resolveName_yields (registry : Registry) (fits : lexeme.span.Fits source)
    (spelled : lexeme.Spelled) : Yields source lexeme.Stays (resolveName registry previous lexeme next) := by
  rw [resolveName]
  split
  · have known : Yields source (fun kind => Spelled { lexeme with kind := kind })
        (resolve registry lexeme (next.any opensGroup)) := by
      rw [resolve]
      split
      · next op found =>
        intro occurrence isOperator
        cases isOperator
        have same := List.find?_some (show List.find? _ _ = some op from found)
        exact (eq_of_beq same).symm
      split
      · split
        · intro occurrence isOperator
          cases isOperator
        · split <;> exact .atSpan _ fits
      · split
        · intro occurrence isOperator
          cases isOperator
        · split <;> exact .atSpan _ fits
    exact known.bind fun kind spelled => ⟨rfl, rfl, spelled⟩
  · exact ⟨rfl, rfl, spelled⟩

/-- Changing the form of an operator does not change what it is. -/
private theorem Spelled.stays {occurrence other : Occurrence} (spelled : lexeme.Spelled)
    (isOperator : lexeme.kind = .operator occurrence) (same : other.operator = occurrence.operator) :
    lexeme.Stays { lexeme with kind := .operator other } := by
  refine ⟨rfl, rfl, fun occurrence' isOther => ?_⟩
  cases isOther
  rw [same]
  exact spelled occurrence isOperator

private theorem resolveSide_yields (fits : lexeme.span.Fits source) (spelled : lexeme.Spelled) :
    Yields source lexeme.Stays (resolveSide previous lexeme next) := by
  rw [resolveSide]
  split
  · next occurrence isOperator =>
    split
    · exact ⟨rfl, rfl, spelled⟩
    split
    · exact spelled.stays isOperator rfl
    split
    · exact spelled.stays isOperator rfl
    · exact .atSpan _ fits
  · exact ⟨rfl, rfl, spelled⟩

private theorem resolveSign_yields (spelled : lexeme.Spelled) :
    Yields source lexeme.Stays (resolveSign previous lexeme next) := by
  rw [resolveSign]
  split
  · next occurrence isOperator =>
    split
    · exact spelled.stays isOperator rfl
    · exact ⟨rfl, rfl, spelled⟩
  · exact ⟨rfl, rfl, spelled⟩

private theorem exists_of_stays {changed : List Lexeme} (stay : List.Forall₂ Stays lexemes changed) :
    ∀ lexeme ∈ changed, ∃ original ∈ lexemes, original.Stays lexeme := by
  induction stay with
  | nil => simp
  | cons here _ ih =>
    refine List.forall_mem_cons.mpr ⟨⟨_, List.mem_cons_self, here⟩, fun lexeme mem => ?_⟩
    obtain ⟨original, isOriginal, stays⟩ := ih lexeme mem
    exact ⟨original, List.mem_cons_of_mem _ isOriginal, stays⟩

private theorem Laid.of_stays {changed : List Lexeme} (laid : Laid source lexemes)
    (stay : List.Forall₂ Stays lexemes changed) : Laid source changed := by
  have spans : changed.map (·.span) = lexemes.map (·.span) := by
    clear laid
    induction stay with
    | nil => rfl
    | cons here _ ih => rw [List.map_cons, List.map_cons, here.span, ih]
  refine ⟨spans ▸ laid.row, fun lexeme mem => ?_, fun lexeme mem => ?_⟩
  all_goals
    obtain ⟨original, isOriginal, stays⟩ := exists_of_stays stay lexeme mem
  · rw [stays.span, stays.text]
    exact laid.text original isOriginal
  · exact stays.spelled

/-- Classifying lexemes that lie in a row gives lexemes that do. -/
theorem classify_yields (registry : Registry) (laid : Laid source lexemes) :
    Yields source (Laid source) (classify registry lexemes) := by
  rw [classify_eq_sweeps]
  have checked := @checkBracketsFrom_yields source lexemes 0 none (by simp) fun lexeme mem => laid.fits mem
  refine checked.bind fun _ _ => ?_
  refine (sweep_yields fun previous lexeme mem next =>
    resolveName_yields registry (laid.fits mem) (laid.spelled lexeme mem)).bind fun resolved stay => ?_
  have laid := laid.of_stays stay
  refine (sweep_yields fun previous lexeme mem next =>
    resolveSide_yields (laid.fits mem) (laid.spelled lexeme mem)).bind fun sided stay => ?_
  have laid := laid.of_stays stay
  have signed := @sweep_yields source sided none resolveSign fun previous lexeme mem next =>
    resolveSign_yields (laid.spelled lexeme mem)
  cases swept : sweep resolveSign none sided with
  | ok classified => exact laid.of_stays (signed.of_ok swept)
  | error error => exact signed.of_error swept

end Reckoner.Lexeme
