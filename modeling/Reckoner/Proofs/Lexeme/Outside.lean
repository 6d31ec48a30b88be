import Reckoner.Proofs.Lexeme.Balance
import Reckoner.Proofs.Lexeme.Front
import Reckoner.Proofs.Lexeme.Partition

/-!
What stands outside of texts. The lexemes of an expression and the pieces of a line cut a source differently, but
both take a text from one double quote to the next. So outside of texts they meet the same parentheses, and
neither is left with a double quote if the other is not.
-/
namespace Reckoner

/-- The characters that are not between double quotes, where the first one is if `quoted`. -/
def outside (quoted : Bool) : List Char → List Char
  | [] => []
  | c :: cs =>
    if c = '"' then outside (!quoted) cs
    else if quoted then outside quoted cs
    else c :: outside quoted cs

/-- The double quotes come in pairs, and outside of them `opened` more parentheses are opened than `closed` more
are closed. -/
structure Tally (cs : List Char) (opened closed : Nat) : Prop where
  paired : cs.count '"' % 2 = 0
  balance : (outside false cs).count '(' + closed = (outside false cs).count ')' + opened

variable {c : Char} {cs text body rest after : List Char} {opened closed : Nat}

theorem outside_append (unquoted : '"' ∉ text) (rest : List Char) :
    outside false (text ++ rest) = text ++ outside false rest := by
  induction text with
  | nil => rfl
  | cons c text ih =>
    obtain ⟨differs, others⟩ := not_or.mp (mt List.mem_cons.mpr unquoted)
    rw [List.cons_append, outside, if_neg (Ne.symm differs), if_neg Bool.false_ne_true, ih others,
      List.cons_append]

private theorem outside_inside (unquoted : '"' ∉ body) (rest : List Char) :
    outside true (body ++ '"' :: rest) = outside false rest := by
  induction body with
  | nil => simp [outside]
  | cons c body ih =>
    obtain ⟨differs, others⟩ := not_or.mp (mt List.mem_cons.mpr unquoted)
    rw [List.cons_append, outside, if_neg (Ne.symm differs), if_pos rfl, ih others]

/-- What is between double quotes is left out. -/
theorem outside_quoted (quoted : Lexeme.Quoted text) (rest : List Char) :
    outside false (text ++ rest) = outside false rest := by
  obtain ⟨body, unquoted, rfl⟩ := quoted
  rw [List.cons_append, List.append_assoc, outside, if_pos rfl]
  exact outside_inside unquoted rest

namespace Tally

theorem nil : Tally [] 0 0 :=
  ⟨rfl, rfl⟩

/-- What has no double quotes adds its own parentheses. -/
theorem append (h : Tally rest opened closed) (unquoted : '"' ∉ text) {more less : Nat}
    (balance : text.count '(' + less = text.count ')' + more) :
    Tally (text ++ rest) (more + opened) (less + closed) := by
  constructor
  · rw [List.count_append, List.count_eq_zero_of_not_mem unquoted, Nat.zero_add]
    exact h.paired
  · have later := h.balance
    rw [outside_append unquoted, List.count_append, List.count_append]
    omega

/-- A text adds nothing. -/
theorem quoted (h : Tally rest opened closed) (quoted : Lexeme.Quoted text) :
    Tally (text ++ rest) opened closed := by
  refine ⟨?_, by rw [outside_quoted quoted]; exact h.balance⟩
  obtain ⟨body, unquoted, rfl⟩ := quoted
  have paired := h.paired
  have none := List.count_eq_zero_of_not_mem unquoted
  simp only [List.cons_append, List.append_assoc, List.count_cons, List.count_append, List.count_nil, none]
  simp
  omega

/-- What has neither double quotes nor parentheses adds nothing, either. -/
theorem plain (h : Tally rest opened closed) (free : ∀ c ∈ text, c ≠ '"' ∧ c ≠ '(' ∧ c ≠ ')') :
    Tally (text ++ rest) opened closed := by
  have opens : '(' ∉ text := fun mem => (free _ mem).2.1 rfl
  have closes : ')' ∉ text := fun mem => (free _ mem).2.2 rfl
  have tally := @append text rest _ _ h (fun mem => (free _ mem).1 rfl) 0 0
  rw [List.count_eq_zero_of_not_mem opens, List.count_eq_zero_of_not_mem closes] at tally
  simpa using tally rfl

/-- However a source is cut, its parentheses balance in the same way. -/
theorem unique (h : Tally cs opened closed) {opened' closed' : Nat} (h' : Tally cs opened' closed') :
    opened + closed' = opened' + closed := by
  have one := h.balance
  have other := h'.balance
  omega

end Tally

/-- The characters of a numeral are neither double quotes nor parentheses. -/
theorem Numeral.Literal.plain (h : Numeral.Literal text) : ∀ c ∈ text, c ≠ '"' ∧ c ≠ '(' ∧ c ≠ ')' := by
  intro c mem
  obtain ⟨state, stepped⟩ := h.exists_step c mem
  refine ⟨?_, ?_, ?_⟩ <;> rintro rfl <;> cases state <;> exact stepped rfl

namespace Lexeme

/-- A lexeme is the operator that it is written like. -/
theorem isOperatorOf_iff {op : Operator} {span : Span} {position : Nat} :
    (⟨String.ofList text, span, position, kindOf text⟩ : Lexeme).isOperatorOf op = true ↔
      text = op.symbol.toList := by
  constructor
  · intro same
    cases kind : kindOf text with
    | operator occurrence =>
      simp only [isOperatorOf, occurrence?, kind, Option.any_some, beq_iff_eq] at same
      rw [← same, ← symbol_of_kindOf kind, String.toList_ofList]
    | unresolved | function | constant | «variable» => simp [isOperatorOf, occurrence?, kind] at same
  · rintro rfl
    simp [isOperatorOf, occurrence?, kindOf_symbol, Occurrence.ofOperator]

theorem opensGroup_iff {span : Span} {position : Nat} :
    (⟨String.ofList text, span, position, kindOf text⟩ : Lexeme).opensGroup = true ↔ text = ['('] :=
  isOperatorOf_iff

theorem closesGroup_iff {span : Span} {position : Nat} :
    (⟨String.ofList text, span, position, kindOf text⟩ : Lexeme).closesGroup = true ↔ text = [')'] :=
  isOperatorOf_iff

theorem ne_of_isGap (gap : isGap c = true) : c ≠ '"' ∧ c ≠ '(' ∧ c ≠ ')' := by
  refine ⟨?_, ?_, ?_⟩ <;> rintro rfl <;> cases gap

theorem ne_of_isContinue (continues : Identifier.isContinue c = true) : c ≠ '"' ∧ c ≠ '(' ∧ c ≠ ')' := by
  refine ⟨?_, ?_, ?_⟩ <;> rintro rfl <;> cases continues

/-- A piece that is no parenthesis adds nothing. -/
private theorem Munches.tally (munches : Munches cs text) (h : Tally rest opened closed) :
    Tally (text ++ rest) ((if text = ['('] then 1 else 0) + opened) ((if text = [')'] then 1 else 0) + closed) := by
  have other (tally : Tally (text ++ rest) opened closed) (opens : text ≠ ['(']) (closes : text ≠ [')']) :
      Tally (text ++ rest) ((if text = ['('] then 1 else 0) + opened)
        ((if text = [')'] then 1 else 0) + closed) := by
    rwa [if_neg opens, if_neg closes, Nat.zero_add, Nat.zero_add]
  cases munches with
  | symbol longest =>
    obtain ⟨op, rfl⟩ := longest.here
    apply h.append <;> cases op <;> decide
  | word _ longest =>
    refine other (h.plain fun c mem => ne_of_isContinue (longest.here.isContinue c mem)) ?_ ?_ <;> rintro rfl <;>
      cases longest.here
  | quoted _ longest =>
    refine other (h.quoted longest.here) ?_ ?_ <;> rintro rfl <;> obtain ⟨_, _, same⟩ := longest.here <;> cases same
  | numeral _ longest =>
    have free := longest.here.plain
    refine other (h.plain free) ?_ ?_ <;> rintro rfl
    · exact (free _ (List.mem_singleton_self _)).2.1 rfl
    · exact (free _ (List.mem_singleton_self _)).2.2 rfl

/-- What lexemes are cut out of has their parentheses. -/
theorem Cut.tally {before : List Char} {position : Nat} (h : Cut before position cs lexemes) :
    Tally cs (lexemes.countP opensGroup) (lexemes.countP closesGroup) := by
  induction h with
  | @done _ gap _ blank =>
    rw [← List.append_nil gap]
    exact Tally.nil.plain fun c mem => ne_of_isGap (blank c mem)
  | next blank munches _ _ ih =>
    refine .plain ?_ fun c mem => ne_of_isGap (blank c mem)
    rw [List.countP_cons, List.countP_cons, Nat.add_comm, Nat.add_comm (List.countP _ _)]
    simp only [opensGroup_iff, closesGroup_iff]
    exact munches.tally ih

/-- The lexemes of a source have its parentheses. -/
theorem tally_of_tokenize {source : String} (free : '\x00' ∉ source.toList) (read : tokenize source = .ok lexemes) :
    Tally source.toList (lexemes.countP opensGroup) (lexemes.countP closesGroup) := by
  rw [tokenize, sourceChars_eq free] at read
  exact (@cut_of_scan [] _ _ _ read).tally

private theorem paired_of_munches (munches : Munches cs text) : text.count '"' % 2 = 0 := by
  have tally := munches.tally .nil
  rw [List.append_nil] at tally
  exact tally.paired

/-- Only a double quote with no other one behind it begins a text that is not closed. -/
private theorem unclosed_of_front {fault : Fault} (failed : front c cs = .error fault)
    (unterminated : fault.cause = .unterminatedString) : c = '"' ∧ '"' ∉ cs := by
  cases finds_of_front failed with
  | unterminated _ _ quote unclosed =>
    refine ⟨quote, fun mem => ?_⟩
    have whole := (List.takeWhile_prefix (· != '"')).eq_of_length_le (Nat.not_lt.mp unclosed)
    have passes := List.takeWhile_eq_self_iff.mp whole '"' mem
    cases passes
  | misread _ _ _ _ refused =>
    rcases numeralValue_eq_error refused with rfl | rfl <;> cases unterminated
  | nothing => cases unterminated

/-- Where a text is not closed there is an odd number of double quotes. -/
theorem odd_of_scan {offset position : Nat} {error : CompileError}
    (failed : scan offset position cs = .error error) (unterminated : error.cause = .unterminatedString) :
    cs.count '"' % 2 = 1 := by
  fun_induction scan offset position cs with
  | case1 | case4 => cases failed
  | case2 offset position c cs gap ih =>
    rw [List.count_cons_of_ne (ne_of_isGap gap).1]
    exact ih failed
  | case3 offset position c cs _ fault isFront =>
    cases failed
    obtain ⟨rfl, others⟩ := unclosed_of_front isFront unterminated
    rw [List.count_cons_self, List.count_eq_zero_of_not_mem others]
  | case5 offset position c cs _ found isFront text stop other refused =>
    rename_i ih
    have split : text ++ cs.drop found.more = c :: cs := by
      simp [text, List.take_append_drop]
    have inside : text.count '"' % 2 = 0 := paired_of_munches (munches_of_front isFront).1
    have behind := ih (by rw [refused]; exact failed)
    rw [← split, List.count_append]
    omega

/-- If the check of the parentheses goes through, as many are closed as are open, and if some stay open there are
more of these. -/
theorem count_of_checkBracketsFrom (depth : Nat) (firstOpen : Option Span) (lexemes : List Lexeme) :
    (checkBracketsFrom depth firstOpen lexemes = .ok () →
        depth + lexemes.countP opensGroup = lexemes.countP closesGroup) ∧
      ∀ error, checkBracketsFrom depth firstOpen lexemes = .error error → error.cause = .bracketBalance →
        lexemes.countP closesGroup < depth + lexemes.countP opensGroup := by
  fun_induction checkBracketsFrom depth firstOpen lexemes with
  | case1 depth => simp
  | case2 depth firstOpen positive =>
    simp only [List.countP_nil]
    exact ⟨nofun, fun _ _ _ => by omega⟩
  | case3 depth firstOpen lexeme rest opens ih =>
    rw [List.countP_cons_of_pos opens, List.countP_cons_of_neg (not_closesGroup opens)]
    rwa [Nat.add_right_comm, Nat.add_assoc] at ih
  | case4 firstOpen lexeme rest opens closes =>
    refine ⟨nofun, ?_⟩
    rintro _ ⟨⟩ balance
    cases balance
  | case5 firstOpen lexeme rest opens closes depth ih =>
    rw [List.countP_cons_of_neg opens, List.countP_cons_of_pos closes]
    refine ⟨fun ran => ?_, fun error failed balance => ?_⟩
    · have same := ih.1 ran
      omega
    · have more := ih.2 error failed balance
      omega
  | case6 depth firstOpen lexeme rest opens closes ih =>
    rwa [List.countP_cons_of_neg opens, List.countP_cons_of_neg closes]

end Lexeme

end Reckoner
