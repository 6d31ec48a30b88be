import Reckoner.Proofs.Builder.Proper
import Reckoner.Proofs.Grammar.Language
import Reckoner.Proofs.Lexeme.Neighbours

/-!
The items that a classified source begins with. They are in the order that the tree builder relies on,
and none of their operators can be read in two ways.
-/
namespace Reckoner

open Lexeme

variable {registry : Registry}

/-- A settled operator takes its operand from one side, or stands between two. -/
theorem Occurrence.Settled.definite {occurrence : Occurrence} (h : occurrence.Settled)
    (binary : occurrence.form.binary = true) : occurrence.form.trailing = false := by
  cases h with
  | plain op plain => cases op <;> first | rfl | cases plain
  | before op => rfl
  | after op => cases binary
  | sign op => cases binary

/-- A mark has operands on no side. -/
theorem Occurrence.Settled.not_isPunctuation {occurrence : Occurrence} (h : occurrence.Settled)
    (trailing : occurrence.form.trailing = true) : occurrence.operator.isPunctuation = false := by
  cases h with
  | plain op => cases op <;> first | rfl | cases trailing
  | before op needs | after op needs => cases op <;> first | rfl | cases needs
  | sign op sign => cases op <;> first | rfl | cases sign

namespace Lexeme

theorem occurrence?_eq_some {lexeme : Lexeme} {occurrence : Occurrence} :
    lexeme.occurrence? = some occurrence ↔ lexeme.kind = .operator occurrence := by
  unfold occurrence?
  cases lexeme.kind <;> simp

theorem Settled.occurrence {lexeme : Lexeme} (h : lexeme.Settled registry) {occurrence : Occurrence}
    (isOperator : lexeme.kind = .operator occurrence) : occurrence.Settled := by
  unfold Settled at h
  rwa [isOperator] at h

end Lexeme

/-- No operator of a classified source can stand between two operands as well as behind one. -/
theorem definite_of_classify {source : String} {lexemes classified : List Lexeme}
    (read : tokenize source = .ok lexemes) (h : classify registry lexemes = .ok classified) :
    Definite (classified.map Lexeme.token) := by
  intro occurrence mem binary
  obtain ⟨lexeme, isLexeme, same⟩ := List.mem_map.mp mem
  have isOperator : (Item.lexeme lexeme).token (fun _ => none) = .operator occurrence := same
  obtain ⟨-, found⟩ := Item.token_eq_operator.mp isOperator
  have settled := settled_of_classify read h lexeme isLexeme
  exact (settled.occurrence (occurrence?_eq_some.mp found)).definite binary

namespace Item

private theorem adjacent_of_follows {first second : Lexeme} (settled : first.Settled registry)
    (calls : first.kind = .function → second.opensGroup = true)
    (lvalue : BehindLvalue (some first) second) (operand : BehindOperand (some first) second) :
    Adjacent (.lexeme first) (.lexeme second) := by
  refine ⟨fun trailing => ?_, fun sign => ?_, fun isFunction => calls (isFunction_lexeme.mp isFunction)⟩
  · simp only [trails, Bool.and_eq_true, Option.any_eq_true] at trailing
    obtain ⟨-, occurrence, found, trailing⟩ := trailing
    have isVariable := lvalue occurrence (occurrence?_eq_some.mp found) trailing
    simp only [Option.any_some, isLvalue] at isVariable
    simp only [isEvaluable, Lexeme.isEvaluable]
    split at isVariable
    · next cell isCell => rw [isCell]
    · cases isVariable
  · simp only [isSign, Bool.and_eq_true, Option.any_eq_true] at sign
    obtain ⟨isOperator, occurrence, found, binary, leading⟩ := sign
    have isSecond := occurrence?_eq_some.mp found
    have ends := operand occurrence isSecond (by simp [Form.isIndefinite, binary, leading])
    simp only [Option.any_some, endsOperand] at ends
    split at ends
    · next none =>
      left
      simp only [isEvaluable, Lexeme.isEvaluable]
      simp only [Lexeme.occurrence?] at none
      cases kind : first.kind with
      | unresolved => simp [Lexeme.Settled, kind] at settled
      | operator other => simp [kind] at none
      | function =>
        -- a name is followed by a parenthesis, which is no sign
        have opens : (Item.lexeme second).token (fun _ => Option.none) = .opening :=
          token_eq_opening.mpr (calls kind)
        rw [token_eq_operator.mpr ⟨isOperator, found⟩] at opens
        cases opens
      | constant | «variable» => rfl
    · next other isFirst =>
      right
      rw [Bool.or_eq_true] at ends
      rcases ends with closes | trailing
      · right
        simpa [closesGroup, Lexeme.closesGroup, isOperatorOf, isFirst] using closes
      · left
        have mark := (settled.occurrence (occurrence?_eq_some.mp isFirst)).not_isPunctuation trailing
        simp [trails, Item.isOperator, Lexeme.isOperator, occurrence?, isFirst, mark, trailing]

private theorem isChain_of_follows {previous : Option Lexeme} {lexemes : List Lexeme}
    (settled : ∀ lexeme ∈ lexemes, lexeme.Settled registry) (calls : Calls lexemes)
    (follows : Follows (fun previous lexeme => BehindLvalue previous lexeme ∧ BehindOperand previous lexeme)
      previous lexemes) :
    (lexemes.map Item.lexeme).IsChain Adjacent ∧
      ∀ item ∈ (lexemes.map Item.lexeme).getLast?, item.isFunction = false := by
  induction lexemes generalizing previous with
  | nil => exact ⟨.nil, by simp⟩
  | cons first rest ih =>
    obtain ⟨here, settled⟩ := List.forall_mem_cons.mp settled
    obtain ⟨chain, last⟩ := ih settled calls.2 follows.2
    cases rest with
    | nil =>
      refine ⟨.singleton _, fun item isLast => ?_⟩
      cases isLast
      by_contra named
      cases calls.1 (isFunction_lexeme.mp (by simpa using named))
    | cons second rest =>
      refine ⟨.cons_cons (adjacent_of_follows here (fun kind => ?_) follows.2.1.1 follows.2.1.2) chain, ?_⟩
      · simpa using calls.1 kind
      · intro item isLast
        exact last item (by simpa using isLast)

/-- Parentheses that pass the check are balanced, also after classifying. -/
private theorem balanced_of_checkBrackets {depth : Nat} {opened : Option Span}
    {lexemes classified : List Lexeme} (h : checkBracketsFrom depth opened lexemes = .ok ())
    (same : classified.map place = lexemes.map place) :
    Token.Balanced depth (outline (classified.map Item.lexeme)) := by
  induction lexemes generalizing depth opened classified with
  | nil =>
    obtain rfl := List.map_eq_nil_iff.mp same
    simp only [checkBracketsFrom] at h
    split at h
    · next closed =>
      rw [closed]
      rfl
    · cases h
  | cons lexeme rest ih =>
    obtain ⟨lexeme', rest', rfl, here, later⟩ := List.map_eq_cons_iff.mp same
    have opens : (Item.lexeme lexeme').opensGroup = lexeme.opensGroup := isOperatorOf_congr here _
    have closes : (Item.lexeme lexeme').closesGroup = lexeme.closesGroup := isOperatorOf_congr here _
    simp only [checkBracketsFrom] at h
    refine balanced_cons.mpr ?_
    rw [opens, closes]
    split at h
    · next isOpening =>
      rw [if_pos isOpening]
      exact ih h later
    next notOpening =>
    rw [if_neg notOpening]
    split at h
    · next isClosing =>
      rw [if_pos isClosing]
      cases depth with
      | zero => cases h
      | succ depth => exact ⟨Nat.succ_pos _, ih h later⟩
    · next notClosing =>
      rw [if_neg notClosing]
      exact ih h later

/-- A classified source is as the tree builder needs it. -/
theorem proper_of_classify {source : String} {lexemes classified : List Lexeme}
    (read : tokenize source = .ok lexemes) (h : classify registry lexemes = .ok classified) :
    Proper registry (classified.map .lexeme) := by
  have settled := settled_of_classify read h
  obtain ⟨same, calls, follows⟩ := classify_follows read h
  obtain ⟨chain, last⟩ := isChain_of_follows settled calls follows
  have checked := checkBrackets_of_classify h
  refine ⟨⟨fun lexeme mem => ?_, ?_, balanced_of_checkBrackets checked same, chain, last⟩, fun item isFirst => ?_⟩
  · obtain ⟨other, isOther, same⟩ := List.mem_map.mp mem
    cases same
    exact settled _ isOther
  · exact List.pairwise_map.mpr (sorted_of_classify read h)
  · -- nothing stands in front of the first lexeme
    cases classified with
    | nil => cases isFirst
    | cons lexeme rest =>
      cases isFirst
      obtain ⟨⟨lvalue, operand⟩, -⟩ := follows
      constructor
      · by_contra trailing
        simp only [trails, Bool.not_eq_false, Bool.and_eq_true, Option.any_eq_true] at trailing
        obtain ⟨-, occurrence, found, trailing⟩ := trailing
        cases lvalue occurrence (occurrence?_eq_some.mp found) trailing
      · by_contra sign
        simp only [isSign, Bool.not_eq_false, Bool.and_eq_true, Option.any_eq_true] at sign
        obtain ⟨-, occurrence, found, binary, leading⟩ := sign
        cases operand occurrence (occurrence?_eq_some.mp found)
          (by simp [Form.isIndefinite, binary, leading])

end Item

end Reckoner
