import Reckoner.Proofs.Builder.Classified
import Reckoner.Proofs.Builder.Meant
import Reckoner.Proofs.Builder.Refusal
import Reckoner.Proofs.Builder.Wiring
import Reckoner.Proofs.Strict.Checking

/-!
What each stage of compiling objects to. Reading objects to characters, classifying to parentheses, then to names
and to step operators without a variable, building to what is no expression, and checking to types.
-/
namespace Reckoner

namespace Lexeme

/-- What can be wrong with the characters of a source. -/
inductive Misread : CompileError.Cause → Prop where
  | unexpectedCharacter (c : Char) : Misread (.unexpectedCharacter c)
  | unterminatedString : Misread .unterminatedString
  | literalOutOfRange (text : String) : Misread (.literalOutOfRange text)
  | invalidLiteral (text : String) : Misread (.invalidLiteral text)

/-- What can be wrong with lexemes whose parentheses are balanced. -/
inductive Misnamed : CompileError.Cause → Prop where
  | unknownFunction (name : String) : Misnamed (.unknownFunction name)
  | unknownVariable (name : String) : Misnamed (.unknownVariable name)
  | unexpectedToken (text : String) : Misnamed (.unexpectedToken text)
  | noLvalue (symbol : String) : Misnamed (.noLvalue symbol)

variable {error : CompileError} {lexemes : List Lexeme}

private theorem front_error {c : Char} {cs : List Char} {fault : Fault} (h : front c cs = .error fault) :
    Misread fault.cause := by
  cases finds_of_front h with
  | unterminated => exact .unterminatedString
  | misread _ _ _ _ refused =>
    rcases numeralValue_eq_error refused with rfl | rfl
    · exact .literalOutOfRange _
    · exact .invalidLiteral _
  | nothing => exact .unexpectedCharacter _

theorem scan_error {offset position : Nat} {cs : List Char}
    (h : scan offset position cs = .error error) : Misread error.cause := by
  fun_induction scan offset position cs with
  | case1 | case4 => cases h
  | case2 _ _ _ _ _ ih => exact ih h
  | case3 offset position c cs _ fault failed =>
    cases h
    exact front_error failed
  | case5 =>
    rename_i failed ih
    cases h
    exact ih failed

theorem checkBracketsFrom_error {depth : Nat} {firstOpen : Option Span}
    (h : checkBracketsFrom depth firstOpen lexemes = .error error) : Unbalanced error.cause := by
  fun_induction checkBracketsFrom depth firstOpen lexemes with
  | case1 => cases h
  | case2 =>
    cases h
    exact .inl rfl
  | case4 =>
    cases h
    exact .inr rfl
  | case3 _ _ _ _ _ ih => exact ih h
  | case5 _ _ _ _ _ _ ih => exact ih h
  | case6 _ _ _ _ _ _ ih => exact ih h

/-- A sweep fails at one of the lexemes. -/
theorem exists_of_sweep_error
    {change : Option Lexeme → Lexeme → Option Lexeme → Except CompileError Lexeme}
    {previous : Option Lexeme} (h : sweep change previous lexemes = .error error) :
    ∃ previous lexeme next, change previous lexeme next = .error error := by
  induction lexemes generalizing previous with
  | nil => cases h
  | cons lexeme rest ih =>
    rw [sweep] at h
    rcases bind_eq_error.mp h with failed | ⟨first, -, h⟩
    · exact ⟨previous, lexeme, rest.head?, failed⟩
    rcases bind_eq_error.mp h with failed | ⟨_, -, h⟩
    · exact ih failed
    · cases h

private theorem resolve_error {registry : Registry} {lexeme : Lexeme} {beforeGroup : Bool}
    (h : resolve registry lexeme beforeGroup = .error error) : Misnamed error.cause := by
  simp only [resolve] at h
  split at h
  · cases h
  split at h
  · split at h
    · cases h
    · split at h <;> cases h <;> constructor
  · split at h
    · cases h
    · split at h <;> cases h <;> constructor

private theorem resolveName_error {registry : Registry} {previous next : Option Lexeme} {lexeme : Lexeme}
    (h : resolveName registry previous lexeme next = .error error) : Misnamed error.cause := by
  unfold resolveName at h
  split at h
  · rcases bind_eq_error.mp h with failed | ⟨_, -, h⟩
    · exact resolve_error failed
    · cases h
  · cases h

private theorem resolveSide_error {previous next : Option Lexeme} {lexeme : Lexeme}
    (h : resolveSide previous lexeme next = .error error) : Misnamed error.cause := by
  unfold resolveSide at h
  split at h
  · split at h
    · cases h
    split at h
    · cases h
    split at h
    · cases h
    · cases h
      constructor
  · cases h

/-- Classifying objects to parentheses first, and then to names and step operators. -/
theorem classify_error {registry : Registry} (h : classify registry lexemes = .error error) :
    checkBrackets lexemes = .error error ∨ Misnamed error.cause := by
  rw [classify_eq_sweeps] at h
  rcases bind_eq_error.mp h with brackets | ⟨_, -, h⟩
  · exact .inl brackets
  right
  rcases bind_eq_error.mp h with failed | ⟨resolved, -, h⟩
  · obtain ⟨_, _, _, failed⟩ := exists_of_sweep_error failed
    exact resolveName_error failed
  rcases bind_eq_error.mp h with failed | ⟨sided, -, h⟩
  · obtain ⟨_, _, _, failed⟩ := exists_of_sweep_error failed
    exact resolveSide_error failed
  · rw [← resolveSigns_eq] at h
    cases h

end Lexeme

/-- Within the limit on passes, building objects to the items of a list. -/
theorem Builder.build_refusal {registry : Registry} {source : String} {lexemes : List Lexeme} {limit : Nat}
    {error : CompileError} (proper : Item.Proper registry (lexemes.map .lexeme))
    (h : Tree.build source lexemes limit = .error error) :
    error.cause = .passLimitExceeded limit ∨ Refusal error.cause := by
  rcases build_cases source lexemes limit with ⟨other, ran, failed⟩ | ⟨_, _, _, _, _, done⟩
  · rw [failed] at h
    cases h
    rcases @run_error_cases (Denotes registry _) Passed.denotes
      _ _ _ _ (scheduled_start source lexemes) ⟨_, meant_start source proper, rfl⟩ ran with
      cutOff | ⟨last, list, rest, scheduled, ⟨meaning, meant, -⟩, failed⟩
    · exact .inl cutOff
    · right
      refine (pass_refusal scheduled failed).resolve_right fun blamed => blamed.2 ?_
      exact (meant.proper list List.mem_cons_self).balanced
  · rw [done] at h
    cases h

namespace Tree

/-- What can be wrong with a call. -/
inductive Miscalled : CompileError.Cause → Prop where
  | unknownFunction (name : String) : Miscalled (.unknownFunction name)
  | arityMismatch (name : String) (expected found : Nat) : Miscalled (.arityMismatch name expected found)
  | argumentType (name : String) (index : Nat) (expected found : ValueType) :
      Miscalled (.argumentType name index expected found)

/-- What can be wrong with a tree whose operators have their operands. -/
inductive Mistyped : CompileError.Cause → Prop where
  | unsupportedOperandType (symbol : String) (type : ValueType) : Mistyped (.unsupportedOperandType symbol type)
  | operandTypeMismatch (symbol : String) (left right : ValueType) :
      Mistyped (.operandTypeMismatch symbol left right)
  | notAnLvalue (symbol : String) : Mistyped (.notAnLvalue symbol)
  | call {cause : CompileError.Cause} : Miscalled cause → Mistyped cause

variable {registry : Registry} {tree checked : Tree} {error : CompileError}

private theorem checkOperator_error {op : Operator} {fixity : Fixity} {span : Span} {operands : List Operand}
    (count : operands.length = fixity.operandCount)
    (h : checkOperator op fixity span operands = .error error) : Mistyped error.cause := by
  cases (checkOperator_error_iff count).mp h <;> constructor

theorem checkCall_error {name : String} {span : Span} {arguments : List Operand}
    (h : checkCall registry name span arguments = .error error) : Miscalled error.cause := by
  cases checkCall_error_iff.mp h <;> constructor

/-- Where operators have their operands, checking objects to types and to names. -/
theorem check_error {order : List NodeId}
    (operands : ∀ id op fixity, (tree.node id).kind = .operator op fixity →
      (tree.node id).children.length = fixity.operandCount)
    (h : tree.check registry order = (.error error, checked)) : Mistyped error.cause := by
  induction order generalizing tree with
  | nil => cases h
  | cons id rest ih =>
    rw [check] at h
    split at h
    · refine ih (fun other op fixity kind => ?_) h
      rw [kind_setType] at kind
      rw [children_setType]
      exact operands other op fixity kind
    · next failed =>
      cases h
      simp only [checkNode] at failed
      split at failed
      · cases failed
      · cases failed
      · cases failed
      · next kind =>
        refine checkOperator_error ?_ failed
        rw [operandsOf, List.length_map]
        exact operands _ _ _ kind
      · exact .call (checkCall_error failed)

end Tree

namespace Expression

/-- The stages at which a source can be refused. -/
theorem compileTree_error_cases {registry : Registry} {passLimit : Nat} {source : String} {error : CompileError}
    (h : compileTree registry passLimit source = .error error) :
    Lexeme.tokenize source = .error error ∨
      (∃ lexemes, Lexeme.tokenize source = .ok lexemes ∧ Lexeme.checkBrackets lexemes = .error error) ∨
      Lexeme.Misnamed error.cause ∨ error.cause = .passLimitExceeded passLimit ∨ Refusal error.cause ∨
      Tree.Mistyped error.cause := by
  rcases bind_eq_error.mp h with unparsed | ⟨tree, parsed, h⟩
  · rcases bind_eq_error.mp unparsed with unread | ⟨lexemes, read, unparsed⟩
    · exact .inl unread
    right
    rcases bind_eq_error.mp unparsed with unknown | ⟨classified, known, unbuilt⟩
    · rcases Lexeme.classify_error unknown with brackets | misnamed
      · exact .inl ⟨lexemes, read, brackets⟩
      · exact .inr (.inl misnamed)
    · rcases Builder.build_refusal (Item.proper_of_classify read known) unbuilt with cutOff | refusal
      · exact .inr (.inr (.inl cutOff))
      · exact .inr (.inr (.inr (.inl refusal)))
  · obtain ⟨lexemes, -, parsed⟩ := bind_eq_ok.mp parsed
    obtain ⟨classified, -, built⟩ := bind_eq_ok.mp parsed
    dsimp only at h
    split at h
    · cases h
    · next failed =>
      cases h
      exact .inr (.inr (.inr (.inr (.inr (Tree.check_error (Builder.wired_of_build built).operands failed)))))

end Expression

end Reckoner
