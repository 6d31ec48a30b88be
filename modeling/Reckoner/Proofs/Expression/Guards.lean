import Reckoner.Proofs.Builder.Trail
import Reckoner.Proofs.Expression.Causes

/-!
What guards the compiler against itself. The tree builder could find a list unfinished that it needs, or nodes
left over, and the checker an operator without its operands, but no source brings them to it: each stage
objects only to what is written.
-/
namespace Reckoner

/-- Causes that no text can have, because the stages before keep it from happening. -/
def CompileError.Cause.isGuard : CompileError.Cause → Bool
  | unresolvedReference | danglingNodes _ | operandCount .. => true
  | _ => false

theorem Lexeme.Misread.not_isGuard {cause : CompileError.Cause} (h : Misread cause) : cause.isGuard = false := by
  cases h <;> rfl

theorem Lexeme.Misnamed.not_isGuard {cause : CompileError.Cause} (h : Misnamed cause) : cause.isGuard = false := by
  cases h <;> rfl

theorem Unbalanced.not_isGuard {cause : CompileError.Cause} (h : Unbalanced cause) : cause.isGuard = false := by
  rcases h with rfl | rfl <;> rfl

theorem Refusal.not_isGuard {cause : CompileError.Cause} (h : Refusal cause) : cause.isGuard = false := by
  cases h <;> rfl

theorem Tree.Mistyped.not_isGuard {cause : CompileError.Cause} (h : Mistyped cause) : cause.isGuard = false := by
  cases h with
  | unsupportedOperandType | operandTypeMismatch | notAnLvalue => rfl
  | call miscalled => cases miscalled <;> rfl

namespace Expression

open Builder (start consumers)
open Builder.Schedule (run trail)

/-- What never goes wrong while a source is compiled. -/
structure Guarded (registry : Registry) (passLimit : Nat) (source : String) : Prop where
  /-- No failure has a cause that only a fault of the compiler could have. -/
  causes : ∀ failure, compile registry passLimit source = .error failure →
    ∃ error, compileTree registry passLimit source = .error error ∧
      failure = .ofCompileError source error ∧ error.cause ≠ .unresolvedReference ∧
      (∀ count, error.cause ≠ .danglingNodes count) ∧
      ∀ symbol expected found, error.cause ≠ .operandCount symbol expected found
  /-- With every index looked at, compiling comes to the same. -/
  indices : Strict.compileTree registry passLimit source =
    Strict.lift (compileTree registry passLimit source)
  /-- Whatever brackets there are once the lexemes are classified, building does not object to them. -/
  brackets : ∀ lexemes classified, Lexeme.tokenize source = .ok lexemes →
    Lexeme.classify registry lexemes = .ok classified →
    ∀ error, Tree.build source classified passLimit = .error error →
      error.cause ≠ .bracketBalance ∧ error.cause ≠ .bracketOrder
  /-- Wherever the run over the lists gets to, no list has had to wait, and neither does the next one. -/
  moving : ∀ lexemes classified, Lexeme.tokenize source = .ok lexemes →
    Lexeme.classify registry lexemes = .ok classified →
    ∀ reached ∈ trail passLimit ⟨start source classified, [0], 0⟩,
      reached.stalled = 0 ∧ ∀ list rest, reached.queue = list :: rest →
        ∀ after, reached.builder.process list ≠ .ok (.waiting, after)
  /-- Where a tree is built, each list but the first is consumed by exactly one other. -/
  consumed : ∀ lexemes classified tree, Lexeme.tokenize source = .ok lexemes →
    Lexeme.classify registry lexemes = .ok classified →
    Tree.build source classified passLimit = .ok tree →
    ∃ built, run passLimit passLimit ⟨start source classified, [0], 0⟩ = .ok built ∧
      ∀ list : Nat, 0 < list → list < built.lists.size →
        ∃ parent, consumers list (trail passLimit ⟨start source classified, [0], 0⟩) = [parent]

variable {registry : Registry} {passLimit : Nat} {source : String} {error : CompileError}

/-- A text is at fault for what it does not compile for, or the limit on passes is. -/
theorem compileTree_error (h : compileTree registry passLimit source = .error error) :
    error.cause.isGuard = false := by
  rcases compileTree_error_cases h with
    unread | ⟨lexemes, -, unbalanced⟩ | misnamed | cutOff | refusal | mistyped
  · exact (Lexeme.scan_error unread).not_isGuard
  · exact (Lexeme.checkBracketsFrom_error unbalanced).not_isGuard
  · exact misnamed.not_isGuard
  · rw [cutOff]
    rfl
  · exact refusal.not_isGuard
  · exact mistyped.not_isGuard

/-- Compiling keeps to what its parts rely on. -/
theorem compile_guarded (registry : Registry) (passLimit : Nat) (source : String) :
    Guarded registry passLimit source := by
  constructor
  · intro failure failed
    unfold compile at failed
    split at failed
    · cases failed
    · next error failed' =>
      cases failed
      have notGuard := compileTree_error failed'
      refine ⟨error, failed', rfl, ?_, ?_, ?_⟩
      · intro same
        rw [same] at notGuard
        cases notGuard
      · intro count same
        rw [same] at notGuard
        cases notGuard
      · intro symbol expected found same
        rw [same] at notGuard
        cases notGuard
  · exact Strict.compileTree_eq registry passLimit source
  · intro lexemes classified read known error failed
    rcases Builder.build_refusal (Item.proper_of_classify read known) failed with cutOff | refusal
    · rw [cutOff]
      constructor
      · intro same
        cases same
      · intro same
        cases same
    · constructor
      · intro same
        rw [same] at refusal
        cases refusal
      · intro same
        rw [same] at refusal
        cases refusal
  · intro lexemes classified _ _ reached mem
    have start := Builder.scheduled_start source classified
    obtain ⟨scheduled, stalled⟩ := Builder.trail_scheduled start rfl reached mem
    refine ⟨stalled, fun list rest queued after processed => ?_⟩
    rw [queued] at scheduled
    exact (Builder.process_ok processed).not_waiting scheduled
  · intro lexemes classified tree _ _ isBuilt
    rcases Builder.build_cases source classified passLimit with ⟨_, _, failed⟩ | ⟨built, _, ran, -⟩
    · rw [failed] at isBuilt
      cases isBuilt
    · exact ⟨built, ran, fun list notTop made => Builder.exists_consumer_of_run ran notTop made⟩

end Expression

end Reckoner
