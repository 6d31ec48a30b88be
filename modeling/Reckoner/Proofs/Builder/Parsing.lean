import Mathlib
import Reckoner.Proofs.Builder.Classified
import Reckoner.Proofs.Builder.Meant

/-!
Building a tree list by list is parsing. Within the limit on passes exactly the expressions of the grammar
have a tree, and it is the one that the recursive parser reads.
-/
namespace Reckoner

open Lexeme

/-- A classified source has a tree exactly if it is an expression, and the tree is the parser's. -/
theorem Tree.build_iff_parse {registry : Registry} {source : String} {lexemes classified : List Lexeme}
    {limit : Nat} (read : tokenize source = .ok lexemes)
    (known : classify registry lexemes = .ok classified)
    (within : ∀ error, Tree.build source classified limit = .error error →
      error.cause ≠ .passLimitExceeded limit) :
    ((∃ tree, Tree.build source classified limit = .ok tree) ↔
        IsExpression (classified.map Lexeme.token)) ∧
      ∀ tree, Tree.build source classified limit = .ok tree →
        ∃ term, tree.term? = some term ∧ Grammar.parse? (classified.map Lexeme.token) = some term := by
  have proper := Item.proper_of_classify read known
  have accepts := Grammar.parse?_isSome_iff (definite_of_classify read known)
  have parsed : ∀ tree, Tree.build source classified limit = .ok tree →
      ∃ term, tree.term? = some term ∧
        Grammar.parse? (classified.map Lexeme.token) = some term := by
    intro tree built
    rw [Machine.parse?_eq_run]
    exact Builder.term?_of_build proper built
  refine ⟨⟨fun built => ?_, fun isExpression => ?_⟩, parsed⟩
  · obtain ⟨tree, built⟩ := built
    obtain ⟨term, -, read⟩ := parsed tree built
    exact accepts.mp (by simp [read])
  · cases built : Tree.build source classified limit with
    | ok tree => exact ⟨tree, rfl⟩
    | error error =>
      -- only something unreadable fails within the limit, and the parser reads an expression
      have unread := (Builder.build_error proper built).resolve_left (within error built)
      rw [← Machine.parse?_eq_run] at unread
      have isParsed := accepts.mpr isExpression
      rw [unread] at isParsed
      cases isParsed

/-- A cast binds to the sign after it, and a product before the sum is complete. -/
theorem Tree.build_iff_parse_cast :
    ∃ lexemes classified, tokenize "1 + (float) -2 * (3)" = .ok lexemes ∧
      classify .empty lexemes = .ok classified ∧
      IsExpression (classified.map Lexeme.token) ∧
      ∃ tree, Tree.build "1 + (float) -2 * (3)" classified 100 = .ok tree ∧
        ∃ term, tree.term? = some term ∧
          Grammar.parse? (classified.map Lexeme.token) = some term := by
  have built : ∃ lexemes classified tree, tokenize "1 + (float) -2 * (3)" = .ok lexemes ∧
      classify .empty lexemes = .ok classified ∧
      Tree.build "1 + (float) -2 * (3)" classified 100 = .ok tree :=
    ⟨_, _, _, by cbv, by cbv, by cbv⟩
  obtain ⟨lexemes, classified, tree, read, known, built⟩ := built
  have within : ∀ error, Tree.build "1 + (float) -2 * (3)" classified 100 = .error error →
      error.cause ≠ .passLimitExceeded 100 := by
    intro error failed
    rw [built] at failed
    cases failed
  obtain ⟨accepted, parsed⟩ := Tree.build_iff_parse read known within
  exact ⟨lexemes, classified, read, known, accepted.mp ⟨tree, built⟩, tree, built, parsed tree built⟩

end Reckoner
