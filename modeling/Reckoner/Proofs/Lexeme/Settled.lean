import Reckoner.Lexeme.Classify
import Reckoner.Proofs.Lexeme.Finding
import Reckoner.Proofs.Outcome

/-!
What the lexemes of an expression can be once they are classified. Names are resolved against the
registry, and an operator has the form of its table row, or one of the unary forms that its row allows.
-/
namespace Reckoner

/-- An operator in one of the forms that classifying gives it. -/
inductive Occurrence.Settled : Occurrence → Prop where
  /-- As its row has it, if that says where its operands stand. -/
  | plain (op : Operator) : op.form.needsSide = false → Settled (.ofOperator op)
  /-- A step operator in front of a variable. -/
  | before (op : Operator) : op.form.needsSide = true →
      Settled ((Occurrence.ofOperator op).asUnary ⟨false, true, false, true⟩)
  /-- A step operator behind a variable. -/
  | after (op : Operator) : op.form.needsSide = true →
      Settled ((Occurrence.ofOperator op).asUnary ⟨false, false, true, true⟩)
  /-- A sign that has nothing in front of it. -/
  | sign (op : Operator) : op.form.isIndefinite = true →
      Settled ((Occurrence.ofOperator op).asUnary { op.form with binary := false })

namespace Lexeme

/-- What a classified lexeme can be. -/
def Settled (registry : Registry) (lexeme : Lexeme) : Prop :=
  match lexeme.kind with
  | .unresolved => False
  | .operator occurrence => occurrence.Settled
  | .function => (registry.function? lexeme.text).isSome = true
  | .constant _ => True
  | .variable cell => registry.cellOf? lexeme.text = some cell

/-- What a lexeme can be before it is classified. -/
def Raw (kind : Kind) : Prop :=
  match kind with
  | .unresolved | .constant _ => True
  | .operator occurrence => occurrence = .ofOperator occurrence.operator
  | .function | .variable _ => False

/-- What a lexeme can be once the names are looked up. -/
def Resolved (registry : Registry) (lexeme : Lexeme) : Prop :=
  match lexeme.kind with
  | .unresolved => False
  | .operator occurrence => occurrence = .ofOperator occurrence.operator
  | .function => (registry.function? lexeme.text).isSome = true
  | .constant _ => True
  | .variable cell => registry.cellOf? lexeme.text = some cell

private theorem raw_of_front {c : Char} {cs : List Char} {found : Front}
    (h : front c cs = .ok found) : Raw found.kind := by
  cases finds_of_front h with
  | symbol => rfl
  | identifier =>
    simp only [identifierAtFront, wordKind]
    split
    · trivial
    · split <;> trivial
  | text | numeral => trivial

theorem raw_of_scan {offset position : Nat} {cs : List Char} {lexemes : List Lexeme}
    (h : scan offset position cs = .ok lexemes) : ∀ lexeme ∈ lexemes, Raw lexeme.kind := by
  fun_induction scan offset position cs generalizing lexemes with
  | case1 =>
    cases h
    simp
  | case2 _ _ _ _ _ ih => exact ih h
  | case3 | case5 => cases h
  | case4 offset position c cs _ found isFront text stop lexeme rest ran =>
    rename_i ih
    cases h
    exact List.forall_mem_cons.mpr ⟨raw_of_front isFront, ih ran⟩

private theorem resolve_resolved {registry : Registry} {lexeme : Lexeme} {beforeGroup : Bool}
    {kind : Kind} (h : resolve registry lexeme beforeGroup = .ok kind) :
    Resolved registry { lexeme with kind := kind } := by
  simp only [resolve] at h
  split at h
  · cases h
    rfl
  split at h
  · split at h
    · next known =>
      cases h
      exact known
    · split at h <;> cases h
  · split at h
    · next cell found =>
      cases h
      exact found
    · split at h <;> cases h

theorem resolveNames_resolved {registry : Registry} {lexemes resolved : List Lexeme}
    (raw : ∀ lexeme ∈ lexemes, Raw lexeme.kind) (h : resolveNames registry lexemes = .ok resolved) :
    ∀ lexeme ∈ resolved, Resolved registry lexeme := by
  induction lexemes generalizing resolved with
  | nil =>
    cases h
    simp
  | cons lexeme rest ih =>
    obtain ⟨here, later⟩ := List.forall_mem_cons.mp raw
    rw [resolveNames.eq_def] at h
    simp only at h
    split at h
    · split at h
      · cases h
      · next kind looked =>
        split at h <;> cases h
        next resolved ran =>
        exact List.forall_mem_cons.mpr ⟨resolve_resolved looked, ih later ran⟩
    · next known =>
      split at h <;> cases h
      next resolved ran =>
      refine List.forall_mem_cons.mpr ⟨?_, ih later ran⟩
      unfold Raw at here
      unfold Resolved
      split at here
      · exact absurd ‹_› known
      · next isConstant => simp only [isConstant]
      · next isOperator => simpa only [isOperator] using here
      · cases here
      · cases here

/-- A lexeme once the step operators have their sides. -/
private def Sided (registry : Registry) (lexeme : Lexeme) : Prop :=
  lexeme.Settled registry ∧ ∀ occurrence, lexeme.kind = .operator occurrence →
    occurrence.form.isIndefinite = true → occurrence = .ofOperator occurrence.operator

private theorem sided_of_resolved {registry : Registry} {lexeme : Lexeme}
    (h : lexeme.Resolved registry)
    (plain : ∀ occurrence, lexeme.kind = .operator occurrence → occurrence.form.needsSide = false) :
    lexeme.Sided registry := by
  unfold Resolved at h
  unfold Sided Settled
  split at h
  · cases h
  · next occurrence isOperator =>
    simp only [isOperator, Kind.operator.injEq, forall_eq']
    refine ⟨?_, fun _ => h⟩
    have side := plain occurrence isOperator
    rw [h] at side ⊢
    exact .plain _ side
  all_goals simp_all

private theorem resolveSides_sided {registry : Registry} {previous : Option Lexeme}
    {lexemes sided : List Lexeme} (resolved : ∀ lexeme ∈ lexemes, Resolved registry lexeme)
    (h : resolveSides previous lexemes = .ok sided) : ∀ lexeme ∈ sided, Sided registry lexeme := by
  induction lexemes generalizing previous sided with
  | nil =>
    cases h
    simp
  | cons lexeme rest ih =>
    obtain ⟨here, later⟩ := List.forall_mem_cons.mp resolved
    rw [resolveSides.eq_def] at h
    simp only at h
    split at h
    · cases h
    next lexeme' side =>
    split at h <;> cases h
    next sided ran =>
    refine List.forall_mem_cons.mpr ⟨?_, ih later ran⟩
    split at side
    · next occurrence isOperator =>
      have same : occurrence = .ofOperator occurrence.operator := by
        simpa [Resolved, isOperator] using here
      split at side
      · next plain =>
        cases side
        refine sided_of_resolved here fun other isOther => ?_
        rw [isOperator] at isOther
        cases isOther
        simpa using plain
      next needsSide =>
      have needs : occurrence.operator.form.needsSide = true := by
        rw [same] at needsSide
        simpa [Occurrence.ofOperator] using needsSide
      split at side
      · cases side
        refine ⟨?_, fun other isOther indefinite => ?_⟩
        · simp only [Settled]
          rw [same]
          exact .before _ needs
        · cases isOther
          simp [Occurrence.asUnary, Form.isIndefinite] at indefinite
      split at side
      · cases side
        refine ⟨?_, fun other isOther indefinite => ?_⟩
        · simp only [Settled]
          rw [same]
          exact .after _ needs
        · cases isOther
          simp [Occurrence.asUnary, Form.isIndefinite] at indefinite
      · cases side
    · next notOperator =>
      cases side
      exact sided_of_resolved here fun occurrence isOperator => absurd isOperator (notOperator _)

private theorem resolveSigns_settled {registry : Registry} {previous : Option Lexeme}
    {lexemes : List Lexeme} (sided : ∀ lexeme ∈ lexemes, Sided registry lexeme) :
    ∀ lexeme ∈ resolveSigns previous lexemes, Settled registry lexeme := by
  induction lexemes generalizing previous with
  | nil => simp [resolveSigns]
  | cons lexeme rest ih =>
    obtain ⟨here, later⟩ := List.forall_mem_cons.mp sided
    rw [resolveSigns]
    refine List.forall_mem_cons.mpr ⟨?_, ih later⟩
    split
    · next occurrence isOperator =>
      split
      · next sign =>
        simp only [Bool.and_eq_true] at sign
        have same := here.2 occurrence isOperator sign.1
        rw [same] at sign ⊢
        exact .sign _ sign.1
      · exact here.1
    · exact here.1

/-- What the stages of classifying came to. -/
theorem stages_of_classify {registry : Registry} {lexemes classified : List Lexeme}
    (h : classify registry lexemes = .ok classified) :
    checkBrackets lexemes = .ok () ∧ ∃ resolved sided, resolveNames registry lexemes = .ok resolved ∧
      resolveSides none resolved = .ok sided ∧ resolveSigns none sided = classified := by
  obtain ⟨_, brackets, h⟩ := bind_eq_ok.mp h
  obtain ⟨resolved, names, h⟩ := bind_eq_ok.mp h
  obtain ⟨sided, sides, h⟩ := bind_eq_ok.mp h
  cases h
  exact ⟨brackets, resolved, sided, names, sides, rfl⟩

/-- What is classified has passed the check of its parentheses. -/
theorem checkBrackets_of_classify {registry : Registry} {lexemes classified : List Lexeme}
    (h : classify registry lexemes = .ok classified) : checkBrackets lexemes = .ok () :=
  (stages_of_classify h).1

/-- Every lexeme of a classified source is settled. -/
theorem settled_of_classify {registry : Registry} {source : String}
    {lexemes classified : List Lexeme} (read : tokenize source = .ok lexemes)
    (h : classify registry lexemes = .ok classified) :
    ∀ lexeme ∈ classified, lexeme.Settled registry := by
  obtain ⟨-, resolved, sided, names, sides, rfl⟩ := stages_of_classify h
  have raw := raw_of_scan read
  exact resolveSigns_settled (resolveSides_sided (resolveNames_resolved raw names) sides)

end Lexeme

end Reckoner
