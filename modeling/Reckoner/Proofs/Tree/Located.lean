import Reckoner.Proofs.Builder.Located
import Reckoner.Proofs.Tree.Check

/-!
What the checker objects to is a node or a child of one, so that its places are those of nodes.
-/
namespace Reckoner.Tree

open Reckoner.Span

variable {source : String} {lexemes : List Lexeme} {registry : Registry} {tree : Tree} {operands : List Operand}
  {span : Span}

theorem Nested.fits (nested : tree.Nested source lexemes) (id : Nat) : (tree.node id).span.Fits source := by
  by_cases lt : id < tree.size
  · exact (nested id lt).fits
  · rw [node_of_size_le (Nat.not_lt.mp lt)]
    exact fits_default source

/-- The operator is to blame, or one of its operands is. -/
private theorem checkOperator_yields (op : Operator) (fixity : Fixity) (fits : span.Fits source)
    (each : ∀ operand ∈ operands, operand.span.Fits source) :
    Yields source (fun _ => True) (checkOperator op fixity span operands) := by
  simp only [checkOperator]
  split
  · exact .atSpan _ fits
  split
  · trivial
  next first others _ =>
  obtain ⟨here, later⟩ := List.forall_mem_cons.mp each
  have target (result : ValueType) : Yields source (fun _ => True)
      (if (op.form.lvalueOnly && !first.isVariable) = true then
        .error (CompileError.Cause.atSpan (.notAnLvalue op.symbol) first.span)
      else .ok result) := by
    split
    · exact .atSpan _ here
    · trivial
  split
  · exact (CompileError.located_atSpan _ here).withRelated fits _
  split
  · exact target _
  next second rest _ =>
  split
  · exact ((CompileError.located_atSpan _ fits).withRelated here _).withRelated (later second List.mem_cons_self) _
  · exact target _

private theorem checkArguments_yields (name : String) (index : Nat) (params : List ValueType)
    (each : ∀ operand ∈ operands, operand.span.Fits source) :
    Yields source (fun _ => True) (checkArguments name index params operands) := by
  induction operands generalizing index params with
  | nil => cases params <;> trivial
  | cons argument arguments ih =>
    obtain ⟨here, later⟩ := List.forall_mem_cons.mp each
    cases params with
    | nil => trivial
    | cons param params =>
      rw [checkArguments]
      split
      · exact .atSpan _ here
      · exact ih (index + 1) params later

/-- The call is to blame, or one of its arguments is. -/
private theorem checkCall_yields (registry : Registry) (name : String) (fits : span.Fits source)
    (each : ∀ operand ∈ operands, operand.span.Fits source) :
    Yields source (fun _ => True) (checkCall registry name span operands) := by
  rw [checkCall]
  split
  · exact .atSpan _ fits
  next function _ =>
  split
  · exact .atSpan _ fits
  split
  · next failed => exact (checkArguments_yields name 1 function.params each).of_error failed
  · trivial

theorem checkNode_yields (registry : Registry) (fits : ∀ id, (tree.node id).span.Fits source) (id : NodeId) :
    Yields source (fun _ => True) (tree.checkNode registry id) := by
  have each : ∀ operand ∈ tree.operandsOf (tree.node id), operand.span.Fits source :=
    List.forall_mem_map.mpr fun child _ => fits child
  simp only [checkNode]
  split
  · trivial
  · trivial
  · trivial
  · exact checkOperator_yields _ _ (fits id) each
  · exact checkCall_yields registry _ (fits id) each

/-- Checking a tree whose nodes lie in the source fails at places in it. -/
theorem check_yields (registry : Registry) (fits : ∀ id, (tree.node id).span.Fits source) (order : List NodeId) :
    Yields source (fun _ => True) (tree.check registry order).1 := by
  induction order generalizing tree with
  | nil => trivial
  | cons id rest ih =>
    rw [check]
    split
    · refine ih fun other => ?_
      rw [node_setType]
      split <;> exact fits other
    · next failed => exact (checkNode_yields registry fits id).of_error failed

end Reckoner.Tree
