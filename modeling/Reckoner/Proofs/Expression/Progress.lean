import Reckoner.Proofs.Expression.Preservation
import Reckoner.Proofs.Host.Function

/-!
Checked expressions do not get stuck. Against a registry that has the variable types and the signatures
of the one compiled against, an evaluation gives a value, or an operator fails on its values, or a host
function fails or gives a value of another type than it declares.
-/
namespace Reckoner

/-- The second registry has every name of the first, a variable with the same type and a function with
the same signature. -/
structure Registry.SameSignatures (registry now : Registry) : Prop where
  cells : ∀ name cell, registry.cellOf? name = some cell →
    ∃ other, now.cellOf? name = some other ∧ other.type = cell.type
  functions : ∀ name function, registry.function? name = some function →
    ∃ other, now.function? name = some other ∧ other.params = function.params ∧
      other.result = function.result

namespace Tree

/-- The failures of nodes that no check can rule out beforehand. -/
inductive Unforeseen (now : Registry) (tree : Tree) (id : NodeId) (host : Host) :
    RuntimeError → Prop where
  | operator {op : Operator} {fixity : Fixity} {error : RuntimeError} :
      (tree.node id).kind = .operator op fixity → op.Fault (tree.operandValues id host) error →
      Unforeseen now tree id host error
  | body {name : String} {function : HostFunction} {error : RuntimeError} {after : Host} :
      (tree.node id).kind = .call name → now.function? name = some function →
      (function.body (tree.operandValues id host)).on host = (.error error, after) →
      Unforeseen now tree id host error
  | returnType {name : String} {function : HostFunction} {value : Value} {after : Host} :
      (tree.node id).kind = .call name → now.function? name = some function →
      (function.body (tree.operandValues id host)).on host = (.ok value, after) →
      value.type ≠ function.result →
      Unforeseen now tree id host (.returnType name function.result value.type)

variable {registry now : Registry} {tree : Tree} {order seen : List NodeId} {root result id : Nat}
  {host : Host}

/-- The function that a node calls, with what is known of its signature. -/
private theorem Checked.function_of_call (h : tree.Checked registry order root result)
    (same : registry.SameSignatures now) {name : String} (mem : id ∈ order)
    (kind : (tree.node id).kind = .call name)
    (children : ∀ child ∈ (tree.node id).children, child ∈ seen) (filled : tree.Filled seen)
    (host : Host) :
    ∃ function, now.function? name = some function ∧
      (tree.operandValues id host).map Value.type = function.params ∧
      (tree.node id).type = function.result := by
  have checked := h.types id mem
  simp only [checkNode, kind] at checked
  obtain ⟨function, found, params, type⟩ := checkCall_ok checked
  obtain ⟨other, isNow, sameParams, sameResult⟩ := same.functions name function found
  refine ⟨other, isNow, ?_, type.trans sameResult.symm⟩
  rw [sameParams, params]
  simp only [operandValues, operandSlots, operandsOf, List.map_map]
  refine List.map_congr_left fun child isChild => ?_
  have lt := h.formed.descending id child isChild
  have isInner := Nat.lt_of_lt_of_le lt (h.le_root mem)
  have notRoot : (tree.node child).kind ≠ .root := h.formed.kind_ne_root isInner
  exact (Slot.type_read _ _).trans (filled.typed child (children child isChild) notRoot)

private theorem Checked.variable_known (h : tree.Checked registry order root result) {name : String}
    (mem : id ∈ order) (kind : (tree.node id).kind = .variable name) :
    ∃ cell, registry.cellOf? name = some cell ∧ (tree.node id).type = cell.type := by
  have isInner : id < root := by
    refine Nat.lt_of_le_of_ne (h.le_root mem) fun isRoot => ?_
    have := h.formed.kind_root
    rw [← isRoot, kind] at this
    cases this
  have sound := h.formed.sound id isInner
  simp only [Node.Sound, kind] at sound
  exact sound.2

/-- With the same signatures a node fails for unforeseen reasons only, and no typed function fails. -/
theorem Checked.unforeseen (h : tree.Checked registry order root result)
    (same : registry.SameSignatures now) (mem : id ∈ order)
    (children : ∀ child ∈ (tree.node id).children, child ∈ seen) (filled : tree.Filled seen)
    {error : RuntimeError} (fault : tree.Fault now id host error) :
    tree.Unforeseen now id host error ∧
      ∀ name, (tree.node id).kind = .call name →
        ∀ (τ : Type) [Signature τ] [LawfulSignature τ] (function : τ),
          now.function? name ≠ some (.ofTyped function) := by
  cases fault with
  | operator kind fails =>
    refine ⟨.operator kind fails, fun name isCall => ?_⟩
    rw [kind] at isCall
    cases isCall
  | unbound kind none =>
    obtain ⟨cell, known, -⟩ := h.variable_known mem kind
    obtain ⟨other, isNow, -⟩ := same.cells _ cell known
    rw [isNow] at none
    cases none
  | rebound kind found differs =>
    obtain ⟨cell, known, type⟩ := h.variable_known mem kind
    obtain ⟨other, isNow, sameType⟩ := same.cells _ cell known
    rw [isNow] at found
    cases found
    exact absurd (sameType.trans type.symm) differs
  | call kind failed =>
    obtain ⟨function, isNow, typed, -⟩ := h.function_of_call same mem kind children filled host
    simp only [Registry.call, isNow] at failed
    refine ⟨.body kind isNow failed, fun name isCall τ _ _ typedFunction isTyped => ?_⟩
    rw [kind] at isCall
    cases isCall
    rw [isNow] at isTyped
    cases isTyped
    obtain ⟨value, after, called, -⟩ := HostFunction.ofTyped_ok typedFunction typed host
    rw [called] at failed
    cases failed
  | returnType kind gave differs =>
    obtain ⟨function, isNow, typed, type⟩ := h.function_of_call same mem kind children filled host
    simp only [Registry.call, isNow] at gave
    rw [type] at differs ⊢
    refine ⟨.returnType kind isNow gave differs, fun name isCall τ _ _ typedFunction isTyped => ?_⟩
    rw [kind] at isCall
    cases isCall
    rw [isNow] at isTyped
    cases isTyped
    obtain ⟨value, after, called, valueType⟩ := HostFunction.ofTyped_ok typedFunction typed host
    rw [called] at gave
    cases gave
    exact differs valueType

end Tree

namespace Expression

variable {registry now : Registry} {expression : Expression}

/-- An evaluation with the same signatures gives a value, or it stops at a node that fails for an
unforeseen reason and does not call a typed function. -/
theorem evaluate_progress (compiled : expression.CompiledFor registry)
    (same : registry.SameSignatures now) (host : Host) :
    (∃ value, (expression.evaluate now host).1 = .ok value) ∨
      ∃ id tree between error, expression.Reaches now host id tree between ∧
        (expression.evaluate now host).1 =
          .error (.ofEvaluationError expression.source ⟨error, (expression.tree.node id).span⟩) ∧
        tree.Unforeseen now id between error ∧
        ∀ name, (expression.tree.node id).kind = .call name →
          ∀ (τ : Type) [Signature τ] [LawfulSignature τ] (function : τ),
            now.function? name ≠ some (.ofTyped function) := by
  obtain ⟨root, result, checked⟩ := compiled.checked
  simp only [evaluate, Tree.evaluate]
  cases filled : Tree.fillSlots now expression.order expression.tree host with
  | mk outcome rest =>
    obtain ⟨tree, after⟩ := rest
    cases outcome with
    | ok => exact .inl ⟨_, rfl⟩
    | error error =>
      obtain ⟨before, id, later, between, order, ran, failed, place⟩ := Tree.fillSlots_error filled
      have reached : expression.Reaches now host id tree between := ⟨before, later, order, ran⟩
      obtain ⟨seen, isFilled, children, mem, agrees⟩ := reached.filled checked
      have fault := (agrees.checked checked).slotOf_fits mem children isFilled now between
      rw [failed] at fault
      obtain ⟨unforeseen, untyped⟩ :=
        (agrees.checked checked).unforeseen same mem children isFilled fault
      refine .inr ⟨id, tree, between, error.cause, reached, ?_, unforeseen, ?_⟩
      · rw [← agrees.span_eq, ← place]
        rfl
      · rw [← agrees.kind_eq]
        exact untyped

/-- A sum with a variable has a value, also when the variable is bound to another integer cell. -/
theorem evaluate_progress_rebound :
    ∃ expression, compile ⟨Names.empty.insert "x" (.int 0), .empty⟩ 10 "1 + x" = .ok expression ∧
      Registry.SameSignatures ⟨Names.empty.insert "x" (.int 0), .empty⟩
        ⟨Names.empty.insert "x" (.int 1), .empty⟩ ∧
      ∃ value, (expression.evaluate ⟨Names.empty.insert "x" (.int 1), .empty⟩ .empty).1 =
        .ok value := by
  have compiled : ∃ expression,
      compile ⟨Names.empty.insert "x" (.int 0), .empty⟩ 10 "1 + x" = .ok expression ∧
        (expression.evaluate ⟨Names.empty.insert "x" (.int 1), .empty⟩ .empty).1 = .ok (.int 1) :=
    ⟨_, by cbv, by cbv⟩
  obtain ⟨expression, isCompiled, ran⟩ := compiled
  have same : Registry.SameSignatures ⟨Names.empty.insert "x" (.int 0), .empty⟩
      ⟨Names.empty.insert "x" (.int 1), .empty⟩ := by
    constructor
    · intro name cell found
      simp only [Registry.cellOf?, Names.find?_insert, Names.find?_empty] at found ⊢
      split at found
      · cases found
        exact ⟨.int 1, by simp_all, rfl⟩
      · cases found
    · intro name function found
      simp only [Registry.function?, Names.find?_empty] at found
      cases found
  refine ⟨expression, isCompiled, same, ?_⟩
  rcases evaluate_progress (.compile isCompiled) same .empty with value | ⟨_, _, _, _, _, failed, _⟩
  · exact value
  · rw [ran] at failed
    cases failed

end Expression

end Reckoner
