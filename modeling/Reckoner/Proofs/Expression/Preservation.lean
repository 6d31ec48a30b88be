import Mathlib
import Reckoner.Proofs.Expression.Step

/-!
Types are kept. An expression was checked against one registry and may be evaluated with another, whose
names stand for anything else; whatever still runs gives values of the types found when it was checked.
-/
namespace Reckoner.Expression

/-- An evaluation gets as far as the node, with what the nodes in front of it left behind. -/
def Reaches (expression : Expression) (now : Registry) (host : Host) (id : NodeId) (tree : Tree)
    (between : Host) : Prop :=
  ∃ before later, expression.order = before ++ id :: later ∧
    Tree.fillSlots now before expression.tree host = (.ok (), tree, between)

variable {registry now : Registry} {expression : Expression} {host between : Host} {id : Nat}
  {tree : Tree} {root result : Nat}

/-- Once a node is reached its children are filled. -/
theorem Reaches.filled (h : expression.Reaches now host id tree between)
    (checked : expression.tree.Checked registry expression.order root result) :
    ∃ seen, tree.Filled seen ∧ (∀ child ∈ (tree.node id).children, child ∈ seen) ∧
      id ∈ expression.order ∧ expression.tree.Agrees tree := by
  obtain ⟨before, later, order, ran⟩ := h
  have childrenFirst := checked.childrenFirst
  rw [order] at childrenFirst
  have empty : expression.tree.Filled [] := ⟨by simp, by simp⟩
  obtain ⟨filled, first⟩ := checked.filled childrenFirst
    (fun other mem => by rw [order]; exact List.mem_append_left _ mem) empty ran
  exact ⟨_, filled, first.1, by rw [order]; simp, Tree.agrees_of_fillSlots ran⟩

/-- A value that an evaluation gives has the type of the expression, and whatever a node gives on the
way has the type of the node. -/
theorem type_of_evaluate (compiled : expression.CompiledFor registry) (now : Registry) (host : Host) :
    (∀ value, (expression.evaluate now host).1 = .ok value → value.type = expression.resultType) ∧
      ∀ id tree between slot after, expression.Reaches now host id tree between →
        (Tree.slotOf now tree id).on between = (.ok slot, after) →
        (expression.tree.node id).kind ≠ .root →
        (slot.read after.heap).type = (expression.tree.node id).type := by
  obtain ⟨root, result, checked⟩ := compiled.checked
  constructor
  · intro value ran
    simp only [evaluate, Tree.evaluate] at ran
    cases filled : Tree.fillSlots now expression.order expression.tree host with
    | mk outcome rest =>
      obtain ⟨tree, after⟩ := rest
      rw [filled] at ran
      cases outcome with
      | error error => cases ran
      | ok =>
        have agrees := Tree.agrees_of_fillSlots filled
        have childrenFirst : expression.tree.ChildrenFirst [] (expression.order ++ []) := by
          simpa using checked.childrenFirst
        obtain ⟨allFilled, -⟩ := checked.filled childrenFirst (fun _ mem => mem) ⟨by simp, by simp⟩ filled
        have formed := (agrees.checked checked).formed
        have notRoot := formed.kind_ne_root formed.result_lt
        have typed := allFilled.typed result (by simpa using checked.result_mem) notRoot
        simp only [Tree.resultValue, formed.result?_eq, Except.mapError, Except.ok.injEq] at ran
        rw [← ran, Slot.type_read, typed, agrees.type_eq]
        simp [resultType, Tree.resultType, checked.formed.result?_eq]
  · intro id tree between slot after reached ran notRoot
    obtain ⟨seen, filled, children, mem, agrees⟩ := reached.filled checked
    have fits := (agrees.checked checked).slotOf_fits mem children filled now between
    rw [ran] at fits
    rw [Slot.type_read, fits.1 (by rw [agrees.kind_eq]; exact notRoot), agrees.type_eq]

/-- A sum with a call stays an integer where the variable has another cell and the function another signature and body,
and where a name that is not used is gone. -/
theorem type_of_evaluate_replaced :
    ∃ expression,
      compile ⟨(Names.empty.insert "x" (.int 0)).insert "y" (.string 0),
        Names.empty.insert "f" ⟨.int, [.int], fun _ => return .int 1⟩⟩ 20 "f(x) + x" = .ok expression ∧
      (expression.evaluate
        ⟨Names.empty.insert "x" (.int 1), Names.empty.insert "f" ⟨.float, [], fun _ => return .int 7⟩⟩ .empty).1 =
          .ok (.int 7) ∧
      (Value.int 7).type = expression.resultType := by
  have compiled : ∃ expression,
      compile ⟨(Names.empty.insert "x" (.int 0)).insert "y" (.string 0),
        Names.empty.insert "f" ⟨.int, [.int], fun _ => return .int 1⟩⟩ 20 "f(x) + x" = .ok expression ∧
      (expression.evaluate
        ⟨Names.empty.insert "x" (.int 1), Names.empty.insert "f" ⟨.float, [], fun _ => return .int 7⟩⟩ .empty).1 =
          .ok (.int 7) := ⟨_, by cbv, by cbv⟩
  obtain ⟨expression, isCompiled, ran⟩ := compiled
  exact ⟨expression, isCompiled, ran, (type_of_evaluate (.compile isCompiled) _ .empty).1 _ ran⟩

end Reckoner.Expression
