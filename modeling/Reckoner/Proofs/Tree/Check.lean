import Reckoner.Proofs.Builder.Complete
import Reckoner.Proofs.Operator.Typing
import Reckoner.Proofs.Tree.Rules
import Reckoner.Expression

/-!
What checking leaves behind. Only types change, and afterwards every node has the type that the checker
finds from the final types of its children.
-/
namespace Reckoner

namespace Tree

variable {registry : Registry} {tree checked : Tree} {order seen : List NodeId}
  {result : Except CompileError Unit}

private theorem node_check_of_not_mem (h : tree.check registry order = (result, checked)) {id : NodeId}
    (absent : id ∉ order) : checked.node id = tree.node id := by
  induction order generalizing tree with
  | nil =>
    cases h
    rfl
  | cons first rest ih =>
    rw [check] at h
    split at h
    · rw [ih h fun mem => absent (List.mem_cons_of_mem _ mem), node_setType, if_neg]
      exact fun same => absent (same.1 ▸ List.mem_cons_self)
    · cases h
      rfl

/-- Checking changes nothing but the types of nodes. -/
theorem node_check (h : tree.check registry order = (result, checked)) (id : NodeId) :
    ∃ type, checked.node id = { tree.node id with type := type } := by
  induction order generalizing tree with
  | nil =>
    cases h
    exact ⟨_, rfl⟩
  | cons first rest ih =>
    rw [check] at h
    split at h
    · obtain ⟨type, same⟩ := ih h
      rw [same, node_setType]
      split <;> exact ⟨type, rfl⟩
    · cases h
      exact ⟨_, rfl⟩

/-- The types of leaves do not change. -/
theorem node_check_of_leaf (h : tree.check registry order = (result, checked)) {id : NodeId}
    (leaf : (tree.node id).kind = .constant ∨ ∃ name, (tree.node id).kind = .variable name) :
    checked.node id = tree.node id := by
  induction order generalizing tree with
  | nil =>
    cases h
    rfl
  | cons first rest ih =>
    rw [check] at h
    split at h
    · next type found =>
      have same : (tree.setType first type).node id = tree.node id := by
        rw [node_setType]
        split
        · next isFirst =>
          obtain ⟨rfl, -⟩ := isFirst
          have : type = (tree.node first).type := by
            simp only [checkNode] at found
            rcases leaf with kind | ⟨name, kind⟩ <;> simp only [kind, Except.ok.injEq] at found <;>
              exact found.symm
          rw [this]
        · rfl
      rw [ih h (by rw [same]; exact leaf), same]
    · cases h
      rfl

theorem size_check (h : tree.check registry order = (result, checked)) :
    checked.size = tree.size ∧ checked.root = tree.root := by
  induction order generalizing tree with
  | nil =>
    cases h
    exact ⟨rfl, rfl⟩
  | cons first rest ih =>
    rw [check] at h
    split at h
    · obtain ⟨size, root⟩ := ih h
      exact ⟨size.trans (size_setType ..), root⟩
    · cases h
      exact ⟨rfl, rfl⟩

/-- A node of a type that the checker finds keeps it when types are given to other nodes. -/
private theorem checkNode_congr {id : NodeId} {type : ValueType}
    (found : tree.checkNode registry id = .ok type)
    (same : checked.node id = { tree.node id with type := type })
    (children : ∀ child ∈ (tree.node id).children, checked.node child = tree.node child) :
    checked.checkNode registry id = .ok type := by
  have operands : checked.operandsOf (checked.node id) = tree.operandsOf (tree.node id) := by
    rw [same]
    exact List.map_congr_left fun child mem => by rw [children child mem]
  simp only [checkNode] at found ⊢
  rw [operands, same]
  cases kind : (tree.node id).kind <;> simp only [kind] at found ⊢ <;> exact found

/-- In an order with children first, every node ends up with the type that the checker finds for it. -/
theorem checkNode_of_check (h : tree.check registry order = (.ok (), checked)) (unique : order.Nodup)
    (childrenFirst : tree.ChildrenFirst seen order) (apart : ∀ id ∈ seen, id ∉ order)
    (inside : ∀ id : Nat, id ∈ order → id < tree.size) :
    ∀ id ∈ order, checked.checkNode registry id = .ok (checked.node id).type := by
  induction order generalizing tree seen with
  | nil => simp
  | cons first rest ih =>
    obtain ⟨fresh, unique⟩ := List.nodup_cons.mp unique
    obtain ⟨known, later⟩ := childrenFirst
    rw [check] at h
    split at h
    · next type found =>
      have changed : ∀ id, (tree.setType first type).node id =
          if first = id ∧ id < tree.size then { tree.node id with type := type } else tree.node id :=
        fun id => node_setType ..
      have firstSame := node_check_of_not_mem h fresh
      rw [changed, if_pos ⟨rfl, inside first List.mem_cons_self⟩] at firstSame
      refine List.forall_mem_cons.mpr ⟨?_, @ih _ (first :: seen) h unique ?_ ?_ ?_⟩
      · rw [show (checked.node first).type = type by rw [firstSame]]
        refine checkNode_congr found firstSame fun child mem => ?_
        have notIn := apart child (known child mem)
        have other : ¬ (first = child ∧ child < tree.size) :=
          fun same => notIn (same.1 ▸ List.mem_cons_self)
        rw [node_check_of_not_mem h fun inRest => notIn (List.mem_cons_of_mem _ inRest), changed,
          if_neg other]
      · exact childrenFirst_congr (fun id => children_setType ..) later
      · intro id mem inRest
        rcases List.mem_cons.mp mem with rfl | mem
        · exact fresh inRest
        · exact apart id mem (List.mem_cons_of_mem _ inRest)
      · intro id mem
        rw [size_setType]
        exact inside id (List.mem_cons_of_mem _ mem)
    · cases h

end Tree

end Reckoner
