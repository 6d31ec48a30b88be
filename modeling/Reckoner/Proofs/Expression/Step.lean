import Reckoner.Proofs.Expression.Checked

/-!
One node of a checked tree at a time. If the children of a node hold values of their types, the node gets
a value of its type or fails for one of few reasons, whatever registry its names are looked up in.
-/
namespace Reckoner.Tree

/-- The values that the operands of a node have now. -/
def operandValues (tree : Tree) (id : NodeId) (host : Host) : List Value :=
  (tree.operandSlots (tree.node id)).map (·.read host.heap)

/-- The reasons for which a node of a checked tree can fail. -/
inductive Fault (now : Registry) (tree : Tree) (id : NodeId) (host : Host) : RuntimeError → Prop where
  | operator {op : Operator} {fixity : Fixity} {error : RuntimeError} :
      (tree.node id).kind = .operator op fixity → op.Fault (tree.operandValues id host) error →
      Fault now tree id host error
  | unbound {name : String} : (tree.node id).kind = .variable name → now.cellOf? name = none →
      Fault now tree id host (.variableUnbound name)
  | rebound {name : String} {cell : Cell} : (tree.node id).kind = .variable name →
      now.cellOf? name = some cell → cell.type ≠ (tree.node id).type →
      Fault now tree id host (.variableRebound name (tree.node id).type cell.type)
  | call {name : String} {error : RuntimeError} {after : Host} : (tree.node id).kind = .call name →
      (now.call name (tree.operandValues id host)).on host = (.error error, after) →
      Fault now tree id host error
  | returnType {name : String} {value : Value} {after : Host} : (tree.node id).kind = .call name →
      (now.call name (tree.operandValues id host)).on host = (.ok value, after) →
      value.type ≠ (tree.node id).type →
      Fault now tree id host (.returnType name (tree.node id).type value.type)

/-- The slots of these nodes hold values of the types of the nodes, and variables stand for cells. -/
structure Filled (tree : Tree) (seen : List NodeId) : Prop where
  typed : ∀ id ∈ seen, (tree.node id).kind ≠ .root → (tree.node id).slot.type = (tree.node id).type
  aliased : ∀ id ∈ seen, (tree.node id).isVariable = true →
    ∃ cell, (tree.node id).slot.cell? = some cell

variable {registry now : Registry} {tree after : Tree} {order seen : List NodeId}
  {root result id : Nat} {host host' : Host}

theorem Checked.operator_ready {op : Operator} {fixity : Fixity}
    (h : tree.Checked registry order root result) (mem : id ∈ order)
    (kind : (tree.node id).kind = .operator op fixity)
    (children : ∀ child ∈ (tree.node id).children, child ∈ seen) (filled : tree.Filled seen) :
    ∃ type, (tree.node id).type = op.typeFrom type ∧
      op.Ready fixity type (tree.operandSlots (tree.node id)) := by
  have isInner : id < root := by
    refine Nat.lt_of_le_of_ne (h.le_root mem) fun isRoot => ?_
    have := h.formed.kind_root
    rw [← isRoot, kind] at this
    cases this
  have allowed := h.formed.sound id isInner
  simp only [Node.Sound, kind] at allowed
  have checked := h.types id mem
  simp only [checkNode, kind] at checked
  obtain ⟨count, first, rest, operands, accepted, same, target, type⟩ := checkOperator_ok checked
  have childKind : ∀ child ∈ (tree.node id).children, (tree.node child).kind ≠ .root := by
    intro child isChild
    have lt := h.formed.descending id child isChild
    exact h.formed.kind_ne_root (Nat.lt_trans lt isInner)
  obtain ⟨one, others, ids⟩ : ∃ one others, (tree.node id).children = one :: others := by
    cases ids : (tree.node id).children with
    | nil => simp [operandsOf, ids] at operands
    | cons one others => exact ⟨one, others, rfl⟩
  simp only [operandsOf, ids, List.map_cons, List.cons.injEq] at operands
  obtain ⟨rfl, rfl⟩ := operands
  have oneIn : one ∈ (tree.node id).children := by rw [ids]; exact List.mem_cons_self
  have typed : ∀ child ∈ (tree.node id).children, (tree.node child).slot.type = (tree.node one).type := by
    intro child isChild
    rw [filled.typed child (children child isChild) (childKind child isChild)]
    rw [ids] at isChild
    rcases List.mem_cons.mp isChild with rfl | inOthers
    · rfl
    · exact same ⟨_, _, _⟩ (List.mem_map.mpr ⟨child, inOthers, rfl⟩)
  refine ⟨_, type, allowed, ?_, accepted, ?_, fun writes => ?_⟩
  · rw [← count]
    simp [operandSlots, operandsOf]
  · intro slot inSlots
    obtain ⟨child, isChild, rfl⟩ := List.mem_map.mp inSlots
    exact typed child isChild
  · obtain ⟨cell, isCell⟩ := filled.aliased one (children one oneIn) (target writes)
    exact ⟨cell, by simpa [operandSlots, ids] using isCell⟩

private theorem typeFrom_typeFrom (op : Operator) (type : ValueType) :
    op.typeFrom (op.typeFrom type) = op.typeFrom type := by
  unfold Operator.typeFrom
  cases op.result <;> rfl

/-- A node whose children are filled gets a value of its type, and a variable its cell, or else the node
fails for one of the reasons there are. -/
theorem Checked.slotOf_fits (h : tree.Checked registry order root result) (mem : id ∈ order)
    (children : ∀ child ∈ (tree.node id).children, child ∈ seen) (filled : tree.Filled seen)
    (now : Registry) (host : Host) :
    match (slotOf now tree id).on host with
    | (.ok slot, _) =>
      ((tree.node id).kind ≠ .root → slot.type = (tree.node id).type) ∧
        ((tree.node id).isVariable = true → ∃ cell, slot.cell? = some cell)
    | (.error error, _) => Fault now tree id host error := by
  simp only [slotOf]
  cases kind : (tree.node id).kind with
  | root => exact ⟨fun ne => absurd rfl ne, fun isVariable => by simp [Node.isVariable, kind] at isVariable⟩
  | constant =>
    have isInner : id < root := by
      refine Nat.lt_of_le_of_ne (h.le_root mem) fun isRoot => ?_
      have := h.formed.kind_root
      rw [← isRoot, kind] at this
      cases this
    have sound := h.formed.sound id isInner
    simp only [Node.Sound, kind] at sound
    obtain ⟨-, value, slot, type⟩ := sound
    refine ⟨fun _ => ?_, fun isVariable => by simp [Node.isVariable, kind] at isVariable⟩
    rw [slot, type]
    rfl
  | «variable» name =>
    simp only [variableSlot]
    cases found : now.cellOf? name with
    | none => exact .unbound kind found
    | some cell =>
      by_cases same : cell.type = (tree.node id).type
      · simp only [if_pos same]
        exact ⟨fun _ => same, fun _ => ⟨cell, rfl⟩⟩
      · simp only [if_neg same]
        exact .rebound kind found same
  | operator op fixity =>
    obtain ⟨type, static, ready⟩ := h.operator_ready mem kind children filled
    have fits := ready.fits_perform (typeFrom_typeFrom op type) host.heap
    simp only [operatorSlot_on ready.allowed ready.count ready.target, static]
    cases performed : op.perform fixity (op.typeFrom type) (tree.operandSlots (tree.node id)) host.heap with
    | error error =>
      rw [performed] at fits
      exact .operator kind fits
    | ok reply =>
      rw [performed] at fits
      exact ⟨fun _ => fits, fun isVariable => by simp [Node.isVariable, kind] at isVariable⟩
  | call name =>
    simp only [callSlot, Action.on_bind, Action.on_mapM_readSlot]
    cases called : (now.call name (tree.operandValues id host)).on host with
    | mk reply after =>
      simp only [operandValues] at called
      rw [called]
      cases reply with
      | error error => exact .call kind called
      | ok value =>
        by_cases same : value.type = (tree.node id).type
        · simp only [if_pos same]
          exact ⟨fun _ => same, fun isVariable => by simp [Node.isVariable, kind] at isVariable⟩
        · simp only [if_neg same]
          exact .returnType kind called same

/-- Filling the slot of the next node. -/
private theorem Filled.setSlot {slot : Slot} (filled : tree.Filled seen) (inside : id < tree.size)
    (typed : (tree.node id).kind ≠ .root → slot.type = (tree.node id).type)
    (aliased : (tree.node id).isVariable = true → ∃ cell, slot.cell? = some cell) :
    (tree.setSlot id slot).Filled (id :: seen) := by
  constructor
  · intro other mem notRoot
    rw [node_setSlot] at notRoot ⊢
    split at notRoot
    · next same =>
      obtain ⟨rfl, -⟩ := same
      rw [if_pos ⟨rfl, inside⟩]
      exact typed notRoot
    · next differs =>
      rw [if_neg differs]
      rcases List.mem_cons.mp mem with rfl | mem
      · exact absurd ⟨rfl, inside⟩ differs
      · exact filled.typed other mem notRoot
  · intro other mem isVariable
    rw [node_setSlot] at isVariable ⊢
    split at isVariable
    · next same =>
      obtain ⟨rfl, -⟩ := same
      rw [if_pos ⟨rfl, inside⟩]
      exact aliased isVariable
    · next differs =>
      rw [if_neg differs]
      rcases List.mem_cons.mp mem with rfl | mem
      · exact absurd ⟨rfl, inside⟩ differs
      · exact filled.aliased other mem isVariable

/-- Nodes that are evaluated in order, children first, are filled afterwards. -/
theorem Checked.filled {before later : List NodeId} (h : tree.Checked registry order root result)
    (first : tree.ChildrenFirst seen (before ++ later)) (inOrder : ∀ id ∈ before, id ∈ order)
    (filled : tree.Filled seen) (ran : fillSlots now before tree host = (.ok (), after, host')) :
    after.Filled (before.reverse ++ seen) ∧ after.ChildrenFirst (before.reverse ++ seen) later := by
  induction before generalizing tree host seen with
  | nil =>
    cases ran
    exact ⟨filled, first⟩
  | cons id rest ih =>
    obtain ⟨children, first⟩ := first
    have fits := h.slotOf_fits (inOrder id List.mem_cons_self) children filled now host
    rw [fillSlots] at ran
    split at ran
    · next slot between stepped =>
      rw [stepped] at fits
      have agrees := Agrees.setSlot stepped
      have inside : id < tree.size := by
        rw [h.formed.size_eq]
        exact Nat.lt_succ_of_le (h.le_root (inOrder id List.mem_cons_self))
      have step := ih (agrees.checked h)
        (childrenFirst_congr agrees.children_eq first)
        (fun other mem => inOrder other (List.mem_cons_of_mem _ mem))
        (filled.setSlot inside fits.1 fits.2) ran
      simpa [List.reverse_cons, List.append_assoc] using step
    · cases ran

/-- A failed evaluation stopped at a node, with everything in front of it done. -/
theorem fillSlots_error {error : EvaluationError}
    (h : fillSlots now order tree host = (.error error, after, host')) :
    ∃ before id later between, order = before ++ id :: later ∧
      fillSlots now before tree host = (.ok (), after, between) ∧
      (slotOf now after id).on between = (.error error.cause, host') ∧
      error.span = (after.node id).span := by
  induction order generalizing tree host with
  | nil => cases h
  | cons first rest ih =>
    rw [fillSlots] at h
    split at h
    · next slot between stepped =>
      obtain ⟨before, id, later, last, rfl, ran, failed, place⟩ := ih h
      exact ⟨first :: before, id, later, last, rfl, by rw [fillSlots, stepped]; exact ran, failed, place⟩
    · next cause between stepped =>
      cases h
      exact ⟨[], first, rest, host, rfl, rfl, stepped, rfl⟩

end Reckoner.Tree
