import Reckoner.Proofs.Expression.Recursion

/-!
What an operator or a call uses for its operands. Operands are evaluated from left to right, right before
the node that they belong to, and what an operand that is no variable gave is not touched any more. A
variable gives its cell, which is read when the operator or the call runs, so that what the operands to its
right write to that cell is seen.
-/
namespace Reckoner

/-- Performing an operator depends on the values of its operands, and on the cell of the first one if the
operator writes it. -/
theorem Operator.perform_congr {op : Operator} {operands others : List Slot} {heap : Heap}
    (values : others.map (·.read heap) = operands.map (·.read heap))
    (target : op.form.lvalueOnly = true → others.head? = operands.head?) (fixity : Fixity)
    (type : ValueType) : op.perform fixity type others heap = op.perform fixity type operands heap := by
  unfold perform
  rw [values]
  by_cases writes : op.form.lvalueOnly = true
  · rw [target writes]
  · simp only [if_neg writes]

namespace Tree

/-- The nodes at and below a node, in the order of evaluation. -/
def nodesBelow (tree : Tree) (id : NodeId) : List NodeId :=
  (tree.below tree.size id).postorder

/-- The values that the operands of a node have on a heap, each in a place of its own. Only the variable
that an operator writes is left as it is. -/
def operandsOn (tree : Tree) (id : NodeId) (heap : Heap) : List Slot :=
  let valued (slot : Slot) : Slot := .owned (slot.read heap)
  match (tree.node id).kind, tree.operandSlots (tree.node id) with
  | .operator op _, target :: others =>
    (if op.form.lvalueOnly then target else valued target) :: others.map valued
  | _, operands => operands.map valued

variable {registry now : Registry} {base tree filled : Tree} {order first second : List NodeId}
  {root result id : Nat} {slot : Slot} {host after : Host}

theorem read_operandsOn (tree : Tree) (id : NodeId) (heap : Heap) :
    (tree.operandsOn id heap).map (·.read heap) =
      (tree.operandSlots (tree.node id)).map (·.read heap) := by
  have kept : ∀ slot : Slot, (Slot.owned (slot.read heap)).read heap = slot.read heap := fun _ => rfl
  simp only [operandsOn]
  split
  · next target others _ same =>
    rw [same]
    split <;> simp [kept, Function.comp_def]
  · simp [kept, Function.comp_def]

/-- A node does the same with the values of its operands as with their slots. -/
theorem combine_operandsOn (now : Registry) (tree : Tree) (id : NodeId) (host : Host) :
    combine now (tree.node id) (tree.operandsOn id host.heap) host =
      combine now (tree.node id) (tree.operandSlots (tree.node id)) host := by
  have values := read_operandsOn tree id host.heap
  cases kind : (tree.node id).kind with
  | root | constant | «variable» name => simp only [combine, kind]
  | call name => simp only [combine, kind, values]
  | operator op fixity =>
    have performed : op.perform fixity (tree.node id).type (tree.operandsOn id host.heap) host.heap =
        op.perform fixity (tree.node id).type (tree.operandSlots (tree.node id)) host.heap := by
      refine Operator.perform_congr values (fun writes => ?_) fixity _
      simp only [operandsOn, kind]
      cases tree.operandSlots (tree.node id) with
      | nil => rfl
      | cons target others => simp [writes]
    simp only [combine, kind, performed]

/-- A variable gives the cell that its name stands for; an operator, a call or a constant gives a value. -/
theorem Checked.slot_of_combine {operands : List Slot} (h : tree.Checked registry order root result)
    (inner : id < root) (ran : combine now (tree.node id) operands host = (.ok slot, after)) :
    ((tree.node id).isVariable = false → ∃ value, slot = .owned value) ∧
      ∀ name, (tree.node id).kind = .variable name →
        ∃ cell, now.cellOf? name = some cell ∧ slot = .aliased cell := by
  have sound := h.formed.sound id inner
  unfold Node.Sound at sound
  unfold combine at ran
  cases kind : (tree.node id).kind with
  | root =>
    rw [kind] at sound
    cases sound
  | constant =>
    rw [kind] at sound ran
    obtain ⟨-, value, owned, -⟩ := sound
    cases ran
    exact ⟨fun _ => ⟨value, owned⟩, by rintro _ ⟨⟩⟩
  | «variable» name =>
    rw [kind] at ran
    refine ⟨fun notVariable => by simp [Node.isVariable, kind] at notVariable, ?_⟩
    rintro _ ⟨⟩
    simp only at ran
    split at ran
    · cases ran
    · next cell found =>
      split at ran <;> cases ran
      exact ⟨cell, found, rfl⟩
  | operator op fixity =>
    rw [kind] at ran
    refine ⟨fun _ => ?_, by rintro _ ⟨⟩⟩
    simp only at ran
    split at ran <;> cases ran
    exact ⟨_, rfl⟩
  | call name =>
    rw [kind] at ran
    refine ⟨fun _ => ?_, by rintro _ ⟨⟩⟩
    simp only at ran
    split at ran
    · cases ran
    · split at ran
      · cases ran
      · split at ran <;> cases ran
        exact ⟨_, rfl⟩

/-- A node gives a cell only if it is a variable, and then that of its name. -/
theorem Checked.cell_of_combine {operands : List Slot} {cell : Cell}
    (h : tree.Checked registry order root result) (inner : id < root)
    (ran : combine now (tree.node id) operands host = (.ok slot, after)) (isCell : slot.cell? = some cell) :
    ∃ name, (tree.node id).kind = .variable name ∧ now.cellOf? name = some cell := by
  obtain ⟨owned, aliased⟩ := h.slot_of_combine inner ran
  cases kind : (tree.node id).kind with
  | «variable» name =>
    obtain ⟨found, bound, rfl⟩ := aliased name kind
    cases isCell
    exact ⟨name, rfl, bound⟩
  | root | constant | operator | call =>
    obtain ⟨value, rfl⟩ := owned (by simp [Node.isVariable, kind])
    cases isCell

theorem fillSlots_cons_ok (ran : fillSlots now (id :: second) tree host = (.ok (), filled, after)) :
    ∃ slot between, (slotOf now tree id).on host = (.ok slot, between) ∧
      fillSlots now second (tree.setSlot id slot) between = (.ok (), filled, after) := by
  rw [fillSlots] at ran
  split at ran
  · next slot between stepped => exact ⟨slot, between, stepped, ran⟩
  · cases ran

theorem fillSlots_append_ok (ran : fillSlots now (first ++ second) tree host = (.ok (), filled, after)) :
    ∃ half between, fillSlots now first tree host = (.ok (), half, between) ∧
      fillSlots now second half between = (.ok (), filled, after) := by
  induction first generalizing tree host with
  | nil => exact ⟨tree, host, rfl, ran⟩
  | cons id rest ih =>
    obtain ⟨slot, between, stepped, ran⟩ := fillSlots_cons_ok ran
    obtain ⟨half, last, ran', rest'⟩ := ih ran
    exact ⟨half, last, by rw [fillSlots, stepped]; exact ran', rest'⟩

/-- Filling slots changes no other node. -/
theorem node_fillSlots_of_not_mem (ran : fillSlots now order tree host = (.ok (), filled, after))
    (absent : id ∉ order) : filled.node id = tree.node id := by
  induction order generalizing tree host with
  | nil =>
    cases ran
    rfl
  | cons other rest ih =>
    obtain ⟨slot, between, -, ran⟩ := fillSlots_cons_ok ran
    rw [ih ran fun mem => absent (List.mem_cons_of_mem _ mem), node_setSlot,
      if_neg fun same => absent (by simp [same.1])]

/-- Right in front of a node its operands are evaluated, from left to right. -/
theorem Checked.split_before (h : tree.Checked registry order root result) {before later : List NodeId}
    (split : order = before ++ id :: later) {left right : List NodeId} {child : NodeId}
    (siblings : (tree.node id).children = left ++ child :: right) :
    ∃ front, before = front ++ child :: right.flatMap tree.nodesBelow := by
  have deep : root < tree.size := by
    rw [h.formed.size_eq]
    exact Nat.lt_succ_self root
  have mem : id ∈ (tree.below tree.size root).postorder := by
    rw [← h.order_eq, split]
    simp
  obtain ⟨front, back, split'⟩ := postorder_below_split h.formed.descending deep mem
  rw [← h.order_eq] at split'
  have unique := h.nodup
  rw [split] at unique split'
  have absent : id ∉ before := fun mem => (List.nodup_append.mp unique).2.2 id mem id (by simp) rfl
  have absent' : id ∉ later := (List.nodup_cons.mp (List.nodup_append.mp unique).2.1).1
  obtain ⟨same, -, -⟩ := (List.append_cons_inj_of_notMem absent absent').mp split'
  obtain ⟨inner, last⟩ := Rose.exists_postorder_eq (tree.below tree.size child)
  rw [label_below] at last
  rw [same, siblings, List.flatMap_append, List.flatMap_cons, last]
  refine ⟨front ++ left.flatMap tree.nodesBelow ++ inner, ?_⟩
  simp only [List.append_assoc, List.singleton_append]
  rfl

end Tree

namespace Expression

variable {registry : Registry} {expression : Expression}

/-- A node uses the values that its operands have when it runs. Such an operand was evaluated before, and
in between only the operands to its right were. If it is no variable, its value is the one it had then. If
it is a variable, it stood for the cell of its name, and the value is what that cell holds now. -/
theorem evaluate_operands (compiled : expression.CompiledFor registry) (now : Registry) (host : Host)
    {id : NodeId} {tree : Tree} {between : Host} (reached : expression.Reaches now host id tree between) :
    (Tree.slotOf now tree id).on between =
        Tree.combine now (tree.node id) (tree.operandsOn id between.heap) between ∧
      ∀ left child right, (expression.tree.node id).children = left ++ child :: right →
        ∃ earlier start slot after, expression.Reaches now host child earlier start ∧
          (Tree.slotOf now earlier child).on start = (.ok slot, after) ∧ (tree.node child).slot = slot ∧
          Tree.fillSlots now (right.flatMap expression.tree.nodesBelow) (earlier.setSlot child slot) after =
            (.ok (), tree, between) ∧
          ((expression.tree.node child).isVariable = false →
            slot.read between.heap = slot.read after.heap) ∧
          ∀ name, (expression.tree.node child).kind = .variable name →
            ∃ cell, now.cellOf? name = some cell ∧ slot = .aliased cell := by
  obtain ⟨root, result, checked⟩ := compiled.checked
  constructor
  · obtain ⟨seen, filled, children, mem, agrees⟩ := reached.filled checked
    rw [(agrees.checked checked).slotOf_on mem children filled, Tree.combine_operandsOn]
  · intro left child right siblings
    obtain ⟨before, later, order, ran⟩ := reached
    obtain ⟨front, split⟩ := checked.split_before order siblings
    rw [split] at ran order
    obtain ⟨earlier, start, ranFront, ran⟩ := Tree.fillSlots_append_ok ran
    obtain ⟨slot, after, stepped, ran⟩ := Tree.fillSlots_cons_ok ran
    have reachedChild : expression.Reaches now host child earlier start :=
      ⟨front, right.flatMap expression.tree.nodesBelow ++ id :: later, by rw [order]; simp, ranFront⟩
    obtain ⟨seen, filled, children, mem, agrees⟩ := reachedChild.filled checked
    have checkedNow := agrees.checked checked
    have inner : child < root := by
      have below := checked.formed.descending id child (by simp [siblings])
      exact Nat.lt_of_lt_of_le below (checked.le_root (by rw [order]; simp))
    have inside : child < earlier.size := by
      rw [checkedNow.formed.size_eq]
      exact Nat.lt_succ_of_lt inner
    have absent : child ∉ right.flatMap expression.tree.nodesBelow := by
      have unique := checked.nodup
      rw [order, List.append_assoc] at unique
      have unique := (List.nodup_append.mp unique).2.1
      exact fun mem => (List.nodup_cons.mp unique).1 (List.mem_append_left _ mem)
    have kept : (tree.node child).slot = slot := by
      rw [Tree.node_fillSlots_of_not_mem ran absent, Tree.node_setSlot, if_pos ⟨rfl, inside⟩]
    have combined := stepped
    rw [checkedNow.slotOf_on mem children filled] at combined
    obtain ⟨owned, aliased⟩ := checkedNow.slot_of_combine inner combined
    refine ⟨earlier, start, slot, after, reachedChild, stepped, kept, ran, fun notVariable => ?_, ?_⟩
    · obtain ⟨value, rfl⟩ := owned (by rw [Node.isVariable, agrees.kind_eq]; exact notVariable)
      rfl
    · intro name isVariable
      exact aliased name (by rw [agrees.kind_eq]; exact isVariable)

/-- A sign keeps the value that its variable had in front of the assignment. -/
theorem evaluate_operands_sign :
    ∃ expression, compile ⟨Names.empty.insert "x" (.int 0), .empty⟩ 100 "-x + (x = 2)" = .ok expression ∧
      ∃ tree between, expression.Reaches ⟨Names.empty.insert "x" (.int 0), .empty⟩ .empty 5 tree between ∧
        between.heap.read (.int 0) = .int 2 ∧
        ∃ earlier start slot after,
          (Tree.slotOf ⟨Names.empty.insert "x" (.int 0), .empty⟩ earlier 4).on start = (.ok slot, after) ∧
          (tree.node 4).slot = slot ∧ slot.read between.heap = slot.read after.heap := by
  have reached : ∃ expression tree between,
      compile ⟨Names.empty.insert "x" (.int 0), .empty⟩ 100 "-x + (x = 2)" = .ok expression ∧
      (expression.tree.node 5).children = [4, 2] ∧ (expression.tree.node 4).isVariable = false ∧
      expression.order = [3, 4, 0, 1, 2] ++ 5 :: [6] ∧
      Tree.fillSlots ⟨Names.empty.insert "x" (.int 0), .empty⟩ [3, 4, 0, 1, 2] expression.tree .empty =
        (.ok (), tree, between) ∧
      between.heap.read (.int 0) = .int 2 :=
    ⟨_, _, _, by cbv, by cbv, by cbv, by cbv, by cbv, by cbv⟩
  obtain ⟨expression, tree, between, isCompiled, children, notVariable, order, ran, written⟩ := reached
  have reached : expression.Reaches ⟨Names.empty.insert "x" (.int 0), .empty⟩ .empty 5 tree between :=
    ⟨_, _, order, ran⟩
  obtain ⟨-, operands⟩ := evaluate_operands (.compile isCompiled)
    ⟨Names.empty.insert "x" (.int 0), .empty⟩ .empty reached
  obtain ⟨earlier, start, slot, after, -, stepped, kept, -, unchanged, -⟩ := operands [] 4 [2] children
  exact ⟨expression, isCompiled, tree, between, reached, written, earlier, start, slot, after, stepped, kept,
    unchanged notVariable⟩

/-- A variable that was zero when it was reached counts as two in the sum, after an assignment to its
right. -/
theorem operand_changed_by_assignment :
    ∃ expression, compile ⟨Names.empty.insert "x" (.int 0), .empty⟩ 100 "x + (x = 2)" = .ok expression ∧
      (expression.evaluate ⟨Names.empty.insert "x" (.int 0), .empty⟩ .empty).1 = .ok (.int 4) ∧
      (expression.tree.node 4).kind = .operator .addition .binary ∧
      (expression.tree.node 4).children = [3, 2] ∧
      ∃ earlier start slot after tree between,
        expression.Reaches ⟨Names.empty.insert "x" (.int 0), .empty⟩ .empty 3 earlier start ∧
        (Tree.slotOf ⟨Names.empty.insert "x" (.int 0), .empty⟩ earlier 3).on start = (.ok slot, after) ∧
        slot.read after.heap = .int 0 ∧
        expression.Reaches ⟨Names.empty.insert "x" (.int 0), .empty⟩ .empty 4 tree between ∧
        (tree.node 3).slot.read between.heap = .int 2 :=
  ⟨_, by cbv, by cbv, by cbv, by cbv, _, _, _, _, _, _, ⟨[], [0, 1, 2, 4, 5], by cbv, by cbv⟩, by cbv,
    by cbv, ⟨[3, 0, 1, 2], [5], by cbv, by cbv⟩, by cbv⟩

end Expression

end Reckoner
