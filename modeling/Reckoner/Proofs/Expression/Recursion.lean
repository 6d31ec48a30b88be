import Reckoner.Proofs.Expression.Preservation

/-!
Evaluation as a recursion over the tree. The operands of a node are evaluated from left to right, a
variable giving the cell it stands for and anything else a value, and then the node itself is; cells are
read when the operator or the call that they are operands of runs. Going through the nodes one after the
other comes to the same.
-/
namespace Reckoner

namespace Tree

/-- What a node makes of its operands: a constant is kept, a variable is looked up and must have kept its
type, an operator is performed, and a call passes the values that its arguments have now and gives back
a value of its type. -/
def combine (now : Registry) (node : Node) (operands : List Slot) (host : Host) :
    Except RuntimeError Slot × Host :=
  match node.kind with
  | .root | .constant => (.ok node.slot, host)
  | .variable name =>
    match now.cellOf? name with
    | none => (.error (.variableUnbound name), host)
    | some cell =>
      if cell.type = node.type then (.ok (.aliased cell), host)
      else (.error (.variableRebound name node.type cell.type), host)
  | .operator op fixity =>
    match op.perform fixity node.type operands host.heap with
    | .ok (value, heap) => (.ok (.owned value), { host with heap := heap })
    | .error error => (.error error, host)
  | .call name =>
    match now.function? name with
    | none => (.error (.unknownFunction name), host)
    | some function =>
      match (function.body (operands.map (·.read host.heap))).on host with
      | (.error error, after) => (.error error, after)
      | (.ok value, after) =>
        if value.type = node.type then (.ok (.owned value), after)
        else (.error (.returnType name node.type value.type), after)

mutual

/-- Evaluates a part of a tree: its operands from left to right, and then the node at its top. A failure
comes with the number of its node. -/
def evaluatePart (now : Registry) :
    Rose (NodeId × Node) → Host → Except (NodeId × RuntimeError) Slot × Host
  | .node (id, node) parts, host =>
    match evaluateParts now parts host with
    | (.error failure, host) => (.error failure, host)
    | (.ok operands, host) =>
      match combine now node operands host with
      | (.ok slot, host) => (.ok slot, host)
      | (.error cause, host) => (.error (id, cause), host)

/-- Evaluates several parts from left to right. -/
def evaluateParts (now : Registry) :
    List (Rose (NodeId × Node)) → Host → Except (NodeId × RuntimeError) (List Slot) × Host
  | [], host => (.ok [], host)
  | part :: parts, host =>
    match evaluatePart now part host with
    | (.error failure, host) => (.error failure, host)
    | (.ok slot, host) =>
      match evaluateParts now parts host with
      | (.error failure, host) => (.error failure, host)
      | (.ok slots, host) => (.ok (slot :: slots), host)

end

/-- A number with its node. -/
def labelled (tree : Tree) (id : NodeId) : NodeId × Node :=
  (id, tree.node id)

/-- The nodes in `order` are filled as a recursion says: either all of them, so that the slots of `tops`
are those that it gives and no other slot changes, or up to the node at which it fails. -/
def Follows (now : Registry) (tree : Tree) (order tops : List NodeId) (host : Host)
    (reply : Except (NodeId × RuntimeError) (List Slot) × Host) : Prop :=
  match reply with
  | (.ok slots, after) =>
    ∃ filled, fillSlots now order tree host = (.ok (), filled, after) ∧
      tops.map (fun id => (filled.node id).slot) = slots ∧
      ∀ id, id ∉ order → filled.node id = tree.node id
  | (.error (id, cause), after) =>
    ∃ before later filled between, order = before ++ id :: later ∧
      fillSlots now before tree host = (.ok (), filled, between) ∧
      (slotOf now filled id).on between = (.error cause, after)

variable {registry now : Registry} {base tree filled : Tree} {order seen later : List NodeId}
  {root result id : Nat} {host after : Host}

theorem fillSlots_append (first second : List NodeId)
    (ran : fillSlots now first tree host = (.ok (), filled, after)) :
    fillSlots now (first ++ second) tree host = fillSlots now second filled after := by
  induction first generalizing tree host with
  | nil =>
    cases ran
    rfl
  | cons id rest ih =>
    rw [fillSlots] at ran
    split at ran
    · next slot between stepped =>
      rw [List.cons_append, fillSlots, stepped]
      exact ih ran
    · cases ran

/-- A node of a checked tree does what it is said to do with the slots of its children. -/
theorem Checked.slotOf_on (h : tree.Checked registry order root result) (mem : id ∈ order)
    (children : ∀ child ∈ (tree.node id).children, child ∈ seen) (filled : tree.Filled seen)
    (now : Registry) (host : Host) :
    (slotOf now tree id).on host =
      combine now (tree.node id) (tree.operandSlots (tree.node id)) host := by
  simp only [slotOf, combine]
  cases kind : (tree.node id).kind with
  | root | constant => rfl
  | «variable» name =>
    simp only [variableSlot]
    cases now.cellOf? name with
    | none => rfl
    | some cell =>
      by_cases same : cell.type = (tree.node id).type
      · simp only [if_pos same]
        rfl
      · simp only [if_neg same]
        rfl
  | operator op fixity =>
    obtain ⟨type, static, ready⟩ := h.operator_ready mem kind children filled
    simp only [operatorSlot_on ready.allowed ready.count ready.target]
    cases op.perform fixity (tree.node id).type (tree.operandSlots (tree.node id)) host.heap <;> rfl
  | call name =>
    simp only [callSlot, Action.on_bind, Action.on_mapM_readSlot, Registry.call]
    cases now.function? name with
    | none => rfl
    | some function =>
      simp only
      rcases (function.body _).on host with ⟨_ | value, between⟩
      · rfl
      · by_cases same : value.type = (tree.node id).type
        · simp only [if_pos same]
          rfl
        · simp only [if_neg same]
          rfl

/-- A node does the same in trees that differ only in slots. -/
private theorem Agrees.combine_eq (agrees : base.Agrees tree) (notRoot : (base.node id).kind ≠ .root)
    (operands : List Slot) :
    combine now (base.node id) operands host = combine now (tree.node id) operands host := by
  have kind := agrees.kind_eq id
  have constant := agrees.constant_eq id
  simp only [combine, agrees.type_eq, kind]
  split
  · next isRoot => exact absurd isRoot notRoot
  · next isConstant => rw [constant isConstant]
  · rfl
  · rfl
  · rfl

/-- The nodes in `todo` can be filled next: those in front of them are, and their children are among
those or come first. -/
structure Due (registry : Registry) (base : Tree) (order : List NodeId) (tree : Tree)
    (seen todo later : List NodeId) : Prop where
  agrees : base.Agrees tree
  first : tree.ChildrenFirst seen (todo ++ later)
  filled : tree.Filled seen
  inner : ∀ id ∈ todo, id ∈ order ∧ (base.node id).kind ≠ .root
  unique : todo.Nodup

private theorem Due.left {one two : List NodeId} (due : Due registry base order tree seen (one ++ two) later) :
    Due registry base order tree seen one (two ++ later) :=
  ⟨due.agrees, by rw [← List.append_assoc]; exact due.first, due.filled,
    fun id mem => due.inner id (List.mem_append_left _ mem), (List.nodup_append.mp due.unique).1⟩

private theorem Due.right {one two : List NodeId} (h : base.Checked registry order root result)
    (due : Due registry base order tree seen (one ++ two) later)
    (ran : fillSlots now one tree host = (.ok (), filled, after)) :
    Due registry base order filled (one.reverse ++ seen) two later := by
  obtain ⟨isFilled, first⟩ := (due.agrees.checked h).filled due.left.first
    (fun id mem => (due.left.inner id mem).1) due.filled ran
  exact ⟨due.agrees.trans (agrees_of_fillSlots ran), first, isFilled,
    fun id mem => due.inner id (List.mem_append_right _ mem), (List.nodup_append.mp due.unique).2.1⟩

/-- What evaluating one part gives, as what evaluating a list of parts gives. -/
def asOne (reply : Except (NodeId × RuntimeError) Slot × Host) :
    Except (NodeId × RuntimeError) (List Slot) × Host :=
  (reply.1.map ([·]), reply.2)

/-- Parts whose nodes are filled as the recursion says are so one after the other. -/
private theorem follows_parts (h : base.Checked registry order root result) {parts : List (Rose NodeId)}
    (each : ∀ part ∈ parts, ∀ tree host seen later,
      Due registry base order tree seen part.postorder later →
        Follows now tree part.postorder [part.label] host
          (asOne (evaluatePart now (part.map base.labelled) host)))
    (due : Due registry base order tree seen (parts.flatMap Rose.postorder) later) :
    Follows now tree (parts.flatMap Rose.postorder) (parts.map Rose.label) host
      (evaluateParts now (parts.map (Rose.map base.labelled)) host) := by
  induction parts generalizing tree host seen with
  | nil => exact ⟨tree, rfl, rfl, fun _ _ => rfl⟩
  | cons part parts ih =>
    rw [List.flatMap_cons] at due ⊢
    have follows := each part List.mem_cons_self tree host seen _ due.left
    simp only [List.map_cons, evaluateParts]
    generalize evaluatePart now (part.map base.labelled) host = reply at follows ⊢
    obtain ⟨⟨id, cause⟩ | slot, between⟩ := reply
    · obtain ⟨before, rest, filled, last, split, ran, failed⟩ := follows
      exact ⟨before, rest ++ parts.flatMap Rose.postorder, filled, last, by simp [split], ran, failed⟩
    · obtain ⟨filled, ran, tops, unchanged⟩ := follows
      have rest : Follows now filled _ _ between _ :=
        ih (fun other mem => each other (List.mem_cons_of_mem _ mem)) (due.right h ran)
      simp only
      generalize evaluateParts now (parts.map (Rose.map base.labelled)) between = reply at rest ⊢
      obtain ⟨⟨id, cause⟩ | slots, last⟩ := reply
      · obtain ⟨before, after, done, final, split, ran', failed⟩ := rest
        exact ⟨part.postorder ++ before, after, done, final, by simp [split],
          (fillSlots_append _ _ ran).trans ran', failed⟩
      · obtain ⟨done, ran', tops', unchanged'⟩ := rest
        have top : part.label ∈ part.postorder := by cases part; simp [Rose.label]
        have apart := (List.nodup_append.mp due.unique).2.2
        refine ⟨done, (fillSlots_append _ _ ran).trans ran', ?_, fun id absent => ?_⟩
        · have first : (done.node part.label).slot = slot := by
            rw [unchanged' _ fun mem => apart _ top _ mem rfl]
            simpa using tops
          rw [List.map_cons, first, tops']
        · rw [unchanged' id fun mem => absent (List.mem_append_right _ mem),
            unchanged id fun mem => absent (List.mem_append_left _ mem)]

/-- The nodes of a part are filled as the recursion says. -/
theorem follows_part (h : base.Checked registry order root result) {part : Rose NodeId}
    (shows : base.Shows part) :
    ∀ tree host seen later, Due registry base order tree seen part.postorder later →
      Follows now tree part.postorder [part.label] host
        (asOne (evaluatePart now (part.map base.labelled) host)) := by
  induction shows with
  | node id parts children _ ih =>
    intro tree host seen later due
    rw [Rose.postorder_node] at due ⊢
    have operands : Follows now tree _ _ host _ := follows_parts h ih due.left
    simp only [Rose.map_node, labelled, evaluatePart]
    generalize evaluateParts now (parts.map (Rose.map base.labelled)) host = reply at operands ⊢
    obtain ⟨⟨failing, cause⟩ | slots, between⟩ := reply
    · obtain ⟨before, rest, filled, last, split, ran, failed⟩ := operands
      exact ⟨before, rest ++ [id], filled, last, by simp [split], ran, failed⟩
    · obtain ⟨filled, ran, tops, unchanged⟩ := operands
      have next := due.right h ran
      have checked := next.agrees.checked h
      have inner := next.inner id List.mem_cons_self
      have stepped := checked.slotOf_on inner.1 next.first.1 next.filled now between
      have isOperands : filled.operandSlots (filled.node id) = slots := by
        rw [← tops, operandSlots, next.agrees.children_eq, children]
      rw [isOperands, ← next.agrees.combine_eq inner.2] at stepped
      simp only
      rcases combined : combine now (base.node id) slots between with ⟨cause | slot, last⟩
      · rw [combined] at stepped
        exact ⟨_, [], filled, between, rfl, ran, stepped⟩
      · rw [combined] at stepped
        have inside : id < filled.size := by
          rw [checked.formed.size_eq]
          exact Nat.lt_succ_of_le (checked.le_root inner.1)
        refine ⟨filled.setSlot id slot, ?_, ?_, fun other absent => ?_⟩
        · rw [fillSlots_append _ _ ran, fillSlots, stepped]
          rfl
        · simp [Rose.label, node_setSlot, inside]
        · simp only [List.mem_append, List.mem_singleton, not_or] at absent
          rw [node_setSlot, if_neg fun same => absent.2 same.1.symm, unchanged other absent.1]

/-- The nodes of a checked tree below its root are all due. -/
theorem Checked.due (h : tree.Checked registry order root result) :
    order = (tree.below root result).postorder ++ [root] ∧
      Due registry tree order tree [] (tree.below root result).postorder [root] := by
  have formed := h.formed
  have split : order = (tree.below root result).postorder ++ [root] := by
    rw [h.order_eq, formed.size_eq, below, Rose.postorder_node, formed.children_root]
    simp
  refine ⟨split, .refl _, split ▸ h.childrenFirst, ⟨by simp, by simp⟩, fun id mem => ⟨?_, ?_⟩, ?_⟩
  · rw [split]
    exact List.mem_append_left _ mem
  · exact formed.kind_ne_root (Nat.lt_of_le_of_lt (le_of_mem_below formed.descending mem) formed.result_lt)
  · exact (List.nodup_append.mp (split ▸ h.nodup)).1

/-- Once all nodes below the root are filled the tree has the value of the topmost of them. -/
private theorem Checked.evaluate_of_filled (h : tree.Checked registry order root result)
    (ran : fillSlots now (tree.below root result).postorder tree host = (.ok (), filled, after)) :
    ∃ last, tree.evaluate now order host = (.ok ((filled.node result).slot.read after.heap), last, after) := by
  have checked := (agrees_of_fillSlots ran).checked h
  have kept : (slotOf now filled root).on after = (.ok (filled.node root).slot, after) := by
    simp only [slotOf, checked.formed.kind_root]
    rfl
  have done : fillSlots now order tree host = (.ok (), filled.setSlot root (filled.node root).slot, after) := by
    rw [h.due.1, fillSlots_append _ _ ran, fillSlots, kept]
    rfl
  have same : ((filled.setSlot root (filled.node root).slot).node result).slot = (filled.node result).slot := by
    rw [node_setSlot, if_neg fun same => Nat.ne_of_gt h.formed.result_lt same.1]
  refine ⟨filled.setSlot root (filled.node root).slot, ?_⟩
  rw [evaluate, done]
  simp only [resultValue, ((Agrees.setSlot kept).checked checked).formed.result?_eq, same]

/-- How an evaluation of a whole tree follows the recursion: both have the same value and leave the same host, or
both fail at the same node, for the same reason and with the same host. -/
inductive ComesTo (now : Registry) (tree : Tree) (order : List NodeId) (host : Host) :
    Except (NodeId × RuntimeError) Slot × Host → Prop where
  | value {slot : Slot} {after : Host} (last : Tree) :
      tree.evaluate now order host = (.ok (slot.read after.heap), last, after) →
      ComesTo now tree order host (.ok slot, after)
  | failure {id : NodeId} {cause : RuntimeError} {before later : List NodeId} {reached : Tree} {between after : Host} :
      order = before ++ id :: later → fillSlots now before tree host = (.ok (), reached, between) →
      (slotOf now reached id).on between = (.error cause, after) →
      tree.evaluate now order host = (.error ⟨cause, (tree.node id).span⟩, reached, after) →
      ComesTo now tree order host (.error (id, cause), after)

/-- A checked tree is evaluated as the recursion over the part below its root says. -/
theorem Checked.comesTo (h : tree.Checked registry order root result) (now : Registry) (host : Host) :
    tree.ComesTo now order host (evaluatePart now ((tree.below root result).map tree.labelled) host) := by
  obtain ⟨split, due⟩ := h.due
  have follows : Follows now tree _ _ host _ :=
    follows_part h (shows_below h.formed.descending h.formed.result_lt) _ _ [] [root] due
  generalize evaluatePart now _ host = reply at follows ⊢
  obtain ⟨⟨id, cause⟩ | slot, after⟩ := reply
  · obtain ⟨before, rest, reached, between, parts, ran, failed⟩ := follows
    have parts : order = before ++ id :: (rest ++ [root]) := by
      rw [split, parts]
      simp
    refine .failure parts ran failed ?_
    rw [evaluate, parts, fillSlots_append _ _ ran, fillSlots, failed, (agrees_of_fillSlots ran).span_eq]
  · obtain ⟨filled, ran, top, -⟩ := follows
    obtain ⟨last, evaluated⟩ := h.evaluate_of_filled ran
    obtain rfl : (filled.node result).slot = slot := by simpa using top
    exact .value last evaluated

/-- A node that fails and is no call leaves the host alone. -/
private theorem combine_error {node : Node} {operands : List Slot} {cause : RuntimeError}
    (h : combine now node operands host = (.error cause, after)) (noCall : ∀ name, node.kind ≠ .call name) :
    after = host := by
  simp only [combine] at h
  split at h
  · cases h
  · cases h
  · split at h
    · cases h
      rfl
    · split at h <;> cases h
      rfl
  · split at h <;> cases h
    rfl
  · next name isCall => exact absurd isCall (noCall name)

/-- A call leaves the host as the body of its function does. -/
private theorem combine_call {node : Node} {operands : List Slot} {name : String} (isCall : node.kind = .call name) :
    (combine now node operands host).2 =
      match now.function? name with
      | none => host
      | some function => ((function.body (operands.map (·.read host.heap))).on host).2 := by
  simp only [combine, isCall]
  cases now.function? name with
  | none => rfl
  | some function =>
    simp only
    rcases (function.body _).on host with ⟨_ | value, between⟩
    · rfl
    · simp only
      split <;> rfl

end Tree

namespace Expression

/-- The tree of an expression without the root, each node with its number. -/
def outline? (expression : Expression) : Option (Rose (NodeId × Node)) :=
  expression.tree.result?.map fun result =>
    (expression.tree.below expression.tree.size result).map expression.tree.labelled

/-- The value of an expression by recursion over its tree, or the node that fails and why. -/
def evaluateRecursively (expression : Expression) (now : Registry) (host : Host) :
    Except (NodeId × RuntimeError) Value × Host :=
  match expression.outline? with
  | none => (.ok .void, host)
  | some whole =>
    match Tree.evaluatePart now whole host with
    | (.ok slot, host) => (.ok (slot.read host.heap), host)
    | (.error failure, host) => (.error failure, host)

variable {registry now : Registry} {expression : Expression} {host between after : Host} {id : NodeId} {tree : Tree}
  {root result : Nat} {cause : RuntimeError}

private theorem outline?_eq (checked : expression.tree.Checked registry expression.order root result) :
    expression.outline? = some ((expression.tree.below root result).map expression.tree.labelled) := by
  have formed := checked.formed
  have deep : result < expression.tree.size := Nat.lt_trans formed.result_lt formed.root_lt
  simp only [outline?, formed.result?_eq, Option.map_some,
    Tree.below_eq_of_lt formed.descending deep formed.result_lt]

/-- A reached node that fails leaves the host as it found it, or as the body of its function does. -/
private theorem after_of_failed (checked : expression.tree.Checked registry expression.order root result)
    (reached : expression.Reaches now host id tree between)
    (failed : (Tree.slotOf now tree id).on between = (.error cause, after)) :
    ((∀ name, (expression.tree.node id).kind ≠ .call name) → after = between) ∧
      ∀ name, (expression.tree.node id).kind = .call name →
        after = match now.function? name with
          | none => between
          | some function => ((function.body (tree.operandValues id between)).on between).2 := by
  obtain ⟨seen, isFilled, children, mem, agrees⟩ := reached.filled checked
  rw [(agrees.checked checked).slotOf_on mem children isFilled] at failed
  rw [← agrees.kind_eq]
  refine ⟨Tree.combine_error failed, fun name isCall => ?_⟩
  have left := @Tree.combine_call now between _ (tree.operandSlots (tree.node id)) _ isCall
  rw [failed] at left
  exact left

/-- Evaluating an expression node by node comes to the recursive evaluation of its tree: the same value
or the same failure at the same node, and the same host. At a failure that is the host left by the nodes
in front of the failing one, unless this is a call of a function, whose body ran after them. -/
theorem evaluate_eq_recursively (compiled : expression.CompiledFor registry) (now : Registry)
    (host : Host) :
    (expression.evaluate now host).1 = (expression.evaluateRecursively now host).1.mapError
        (fun (id, cause) =>
          .ofEvaluationError expression.source ⟨cause, (expression.tree.node id).span⟩) ∧
      (expression.evaluate now host).2.2 = (expression.evaluateRecursively now host).2 ∧
      ∀ id cause, (expression.evaluateRecursively now host).1 = .error (id, cause) →
        ∃ tree between, expression.Reaches now host id tree between ∧
          (Tree.slotOf now tree id).on between = (.error cause, (expression.evaluate now host).2.2) ∧
          ((∀ name, (expression.tree.node id).kind ≠ .call name) → (expression.evaluate now host).2.2 = between) ∧
          ∀ name, (expression.tree.node id).kind = .call name →
            (expression.evaluate now host).2.2 =
              match now.function? name with
              | none => between
              | some function => ((function.body (tree.operandValues id between)).on between).2 := by
  obtain ⟨root, result, checked⟩ := compiled.checked
  have comes := checked.comesTo now host
  simp only [evaluateRecursively, outline?_eq checked]
  generalize Tree.evaluatePart now _ host = reply at comes ⊢
  cases comes with
  | @value slot after tree evaluated =>
    have last : (expression.evaluate now host).2.2 = after := by rw [evaluate, evaluated]
    refine ⟨?_, last, fun id cause failed => by cases failed⟩
    rw [evaluate, evaluated]
    rfl
  | @failure id cause before later tree between after split ran failed evaluated =>
    have last : (expression.evaluate now host).2.2 = after := by rw [evaluate, evaluated]
    have reached : expression.Reaches now host id tree between := ⟨before, later, split, ran⟩
    refine ⟨?_, last, fun id' cause' same => ?_⟩
    · rw [evaluate, evaluated]
      rfl
    · cases same
      rw [last]
      exact ⟨tree, between, reached, failed, after_of_failed checked reached failed⟩

/-- A variable is read when the sum runs, after an assignment to another name of its cell. -/
theorem evaluate_eq_recursively_aliased :
    ∃ expression,
      compile ⟨(Names.empty.insert "x" (.int 0)).insert "y" (.int 0), .empty⟩ 100 "y + (x = 2)" =
        .ok expression ∧
      (expression.evaluateRecursively
        ⟨(Names.empty.insert "x" (.int 0)).insert "y" (.int 0), .empty⟩ .empty).1 = .ok (.int 4) := by
  have compiled : ∃ expression,
      compile ⟨(Names.empty.insert "x" (.int 0)).insert "y" (.int 0), .empty⟩ 100 "y + (x = 2)" =
        .ok expression ∧
      (expression.evaluate
        ⟨(Names.empty.insert "x" (.int 0)).insert "y" (.int 0), .empty⟩ .empty).1 = .ok (.int 4) :=
    ⟨_, by cbv, by cbv⟩
  obtain ⟨expression, isCompiled, ran⟩ := compiled
  refine ⟨expression, isCompiled, ?_⟩
  have same := (evaluate_eq_recursively (.compile isCompiled)
    ⟨(Names.empty.insert "x" (.int 0)).insert "y" (.int 0), .empty⟩ .empty).1
  rw [ran] at same
  cases recursive : (expression.evaluateRecursively _ _).1 with
  | error failure =>
    rw [recursive] at same
    cases same
  | ok value =>
    rw [recursive] at same
    cases same
    rfl

end Expression

end Reckoner
