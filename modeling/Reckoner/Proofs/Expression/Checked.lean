import Reckoner.Proofs.Tree.Check

/-!
Compiled expressions. Their trees are formed and checked, and stay so however often they are evaluated,
because an evaluation changes nothing but what the slots of operators, calls and variables hold.
-/
namespace Reckoner

namespace Tree

/-- The trees differ at most in the slots of their nodes, and not in those of constants. -/
structure Agrees (tree other : Tree) : Prop where
  size_eq : other.size = tree.size
  root_eq : other.root = tree.root
  node_eq : ∀ id, other.node id = { tree.node id with slot := (other.node id).slot }
  constant_eq : ∀ id, (tree.node id).kind = .constant → other.node id = tree.node id

/-- A formed tree in which every node has the type that the checker finds, with the order in which its
nodes are evaluated. -/
structure Checked (registry : Registry) (tree : Tree) (order : List NodeId) (root result : Nat) :
    Prop where
  formed : tree.Formed registry root result
  order_eq : order = (tree.below tree.size root).postorder
  types : ∀ id ∈ order, tree.checkNode registry id = .ok (tree.node id).type

variable {registry now : Registry} {tree other third : Tree} {order : List NodeId}
  {root result id : Nat} {slot : Slot} {host host' : Host}

namespace Agrees

theorem refl (tree : Tree) : tree.Agrees tree :=
  ⟨rfl, rfl, fun _ => rfl, fun _ _ => rfl⟩

theorem trans (first : tree.Agrees other) (second : other.Agrees third) : tree.Agrees third := by
  refine ⟨second.size_eq.trans first.size_eq, second.root_eq.trans first.root_eq, fun id => ?_,
    fun id isConstant => ?_⟩
  · rw [second.node_eq, first.node_eq]
  · have same := first.constant_eq id isConstant
    rw [second.constant_eq id (by rw [same]; exact isConstant), same]

theorem kind_eq (h : tree.Agrees other) (id : NodeId) : (other.node id).kind = (tree.node id).kind := by
  rw [h.node_eq]

theorem children_eq (h : tree.Agrees other) (id : NodeId) :
    (other.node id).children = (tree.node id).children := by
  rw [h.node_eq]

theorem type_eq (h : tree.Agrees other) (id : NodeId) : (other.node id).type = (tree.node id).type := by
  rw [h.node_eq]

theorem span_eq (h : tree.Agrees other) (id : NodeId) : (other.node id).span = (tree.node id).span := by
  rw [h.node_eq]

theorem operandsOf_eq (h : tree.Agrees other) (id : NodeId) :
    other.operandsOf (other.node id) = tree.operandsOf (tree.node id) := by
  simp only [operandsOf, h.children_eq]
  refine List.map_congr_left fun child _ => ?_
  simp only [h.type_eq, h.span_eq, Node.isVariable, h.kind_eq]

theorem checkNode_eq (h : tree.Agrees other) (id : NodeId) :
    other.checkNode registry id = tree.checkNode registry id := by
  simp only [checkNode, h.operandsOf_eq, h.kind_eq, h.type_eq, h.span_eq]

theorem below_eq (h : tree.Agrees other) (depth id : Nat) : other.below depth id = tree.below depth id := by
  induction depth generalizing id with
  | zero => rfl
  | succ depth ih =>
    simp only [below, h.children_eq, Rose.node.injEq, true_and]
    exact List.map_congr_left fun child _ => ih child

private theorem childIds_eq (h : tree.Agrees other) : other.childIds = tree.childIds := by
  rw [Tree.childIds_eq, Tree.childIds_eq, h.size_eq]
  exact List.flatMap_congr fun id _ => h.children_eq id

private theorem sound (h : tree.Agrees other) (sound : (tree.node id).Sound registry) :
    (other.node id).Sound registry := by
  have kind := h.kind_eq id
  have children := h.children_eq id
  have type := h.type_eq id
  have constant := h.constant_eq id
  unfold Node.Sound at sound ⊢
  rw [kind, children, type]
  split at sound
  · exact sound
  · next isConstant =>
    rw [constant isConstant]
    exact sound
  · exact sound
  · exact sound
  · trivial

/-- A checked tree stays checked when only its slots change. -/
theorem checked (agrees : tree.Agrees other) (h : tree.Checked registry order root result) :
    other.Checked registry order root result := by
  obtain ⟨formed, order_eq, types⟩ := h
  refine ⟨⟨⟨?_, ?_, ?_, ?_, ?_, ?_⟩, ?_⟩, ?_, ?_⟩
  · exact agrees.size_eq.trans formed.size_eq
  · exact agrees.root_eq.trans formed.root_eq
  · exact (agrees.kind_eq root).trans formed.kind_root
  · exact (agrees.children_eq root).trans formed.children_root
  · intro id child mem
    rw [agrees.children_eq] at mem
    exact formed.descending id child mem
  · rw [agrees.childIds_eq]
    exact formed.conserved
  · exact fun id lt => agrees.sound (formed.sound id lt)
  · rw [order_eq, agrees.size_eq, agrees.below_eq]
  · intro id mem
    rw [agrees.checkNode_eq, agrees.type_eq]
    exact types id mem

/-- Filling the slot of a node with what belongs there. -/
theorem setSlot (h : (slotOf now tree id).on host = (.ok slot, host')) :
    tree.Agrees (tree.setSlot id slot) := by
  refine ⟨size_setSlot .., rfl, fun other => ?_, fun other isConstant => ?_⟩
  · rw [node_setSlot]
    split <;> rfl
  · rw [node_setSlot]
    split
    · next same =>
      obtain ⟨rfl, -⟩ := same
      have kept : slot = (tree.node id).slot := by
        simp only [slotOf, isConstant] at h
        cases h
        rfl
      rw [kept]
    · rfl

end Agrees

/-- Filling slots leaves everything else alone. -/
theorem agrees_of_fillSlots {result : Except EvaluationError Unit}
    (h : fillSlots now order tree host = (result, other, host')) : tree.Agrees other := by
  induction order generalizing tree host with
  | nil =>
    cases h
    exact .refl _
  | cons id rest ih =>
    rw [fillSlots] at h
    split at h
    · next ran => exact (Agrees.setSlot ran).trans (ih h)
    · cases h
      exact .refl _

namespace Checked

theorem nodup (h : tree.Checked registry order root result) : order.Nodup := by
  rw [h.order_eq, ← h.formed.postOrder_eq]
  exact h.formed.nodup_postOrder

theorem childrenFirst (h : tree.Checked registry order root result) : tree.ChildrenFirst [] order := by
  rw [h.order_eq, ← h.formed.postOrder_eq]
  exact h.formed.childrenFirst_postOrder

theorem le_root (h : tree.Checked registry order root result) (mem : id ∈ order) : id ≤ root := by
  rw [h.order_eq] at mem
  exact le_of_mem_below h.formed.descending mem

theorem result_mem (h : tree.Checked registry order root result) : result ∈ order := by
  rw [h.order_eq, h.formed.size_eq, below, Rose.postorder_node, h.formed.children_root]
  have := (tree.below root result).label_mem_postorder
  rw [label_below] at this
  simp [this]

/-- Checking the tree of settled lexemes gives a checked tree. -/
theorem of_check {checked : Tree} (formed : tree.Formed registry root result)
    (h : tree.check registry tree.postOrder = (.ok (), checked)) :
    checked.Checked registry tree.postOrder root result := by
  have node := node_check h
  have children : ∀ id, (checked.node id).children = (tree.node id).children := by
    intro id
    obtain ⟨type, same⟩ := node id
    rw [same]
  have kind : ∀ id, (checked.node id).kind = (tree.node id).kind := by
    intro id
    obtain ⟨type, same⟩ := node id
    rw [same]
  obtain ⟨size, root_eq⟩ := size_check h
  have below : ∀ depth id, checked.below depth id = tree.below depth id := by
    intro depth
    induction depth with
    | zero => exact fun _ => rfl
    | succ depth ih =>
      intro id
      simp only [Tree.below, children, Rose.node.injEq, true_and]
      exact List.map_congr_left fun child _ => ih child
  refine ⟨⟨⟨size.trans formed.size_eq, root_eq.trans formed.root_eq, (kind root).trans formed.kind_root,
    (children root).trans formed.children_root, ?_, ?_⟩, ?_⟩, ?_, ?_⟩
  · intro id child mem
    rw [children] at mem
    exact formed.descending id child mem
  · have same : checked.childIds = tree.childIds := by
      rw [childIds_eq, childIds_eq, size]
      exact List.flatMap_congr fun id _ => children id
    rw [same]
    exact formed.conserved
  · intro id lt
    have sound := formed.sound id lt
    have leaf := @node_check_of_leaf _ _ _ _ _ h id
    unfold Node.Sound at sound ⊢
    rw [kind]
    split at sound
    · exact sound
    · next isConstant =>
      rw [leaf (.inl isConstant)]
      exact sound
    · next name isVariable =>
      rw [leaf (.inr ⟨name, isVariable⟩)]
      exact sound
    · exact sound
    · trivial
  · rw [formed.postOrder_eq, size, below]
  · exact checkNode_of_check h formed.nodup_postOrder formed.childrenFirst_postOrder (by simp)
      fun id mem => formed.lt_of_mem_postOrder mem

end Checked

end Tree

namespace Expression

/-- The expressions that come from compiling against a registry, also after they were evaluated. -/
inductive CompiledFor (registry : Registry) : Expression → Prop where
  | compile {passLimit : Nat} {source : String} {expression : Expression} :
      compile registry passLimit source = .ok expression → CompiledFor registry expression
  | evaluate {expression : Expression} (now : Registry) (host : Host) :
      CompiledFor registry expression → CompiledFor registry (expression.evaluate now host).2.1

/-- What each stage of compiling a source came to. -/
structure Stages (registry : Registry) (passLimit : Nat) (source : String) (lexemes classified : List Lexeme)
    (tree : Tree) (expression : Expression) : Prop where
  read : Lexeme.tokenize source = .ok lexemes
  known : Lexeme.classify registry lexemes = .ok classified
  built : Tree.build source classified passLimit = .ok tree
  checked : tree.check registry tree.postOrder = (.ok (), expression.tree)
  order_eq : expression.order = tree.postOrder
  source_eq : expression.source = source

theorem exists_stages {registry : Registry} {passLimit : Nat} {source : String} {expression : Expression}
    (h : compile registry passLimit source = .ok expression) :
    ∃ lexemes classified tree, Stages registry passLimit source lexemes classified tree expression := by
  simp only [compile] at h
  split at h
  · next tree order compiled =>
    cases h
    obtain ⟨tree', parsed, compiled⟩ := bind_eq_ok.mp compiled
    obtain ⟨lexemes, read, parsed⟩ := bind_eq_ok.mp parsed
    obtain ⟨classified, known, built⟩ := bind_eq_ok.mp parsed
    dsimp only at compiled
    split at compiled
    · next checked isChecked =>
      cases compiled
      exact ⟨lexemes, classified, tree', read, known, built, isChecked, rfl, rfl⟩
    · cases compiled
  · cases h

private theorem checked_of_compile {registry : Registry} {passLimit : Nat} {source : String}
    {expression : Expression} (h : compile registry passLimit source = .ok expression) :
    ∃ root result, expression.tree.Checked registry expression.order root result := by
  obtain ⟨lexemes, classified, tree, stages⟩ := exists_stages h
  obtain ⟨root, result, formed⟩ :=
    Builder.formed_of_build (Lexeme.settled_of_classify stages.read stages.known) stages.built
  rw [stages.order_eq]
  exact ⟨root, result, .of_check formed stages.checked⟩

/-- Compiled expressions are checked. -/
theorem CompiledFor.checked {registry : Registry} {expression : Expression}
    (h : CompiledFor registry expression) :
    ∃ root result, expression.tree.Checked registry expression.order root result := by
  induction h with
  | compile compiled => exact checked_of_compile compiled
  | @evaluate expression now host _ ih =>
    obtain ⟨root, result, checked⟩ := ih
    refine ⟨root, result, ?_⟩
    simp only [Expression.evaluate, Tree.evaluate]
    cases filled : Tree.fillSlots now expression.order expression.tree host with
    | mk outcome rest =>
      obtain ⟨tree, after⟩ := rest
      have agrees := Tree.agrees_of_fillSlots filled
      cases outcome <;> exact agrees.checked checked

end Expression

end Reckoner
