import Reckoner.Proofs.Builder.Nodes
import Reckoner.Proofs.Builder.Viewed
import Reckoner.Proofs.Tree.Shape
import Reckoner.Tree.Check
import Reckoner.Tree.Sexpr

/-!
Trees that are alike but for the places of their nodes. They are checked alike, they are written alike as long
as their constants read alike in their sources, and formed trees that become the same when places are
forgotten are alike.
-/
namespace Reckoner

/-- The node without its place. -/
def Node.unplaced (node : Node) : Node :=
  { node with span := default }

namespace Tree

/-- The trees hang together in the same way, and their nodes stand for the same and have the same types. -/
structure Alike (tree other : Tree) : Prop where
  root : tree.root = other.root
  size : tree.size = other.size
  kind : ∀ id, (tree.node id).kind = (other.node id).kind
  children : ∀ id, (tree.node id).children = (other.node id).children
  type : ∀ id, (tree.node id).type = (other.node id).type

namespace Alike

variable {registry : Registry} {tree other : Tree} {source source' : String}

theorem result? (alike : tree.Alike other) : tree.result? = other.result? := by
  simp only [Tree.result?, alike.root, alike.children]

theorem resultType (alike : tree.Alike other) : tree.resultType = other.resultType := by
  simp only [Tree.resultType, alike.result?, alike.type]

theorem postOrder (alike : tree.Alike other) : tree.postOrder = other.postOrder := by
  have below : ∀ depth id later, tree.orderBelow depth id later = other.orderBelow depth id later := by
    intro depth
    induction depth with
    | zero =>
      intro id later
      rfl
    | succ depth ih =>
      intro id later
      rw [orderBelow, orderBelow, alike.children, funext fun id => funext (ih id)]
  simp only [Tree.postOrder, alike.root, alike.size, below]

theorem setType (alike : tree.Alike other) (id : NodeId) (type : ValueType) :
    (tree.setType id type).Alike (other.setType id type) := by
  refine ⟨alike.root, ?_, ?_, ?_, ?_⟩
  · rw [size_setType, size_setType, alike.size]
  · intro node
    rw [kind_setType, kind_setType, alike.kind]
  · intro node
    rw [children_setType, children_setType, alike.children]
  · intro node
    rw [node_setType, node_setType, alike.size]
    by_cases changed : id = node ∧ node < other.size
    · rw [if_pos changed, if_pos changed]
    · rw [if_neg changed, if_neg changed]
      exact alike.type node

end Alike

section Check

/-- What the checker looks at but to report an error. -/
def Operand.sense (operand : Operand) : ValueType × Bool :=
  (operand.type, operand.isVariable)

variable {registry : Registry} {tree other : Tree} {operands operands' : List Operand}

private theorem checkOperator_alike (op : Operator) (fixity : Fixity) (span span' : Span)
    (same : operands.map Operand.sense = operands'.map Operand.sense) :
    Mirrors id (checkOperator op fixity span operands) (checkOperator op fixity span' operands') := by
  have count : operands.length = operands'.length := by
    simpa using congrArg List.length same
  have target : ∀ {first first' : Operand} {type : ValueType}, first.isVariable = first'.isVariable →
      Mirrors id
        (if op.form.lvalueOnly && !first.isVariable then
          .error (CompileError.Cause.atSpan (.notAnLvalue op.symbol) first.span)
        else .ok type : Except CompileError ValueType)
        (if op.form.lvalueOnly && !first'.isVariable then
          .error (CompileError.Cause.atSpan (.notAnLvalue op.symbol) first'.span)
        else .ok type) := by
    intro first first' type isVariable
    rw [isVariable]
    exact .ite (fun _ => .error rfl) (fun _ => .ok rfl)
  simp only [checkOperator, count]
  apply Parallel.ite
  · intro _
    exact .error rfl
  intro _
  cases operands with
  | nil =>
    cases operands' with
    | nil => exact .ok rfl
    | cons first' others' => cases count
  | cons first others =>
    cases operands' with
    | nil => cases count
    | cons first' others' =>
      obtain ⟨sense, same⟩ := List.cons.inj same
      obtain ⟨type, isVariable⟩ := Prod.mk.inj sense
      simp only [type]
      apply Parallel.ite
      · intro _
        exact .error rfl
      intro _
      cases others with
      | nil =>
        cases others' with
        | nil => exact target isVariable
        | cons second' rest' => cases same
      | cons second rest =>
        cases others' with
        | nil => cases same
        | cons second' rest' =>
          obtain ⟨sense', -⟩ := List.cons.inj same
          obtain ⟨type', -⟩ := Prod.mk.inj sense'
          simp only [type']
          apply Parallel.ite
          · intro _
            exact .error rfl
          · intro _
            exact target isVariable

private theorem checkArguments_alike (name : String) (index : Nat) (params : List ValueType)
    (same : operands.map Operand.sense = operands'.map Operand.sense) :
    Mirrors id (checkArguments name index params operands) (checkArguments name index params operands') := by
  induction params generalizing index operands operands' with
  | nil => exact .ok rfl
  | cons param params ih =>
    cases operands with
    | nil =>
      cases operands' with
      | nil => exact .ok rfl
      | cons first' others' => cases same
    | cons first others =>
      cases operands' with
      | nil => cases same
      | cons first' others' =>
        obtain ⟨sense, same⟩ := List.cons.inj same
        obtain ⟨type, -⟩ := Prod.mk.inj sense
        simp only [checkArguments, type]
        apply Parallel.ite
        · intro _
          exact .error rfl
        · intro _
          exact ih (index + 1) same

private theorem checkCall_alike (name : String) (span span' : Span)
    (same : operands.map Operand.sense = operands'.map Operand.sense) :
    Mirrors id (checkCall registry name span operands) (checkCall registry name span' operands') := by
  have count : operands.length = operands'.length := by
    simpa using congrArg List.length same
  simp only [checkCall]
  cases registry.function? name with
  | none => exact .error rfl
  | some function =>
    simp only [count]
    apply Parallel.ite
    · intro _
      exact .error rfl
    · intro _
      have arguments := checkArguments_alike name 1 function.params same
      generalize checkArguments name 1 function.params operands = reply at arguments ⊢
      generalize checkArguments name 1 function.params operands' = reply' at arguments ⊢
      cases arguments with
      | ok _ => exact .ok rfl
      | error code => exact .error code

theorem Alike.checkNode (alike : tree.Alike other) (node : NodeId) :
    Mirrors id (tree.checkNode registry node) (other.checkNode registry node) := by
  have operands : (tree.operandsOf (tree.node node)).map Operand.sense =
      (other.operandsOf (other.node node)).map Operand.sense := by
    simp only [operandsOf, List.map_map, alike.children]
    apply List.map_congr_left
    intro child _
    simp [Operand.sense, Node.isVariable, alike.kind, alike.type]
  simp only [Tree.checkNode, alike.kind]
  cases (other.node node).kind with
  | constant | «variable» => exact .ok (alike.type node)
  | root =>
    apply Parallel.ok
    have head := congrArg (fun senses => senses.head?.elim ValueType.void Prod.fst) operands
    simp only [List.head?_map, Option.elim_map] at head
    exact head
  | operator op fixity => exact checkOperator_alike op fixity _ _ operands
  | call name => exact checkCall_alike name _ _ operands

/-- Trees that are alike are both checked and stay alike, or the checks fail with the same code. -/
theorem Alike.check (alike : tree.Alike other) (order : List NodeId) :
    (∃ checked checked', tree.check registry order = (.ok (), checked) ∧
      other.check registry order = (.ok (), checked') ∧ checked.Alike checked') ∨
    ∃ error error' stopped stopped', tree.check registry order = (.error error, stopped) ∧
      other.check registry order = (.error error', stopped') ∧ error.cause.code = error'.cause.code := by
  induction order generalizing tree other with
  | nil => exact .inl ⟨tree, other, rfl, rfl, alike⟩
  | cons first rest ih =>
    have here := @Alike.checkNode registry tree other alike first
    simp only [Tree.check]
    generalize tree.checkNode registry first = reply at here ⊢
    generalize other.checkNode registry first = reply' at here ⊢
    cases here with
    | @ok type _ same =>
      subst same
      exact ih (alike.setType first type)
    | error code => exact .inr ⟨_, _, _, _, rfl, rfl, code⟩

end Check

section Text

variable {tree other : Tree} {source source' : String}

private theorem write_congr (leaf : ∀ id, leafText? source (tree.node id) = leafText? source' (other.node id))
    (head : ∀ id, headText (tree.node id) = headText (other.node id))
    (children : ∀ id, (tree.node id).children = (other.node id).children) (written : String)
    (pieces : List Piece) : tree.write source written pieces = other.write source' written pieces := by
  fun_induction write tree source written pieces with
  | case1 => rw [write]
  | case2 written text rest ih => rw [write, ih]
  | case3 written id rest ih => rw [write, ih]
  | case4 written depth id rest node text isLeaf ih =>
    have isLeaf' : leafText? source' (other.node id) = some text := by rw [← leaf, ← isLeaf]
    rw [write]
    simp only [isLeaf', ih]
  | case5 written depth id rest node isInner ih =>
    have isInner' : leafText? source' (other.node id) = none := by rw [← leaf, ← isInner]
    rw [write]
    simp only [isInner', ← head, ← children]
    exact ih

/-- Trees that are alike have the same text where their constants do. -/
theorem Alike.sexpr (alike : tree.Alike other)
    (texts : ∀ id, (tree.node id).kind = .constant →
      ((tree.node id).span.text? source).getD "?" = ((other.node id).span.text? source').getD "?") :
    tree.sexpr source = other.sexpr source' := by
  simp only [Tree.sexpr, alike.result?, alike.size]
  cases other.result? with
  | none => rfl
  | some id =>
    apply write_congr
    · intro id
      simp only [leafText?, ← alike.kind]
      cases isKind : (tree.node id).kind with
      | constant => simp only [texts id isKind]
      | root | «variable» | operator | call => rfl
    · intro id
      simp only [headText, alike.kind]
    · exact alike.children

end Text

section Moved

/-- The trees are the same but for the places of their nodes. -/
structure Moved (tree other : Tree) : Prop where
  root : tree.root = other.root
  size : tree.size = other.size
  node : ∀ id, (tree.node id).unplaced = (other.node id).unplaced

variable {tree other : Tree}

theorem Moved.alike (moved : tree.Moved other) : tree.Alike other where
  root := moved.root
  size := moved.size
  kind id := (congrArg Node.kind (moved.node id) :)
  children id := (congrArg Node.children (moved.node id) :)
  type id := (congrArg Node.type (moved.node id) :)

/-- They have the same shapes, too. -/
theorem Moved.shape_eq (moved : tree.Moved other) (id : NodeId) : tree.shape id = other.shape id := by
  apply shape_congr moved.size moved.alike.children
  intro id
  have slot : (tree.node id).slot = (other.node id).slot := (congrArg Node.slot (moved.node id) :)
  rw [Node.content, Node.content, moved.alike.kind, slot]

end Moved

section Viewed

/-- Puts the text of the source in for each constant. -/
def reads (source : String) : Labelling :=
  fun span _ => .string ((span.text? source).getD "?")

variable {registry : Registry} {tree other : Tree} {root result root' result' : Nat}
  {source source' : String}

/-- The constants of a formed tree hold values of their types. -/
theorem Formed.slot_constant (h : tree.Formed registry root result) {id : Nat}
    (constant : (tree.node id).kind = .constant) :
    ∃ value, (tree.node id).slot = .owned value ∧ (tree.node id).type = value.type := by
  have lt : id < root := by
    by_contra large
    rcases Nat.lt_or_eq_of_le (Nat.le_of_not_lt large) with behind | rfl
    · rw [node_of_size_le (by rw [h.size_eq]; omega)] at constant
      cases constant
    · rw [h.kind_root] at constant
      cases constant
  have sound := h.sound id lt
  rw [Node.Sound, constant] at sound
  exact sound.2

/-- A view that keeps the constants changes only where the nodes of a formed tree are. -/
theorem Formed.node_viewed_keep (h : tree.Formed registry root result) {view : View} (keeps : view.label = .keep)
    (id : NodeId) : (tree.node id).viewed view = { tree.node id with span := view.place (tree.node id).span } := by
  have constant := @Formed.slot_constant registry tree root result h id
  generalize tree.node id = node at constant
  obtain ⟨kind, children, parent, span, type, slot⟩ := node
  cases kind with
  | constant =>
    obtain ⟨value, held, typed⟩ := constant rfl
    simp only at held typed
    rw [held, typed, Node.viewed, keeps]
    rfl
  | root | operator | call | «variable» => cases slot <;> rfl

/-- A formed tree is the same from elsewhere but for the places of its nodes. -/
theorem Formed.moved_viewed (h : tree.Formed registry root result) {view : View} (keeps : view.label = .keep) :
    tree.Moved (tree.viewed view) where
  root := rfl
  size := (size_viewed view tree).symm
  node id := by
    by_cases lt : (id : Nat) < tree.size
    · rw [node_viewed view tree lt, h.node_viewed_keep keeps]
      rfl
    · rw [node_of_size_le (Nat.not_lt.mp lt), node_of_size_le (by rw [size_viewed]; exact Nat.not_lt.mp lt)]

/-- Formed trees that are the same without places are the same but for these. -/
theorem Formed.moved (h : tree.Formed registry root result) (h' : other.Formed registry root' result')
    (same : tree.viewed (.blank .keep) = other.viewed (.blank .keep)) : tree.Moved other := by
  have here : tree.Moved (tree.viewed (.blank .keep)) := h.moved_viewed rfl
  have there : other.Moved (other.viewed (.blank .keep)) := h'.moved_viewed rfl
  rw [← same] at there
  exact ⟨here.root.trans there.root.symm, here.size.trans there.size.symm,
    fun id => (here.node id).trans (there.node id).symm⟩

/-- Constants of formed trees read alike if the trees are the same with the texts put in. -/
theorem Formed.text_eq (h : tree.Formed registry root result) (h' : other.Formed registry root' result')
    (same : tree.viewed (.blank (reads source)) = other.viewed (.blank (reads source'))) {id : NodeId}
    (constant : (tree.node id).kind = .constant) :
    ((tree.node id).span.text? source).getD "?" = ((other.node id).span.text? source').getD "?" := by
  have size := congrArg Tree.size same
  rw [size_viewed, size_viewed] at size
  have lt : (id : Nat) < tree.size := by
    by_contra large
    rw [node_of_size_le (Nat.not_lt.mp large)] at constant
    cases constant
  have nodes : (tree.node id).viewed (.blank (reads source)) = (other.node id).viewed (.blank (reads source')) := by
    rw [← node_viewed _ _ lt, ← node_viewed _ _ (size ▸ lt), same]
  have constant' : (other.node id).kind = .constant := by
    have kinds := congrArg Node.kind nodes
    rw [Node.kind_viewed, Node.kind_viewed, constant] at kinds
    exact kinds.symm
  obtain ⟨value, held, -⟩ := h.slot_constant constant
  obtain ⟨value', held', -⟩ := h'.slot_constant constant'
  have slots := congrArg Node.slot nodes
  simp only [Node.viewed, constant, constant', held, held', View.blank, reads] at slots
  simpa using slots

end Viewed

end Tree

end Reckoner
