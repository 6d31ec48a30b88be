import Reckoner.Proofs.Expression.Outcome
import Reckoner.Proofs.Expression.Typing

/-!
Answers: the value or the failure of an evaluation, wherever in the source the failure happened, and the host
left behind. The answer of a checked tree is settled by its shape and the registry that it was checked
against.
-/
namespace Reckoner.Tree

/-- A reply without the place of its failure. -/
def unplaced {α : Type} (reply : Except EvaluationError α × Host) : Except RuntimeError α × Host :=
  (reply.1.mapError (·.cause), reply.2)

/-- The value of a tree, or why there is none, and the host afterwards. -/
def answer (now : Registry) (tree : Tree) (order : List NodeId) (host : Host) :
    Except RuntimeError Value × Host :=
  unplaced (tree.outcome now order host)

/-- The nodes at and below a node as a tree. -/
def outline (tree : Tree) (id : NodeId) : Rose (NodeId × Node) :=
  (tree.below tree.size id).map tree.labelled

/-- The answer that the recursion over a part of a tree comes to. -/
def recursively (now : Registry) (part : Rose (NodeId × Node)) (host : Host) :
    Except RuntimeError Value × Host :=
  unplaced (settled (located (fun _ => default) (evaluatePart now part host)))

variable {registry now : Registry} {tree other : Tree} {order order' : List NodeId}
  {root root' result result' : Nat} {host after : Host} {slot : Slot}

theorem outline_eq (descending : tree.Descending) {id : Nat} (lt : id < tree.size) :
    tree.outline id = .node (id, tree.node id) ((tree.node id).children.map tree.outline) :=
  map_below_eq _ descending lt

/-- The answer of a checked tree is found by recursion. -/
theorem Checked.answer_eq (h : tree.Checked registry order root result) (now : Registry) (host : Host) :
    tree.answer now order host = recursively now (tree.outline result) host := by
  have inner := Nat.lt_trans h.formed.result_lt h.formed.root_lt
  have same : tree.below root result = tree.below tree.size result :=
    below_eq_of_lt h.formed.descending h.formed.result_lt inner
  rw [answer, h.outcome_eq, same]
  simp only [recursively, outline, unplaced, settled, located]
  rcases evaluatePart now _ host with ⟨⟨_, _⟩ | _, _⟩ <;> rfl

/-- The recursion depends on the senses of the nodes alone. -/
theorem recursively_congr {first second : Rose (NodeId × Node)}
    (same : senses (fun _ => default) first = senses (fun _ => default) second) (host : Host) :
    recursively now first host = recursively now second host := by
  rw [recursively, evaluatePart_congr same]
  rfl

private theorem sense_eq {first second : Node} (content : first.content = second.content)
    (type : first.type = second.type) (notRoot : first.kind ≠ .root) : first.sense = second.sense := by
  obtain ⟨kind, held⟩ := Node.Content.mk.inj content
  unfold Node.sense
  rw [kind] at notRoot held ⊢
  rw [type]
  cases isKind : second.kind with
  | root => exact absurd isKind notRoot
  | constant =>
    simp only [isKind] at held ⊢
    rw [held]
  | «variable» | operator | call => rfl

/-- Where two trees that were checked against one registry have the same shape, their nodes have the same
senses. -/
theorem Checked.senses_eq (h : tree.Checked registry order root result)
    (h' : other.Checked registry order' root' result') {id id' : Nat} (lt : id < root) (lt' : id' < root')
    (same : tree.shape id = other.shape id') :
    senses (fun _ => default) (tree.outline id) = senses (fun _ => default) (other.outline id') := by
  induction id using Nat.strongRecOn generalizing id' with
  | ind id ih =>
    have inside := Nat.lt_trans lt h.formed.root_lt
    have inside' := Nat.lt_trans lt' h'.formed.root_lt
    have typed := h.hasType lt
    have type : (tree.node id).type = (other.node id').type := by
      rw [same] at typed
      exact typed.unique (h'.hasType lt')
    rw [shape_eq h.formed.descending inside, shape_eq h'.formed.descending inside'] at same
    obtain ⟨content, parts⟩ := Rose.node.inj same
    rw [outline_eq h.formed.descending inside, outline_eq h'.formed.descending inside']
    simp only [senses, Rose.map_node, List.map_map, Rose.node.injEq, Prod.mk.injEq, true_and]
    refine ⟨sense_eq content type (h.formed.kind_ne_root lt), ?_⟩
    have count : (tree.node id).children.length = (other.node id').children.length := by
      simpa using congrArg List.length parts
    apply List.ext_getElem
    · simpa using count
    · intro index left right
      simp only [List.length_map] at left right
      rw [List.getElem_map, List.getElem_map]
      have smaller := h.formed.descending id _ (List.getElem_mem left)
      have smaller' := h'.formed.descending id' _ (List.getElem_mem right)
      apply ih _ smaller (Nat.lt_trans smaller lt) (Nat.lt_trans smaller' lt')
      have one := List.getElem_of_eq parts (by simpa using left)
      rwa [List.getElem_map, List.getElem_map] at one

/-- Trees of one shape that were checked against one registry answer alike. -/
theorem Checked.answer_congr (h : tree.Checked registry order root result)
    (h' : other.Checked registry order' root' result') (same : tree.shape result = other.shape result')
    (now : Registry) (host : Host) : tree.answer now order host = other.answer now order' host := by
  rw [h.answer_eq, h'.answer_eq]
  apply recursively_congr
  exact h.senses_eq h' h.formed.result_lt h'.formed.result_lt same

/-- What the recursion gives for a part of a checked tree has the type of the node at its top. -/
theorem Checked.type_of_evaluatePart (h : tree.Checked registry order root result) {id : Nat}
    (lt : id < root) (ran : evaluatePart now (tree.outline id) host = (.ok slot, after)) :
    slot.type = (tree.node id).type := by
  have inside := Nat.lt_trans lt h.formed.root_lt
  have shows := shows_below h.formed.descending inside
  have inner : ∀ other ∈ (tree.below tree.size id).postorder, other < root := fun other mem =>
    Nat.lt_of_le_of_lt (le_of_mem_below h.formed.descending mem) lt
  have first : tree.ChildrenFirst [] ((tree.below tree.size id).postorder ++ []) :=
    childrenFirst_postorder shows trivial
  have due : Due registry tree order tree [] (tree.below tree.size id).postorder [] := by
    refine ⟨.refl _, first, ⟨by simp, by simp⟩, ?_, ?_⟩
    · intro other mem
      exact ⟨h.mem_order (inner other mem), h.formed.kind_ne_root (inner other mem)⟩
    · exact nodup_postorder_below h.formed.descending h.formed.once tree.size id
  have follows : Follows now tree _ _ host _ := follows_part h shows tree host [] [] due
  rw [outline] at ran
  rw [ran] at follows
  obtain ⟨filled, filling, top, -⟩ := follows
  have top : (filled.node id).slot = slot := by simpa using top
  obtain ⟨isFilled, -⟩ := h.filled first (fun other mem => h.mem_order (inner other mem))
    ⟨by simp, by simp⟩ filling
  have agrees := agrees_of_fillSlots filling
  have label := (tree.below tree.size id).label_mem_postorder
  rw [label_below] at label
  rw [← top, isFilled.typed id (by simpa using label), agrees.type_eq]
  rw [agrees.kind_eq]
  exact h.formed.kind_ne_root lt

end Reckoner.Tree

namespace Reckoner.Expression

/-- The value of an expression, or why there is none, and the host afterwards. -/
def answer (expression : Expression) (now : Registry) (host : Host) :
    Except RuntimeError Value × Host :=
  expression.tree.answer now expression.order host

/-- An evaluation gives the value of the answer or fails with the message for its failure, and it leaves the
host of the answer. -/
theorem evaluate_answer (expression : Expression) (now : Registry) (host : Host) :
    (expression.evaluate now host).2.2 = (expression.answer now host).2 ∧
      match (expression.answer now host).1 with
      | .ok value => (expression.evaluate now host).1 = .ok value
      | .error cause => ∃ failure, (expression.evaluate now host).1 = .error failure ∧
          failure.message = s!"Runtime error: {cause.message}" := by
  refine ⟨rfl, ?_⟩
  simp only [answer, Tree.answer, Tree.unplaced, Tree.outcome, evaluate]
  rcases expression.tree.evaluate now expression.order host with ⟨error | value, tree, after⟩
  · exact ⟨_, rfl, rfl⟩
  · rfl

end Reckoner.Expression
