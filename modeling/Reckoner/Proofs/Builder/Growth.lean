import Reckoner.Proofs.Builder.Pass
import Reckoner.Proofs.Tree.Outline

/-!
The tree while it is built. Each node is either the child of exactly one other node, or waits in a list
that has become it, or is in the hands of the pass that is going on. Children are made before their
parents.
-/
namespace Reckoner

namespace Tree

theorem childIds_eq (tree : Tree) :
    tree.childIds = (List.range tree.size).flatMap fun id => (tree.node id).children := by
  rw [childIds, List.flatMap_def, List.flatMap_def]
  refine congrArg _ (List.ext_getElem (by simp [size]) fun id lt _ => ?_)
  simp only [List.length_map, Array.length_toList] at lt
  simp [node, lt]

end Tree

namespace Builder

/-- The nodes of the finished lists. -/
def finishedNodes (builder : Builder) : List NodeId :=
  builder.lists.toList.filterMap (·.node)

/-- Every node of the tree is a child once, or the node of a finished list, or among `loose`. -/
structure Grown (builder : Builder) (loose : List NodeId) : Prop where
  descending : builder.tree.Descending
  conserved : (builder.tree.childIds ++ builder.finishedNodes ++ loose).Perm
    (List.range builder.tree.size)

variable {builder after : Builder} {loose children : List NodeId}

theorem size_addNode (builder : Builder) (node : Node) (children : List NodeId) :
    (builder.addNode node children).2.tree.size = builder.tree.size + 1 := by
  exact (Tree.size_attachAll ..).trans (Tree.size_push ..)

/-- The new node has the given children below those it had, and the other nodes change only their
parents. -/
theorem node_addNode (node : Node) (small : ∀ child : Nat, child ∈ children → child < builder.tree.size)
    {id : Nat} (lt : id < builder.tree.size + 1) :
    (builder.addNode node children).2.tree.node id =
      if id = builder.tree.size then { node with children := node.children ++ children }
      else { builder.tree.node id with
        parent := if id ∈ children then some builder.tree.size else (builder.tree.node id).parent } := by
  have inside : id < (builder.tree.push node).size := by rw [Tree.size_push]; exact lt
  refine (Tree.node_attachAll builder.tree.size children inside).trans ?_
  by_cases isNew : id = builder.tree.size
  · subst isNew
    have absent : builder.tree.size ∉ children := fun mem => Nat.lt_irrefl _ (small _ mem)
    simp [absent]
  · rw [Tree.node_push_of_lt node (by omega)]
    simp [isNew, Ne.symm isNew]

theorem children_addNode {node : Node} (alone : node.children = [])
    (small : ∀ child : Nat, child ∈ children → child < builder.tree.size) (id : Nat) :
    ((builder.addNode node children).2.tree.node id).children =
      if id = builder.tree.size then children else (builder.tree.node id).children := by
  by_cases lt : id < builder.tree.size + 1
  · rw [node_addNode node small lt]
    split <;> simp [alone]
  · rw [Tree.children_eq_nil_of_size_le (by rw [size_addNode]; omega), if_neg (by omega),
      Tree.children_eq_nil_of_size_le (by omega)]

theorem parent_addNode {node : Node} (alone : node.parent = none)
    (small : ∀ child : Nat, child ∈ children → child < builder.tree.size) (id : Nat) :
    ((builder.addNode node children).2.tree.node id).parent =
      if id ∈ children then some builder.tree.size else (builder.tree.node id).parent := by
  by_cases lt : id < builder.tree.size + 1
  · rw [node_addNode node small lt]
    split
    · next isNew =>
      subst isNew
      rw [if_neg fun mem => Nat.lt_irrefl _ (small _ mem), Tree.node_of_size_le (Nat.le_refl _), alone]
      rfl
    · rfl
  · rw [if_neg fun mem => lt (Nat.lt_succ_of_lt (small id mem)),
      Tree.node_of_size_le (by rw [size_addNode]; omega), Tree.node_of_size_le (by omega)]

namespace Grown

theorem bound (h : Grown builder loose) {id : Nat} (mem : id ∈ loose) : id < builder.tree.size :=
  List.mem_range.mp (h.conserved.subset (List.mem_append_right _ mem))

theorem perm (h : Grown builder loose) {other : List NodeId} (same : loose.Perm other) :
    Grown builder other :=
  ⟨h.descending, (same.symm.append_left _).trans h.conserved⟩

/-- Loose nodes can be put below a new one, which is then loose. -/
theorem addNode (h : Grown builder (children ++ loose)) {node : Node} (alone : node.children = []) :
    Grown (builder.addNode node children).2 (builder.tree.size :: loose) := by
  have small : ∀ child : Nat, child ∈ children → child < builder.tree.size :=
    fun child mem => h.bound (List.mem_append_left _ mem)
  constructor
  · intro id child mem
    rw [children_addNode alone small id] at mem
    split at mem
    · next isNew => exact isNew ▸ small child mem
    · exact h.descending id child mem
  · have ids : (builder.addNode node children).2.tree.childIds = builder.tree.childIds ++ children := by
      rw [Tree.childIds_eq, Tree.childIds_eq, size_addNode, List.range_succ, List.flatMap_append]
      congr 1
      · refine List.flatMap_congr fun id mem => ?_
        rw [children_addNode alone small id, if_neg (Nat.ne_of_lt (List.mem_range.mp mem))]
      · rw [List.flatMap_singleton, children_addNode alone small _, if_pos rfl]
    have conserved := h.conserved
    have lists : (builder.addNode node children).2.finishedNodes = builder.finishedNodes := rfl
    rw [List.perm_iff_count] at conserved ⊢
    intro id
    have := conserved id
    simp only [ids, lists, size_addNode, List.range_succ, List.count_append, List.count_cons,
      List.count_nil] at this ⊢
    omega

private theorem finishedNodes_modify (builder : Builder) {list : Nat} (lt : list < builder.lists.size)
    (change : WorkList → WorkList) :
    ∃ front back, builder.finishedNodes = front ++ (builder.nodeOf list).toList ++ back ∧
      ({ builder with lists := builder.lists.modify list change } : Builder).finishedNodes =
        front ++ (change builder.lists[list]).node.toList ++ back := by
  refine ⟨(builder.lists.toList.take list).filterMap (·.node),
    (builder.lists.toList.drop (list + 1)).filterMap (·.node), ?_, ?_⟩
  · have split : builder.lists.toList =
        builder.lists.toList.take list ++ builder.lists[list] :: builder.lists.toList.drop (list + 1) := by
      rw [← Array.getElem_toList, List.getElem_cons_drop, List.take_append_drop]
    rw [finishedNodes]
    conv_lhs => rw [split]
    have found : builder.nodeOf list = builder.lists[list].node := by simp [nodeOf, lt]
    rw [List.filterMap_append, List.filterMap_cons, found]
    cases builder.lists[list].node <;> simp
  · simp only [finishedNodes, Array.toList_modify]
    rw [List.modify_eq_take_cons_drop (by simpa using lt)]
    rw [List.filterMap_append, List.filterMap_cons]
    simp only [Array.getElem_toList]
    cases (change builder.lists[list]).node <;> simp

/-- The node of a finished list can be taken, which makes it loose. -/
theorem release (h : Grown builder loose) {list : Nat} {node : NodeId}
    (found : builder.nodeOf list = some node) : Grown (builder.release list) (node :: loose) := by
  refine ⟨h.descending, ?_⟩
  have lt := lt_size_of_nodeOf builder found
  obtain ⟨front, back, before, later⟩ :=
    finishedNodes_modify builder lt fun l => { l with node := none }
  have conserved := h.conserved
  rw [before, found] at conserved
  refine List.Perm.trans ?_ conserved
  rw [show (builder.release list).finishedNodes = _ from later]
  rw [List.perm_iff_count]
  intro id
  simp only [Builder.release, Option.toList_some, Option.toList_none, List.count_append, List.count_cons,
    List.count_nil]
  omega

theorem releaseAll (h : Grown builder loose) {lists : List ListId} {nodes : List NodeId}
    (unique : lists.Nodup) (found : lists.map builder.nodeOf = nodes.map some) :
    Grown (builder.releaseAll lists) (nodes ++ loose) := by
  induction lists generalizing builder loose nodes with
  | nil =>
    obtain rfl : nodes = [] := by simpa using found.symm
    exact h
  | cons list rest ih =>
    obtain ⟨fresh, unique⟩ := List.nodup_cons.mp unique
    cases nodes with
    | nil => simp at found
    | cons node nodes =>
      simp only [List.map_cons, List.cons.injEq] at found
      have later : rest.map (builder.release list).nodeOf = nodes.map some := by
        rw [← found.2]
        refine List.map_congr_left fun other mem => ?_
        exact (nodeOf_releaseAll builder [list] other).trans
          (if_neg (by simpa using ne_of_mem_of_not_mem mem fresh))
      refine (ih (h.release found.1) unique later).perm ?_
      exact List.perm_middle

/-- The one loose node can become that of a list that has none. -/
theorem finish (h : Grown builder [node]) {list : Nat} (lt : list < builder.lists.size)
    (none : builder.nodeOf list = none) : Grown (builder.finish list node) [] := by
  refine ⟨h.descending, ?_⟩
  obtain ⟨front, back, before, later⟩ :=
    finishedNodes_modify builder lt fun l => { l with items := [], node := some node }
  have conserved := h.conserved
  rw [before, none] at conserved
  refine List.Perm.trans ?_ conserved
  rw [show (builder.finish list node).finishedNodes = _ from later]
  rw [List.perm_iff_count]
  intro id
  simp only [Builder.finish, Option.toList_some, Option.toList_none, List.count_append, List.count_cons,
    List.count_nil]
  omega

private theorem finishedNodes_setItems (builder : Builder) (list : ListId) (items : List Item) :
    (builder.setItems list items).finishedNodes = builder.finishedNodes := by
  simp only [finishedNodes, setItems, Array.toList_modify]
  induction builder.lists.toList generalizing list with
  | nil => simp
  | cons first rest ih =>
    cases list with
    | zero => simp [List.filterMap_cons]
    | succ list => simp [List.filterMap_cons, ih]

theorem setItems (h : Grown builder loose) (list : ListId) (items : List Item) :
    Grown (builder.setItems list items) loose :=
  ⟨h.descending, by rw [finishedNodes_setItems]; exact h.conserved⟩

theorem append (h : Grown builder loose) (news : List (List Item × Span)) :
    Grown (builder.append news) loose := by
  induction news generalizing builder with
  | nil => exact h
  | cons new news ih =>
    refine ih ⟨h.descending, ?_⟩
    simpa [finishedNodes, addList] using h.conserved

end Grown

end Builder

end Reckoner
