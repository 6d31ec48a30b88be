import Mathlib.Data.List.Nodup
import Reckoner.Proofs.Rose
import Reckoner.Proofs.Tree.Arena

/-!
Trees of numbered nodes as trees. Where every child has a smaller number than its parent, following the
numbers ends, and where no node is a child twice, no node is met twice on the way. The order in which
the nodes of such a tree are evaluated is the postorder of the tree that the numbers spell out.
-/
namespace Reckoner.Tree

/-- Every child has a smaller number than its parent. -/
def Descending (tree : Tree) : Prop :=
  ∀ id child : Nat, child ∈ (tree.node id).children → child < id

/-- The children of all nodes, parent by parent. -/
def childIds (tree : Tree) : List NodeId :=
  tree.nodes.toList.flatMap Node.children

/-- The numbers at and below a node, at most `depth` levels down. -/
def below (tree : Tree) : Nat → NodeId → Rose NodeId
  | 0, id => .node id []
  | depth + 1, id => .node id ((tree.node id).children.map (below tree depth))

/-- Every node of the outline has exactly its children in the tree below it. -/
inductive Shows (tree : Tree) : Rose NodeId → Prop where
  | node (id : NodeId) (parts : List (Rose NodeId)) :
      (tree.node id).children = parts.map Rose.label →
      (∀ part ∈ parts, Shows tree part) → Shows tree (.node id parts)

/-- Each node of the list comes after its children, which may also be among those seen before. -/
def ChildrenFirst (tree : Tree) : List NodeId → List NodeId → Prop
  | _, [] => True
  | seen, id :: rest =>
    (∀ child ∈ (tree.node id).children, child ∈ seen) ∧ ChildrenFirst tree (id :: seen) rest

variable {tree : Tree}

@[simp] theorem label_below (depth id : Nat) : (tree.below depth id).label = id := by
  cases depth <;> rfl

/-- The parts of an outline have smaller numbers at their tops than the whole. -/
theorem Descending.label_lt (descending : tree.Descending) {id : Nat} {parts : List (Rose NodeId)}
    (children : (tree.node id).children = parts.map Rose.label) {part : Rose NodeId} (mem : part ∈ parts) :
    part.label < id :=
  descending id _ (children ▸ List.mem_map_of_mem mem)

/-- Going down as many levels as the number of the node says reaches everything. -/
theorem shows_below (descending : tree.Descending) {depth id : Nat} (deep : id < depth) :
    tree.Shows (tree.below depth id) := by
  induction depth generalizing id with
  | zero => omega
  | succ depth ih =>
    refine .node id _ (by simp [Function.comp_def]) fun part mem => ?_
    obtain ⟨child, isChild, rfl⟩ := List.mem_map.mp mem
    have := descending id child isChild
    exact ih (by omega)

/-- Going down further than that changes nothing. -/
theorem below_eq_of_lt (descending : tree.Descending) {depth more id : Nat} (deep : id < depth)
    (deeper : id < more) : tree.below depth id = tree.below more id := by
  induction depth generalizing more id with
  | zero => omega
  | succ depth ih =>
    cases more with
    | zero => omega
    | succ more =>
      simp only [below, Rose.node.injEq, true_and]
      refine List.map_congr_left fun child mem => ?_
      have := descending id child mem
      exact ih (by omega) (by omega)

theorem orderBelow_eq (descending : tree.Descending) {depth id : Nat} (deep : id < depth)
    (later : List NodeId) :
    tree.orderBelow depth id later = (tree.below depth id).postorder ++ later := by
  induction depth generalizing id later with
  | zero => omega
  | succ depth ih =>
    have children : ∀ cs : List Nat, (∀ c ∈ cs, c < depth) → ∀ later,
        cs.foldr (tree.orderBelow depth) later =
          cs.flatMap (fun c => (tree.below depth c).postorder) ++ later := by
      intro cs small later
      induction cs with
      | nil => rfl
      | cons c cs rest =>
        rw [List.foldr_cons, rest fun c mem => small c (List.mem_cons_of_mem _ mem),
          ih (small c List.mem_cons_self)]
        simp
    have small : ∀ c : Nat, c ∈ (tree.node id).children → c < depth := fun c mem => by
      have := descending id c mem
      omega
    simp only [orderBelow, below, Rose.postorder_node, children _ small, List.flatMap_map]
    simp

private theorem childrenFirst_flatMap {parts : List (Rose NodeId)} {seen rest : List NodeId}
    (each : ∀ part ∈ parts, ∀ seen rest,
      tree.ChildrenFirst (part.postorder.reverse ++ seen) rest →
        tree.ChildrenFirst seen (part.postorder ++ rest))
    (after : tree.ChildrenFirst ((parts.flatMap Rose.postorder).reverse ++ seen) rest) :
    tree.ChildrenFirst seen (parts.flatMap Rose.postorder ++ rest) := by
  induction parts generalizing seen with
  | nil => simpa using after
  | cons part parts ih =>
    rw [List.flatMap_cons, List.append_assoc]
    refine each part List.mem_cons_self seen _ ?_
    refine ih (fun p mem => each p (List.mem_cons_of_mem _ mem)) ?_
    simpa [List.append_assoc] using after

/-- Whether children come first depends on the children only. -/
theorem childrenFirst_congr {other : Tree} (same : ∀ id, (other.node id).children = (tree.node id).children)
    {seen order : List NodeId} (h : tree.ChildrenFirst seen order) : other.ChildrenFirst seen order := by
  induction order generalizing seen with
  | nil => trivial
  | cons id rest ih => exact ⟨by rw [same]; exact h.1, ih h.2⟩

/-- The postorder of an outline has the children of each node in front of it. -/
theorem childrenFirst_postorder {outline : Rose NodeId} (shows : tree.Shows outline)
    {seen rest : List NodeId} (after : tree.ChildrenFirst (outline.postorder.reverse ++ seen) rest) :
    tree.ChildrenFirst seen (outline.postorder ++ rest) := by
  induction shows generalizing seen rest with
  | node id parts children _ ih =>
    rw [Rose.postorder_node, List.append_assoc]
    refine childrenFirst_flatMap (fun part mem seen rest => ih part mem) ⟨fun child mem => ?_, ?_⟩
    · rw [children] at mem
      obtain ⟨part, isPart, rfl⟩ := List.mem_map.mp mem
      simp only [List.mem_append, List.mem_reverse, List.mem_flatMap]
      exact .inl ⟨part, isPart, part.label_mem_postorder⟩
    · simpa [List.append_assoc] using after

theorem le_of_mem_below (descending : tree.Descending) {depth id other : Nat}
    (mem : other ∈ (tree.below depth id).postorder) : other ≤ id := by
  induction depth generalizing id with
  | zero => simp [below] at mem; omega
  | succ depth ih =>
    simp only [below, Rose.postorder_node, List.flatMap_map, List.mem_append, List.mem_flatMap,
      List.mem_singleton] at mem
    rcases mem with ⟨child, isChild, inside⟩ | rfl
    · have := descending id child isChild
      have := ih inside
      omega
    · exact Nat.le_refl _

/-- The nodes below a node come right before it, those below each child as one piece. -/
theorem postorder_below_split (descending : tree.Descending) {depth top id : Nat} (deep : top < depth)
    (mem : id ∈ (tree.below depth top).postorder) :
    ∃ front back, (tree.below depth top).postorder =
      front ++ (tree.node id).children.flatMap (fun child => (tree.below depth child).postorder) ++
        id :: back := by
  induction depth generalizing top with
  | zero => omega
  | succ depth ih =>
    have children : ∀ {parent : Nat}, parent ≤ depth →
        (tree.node parent).children.flatMap (fun child => (tree.below (depth + 1) child).postorder) =
          (tree.node parent).children.flatMap (fun child => (tree.below depth child).postorder) := by
      intro parent low
      refine List.flatMap_congr fun child isChild => ?_
      have lt := descending parent child isChild
      rw [below_eq_of_lt descending (Nat.lt_succ_of_lt (Nat.lt_of_lt_of_le lt low))
        (Nat.lt_of_lt_of_le lt low)]
    have whole : (tree.below (depth + 1) top).postorder =
        (tree.node top).children.flatMap (fun child => (tree.below depth child).postorder) ++ [top] := by
      simp [below, List.flatMap_map]
    rw [whole] at mem ⊢
    rcases List.mem_append.mp mem with inside | isTop
    · obtain ⟨child, isChild, inside⟩ := List.mem_flatMap.mp inside
      have lt := Nat.lt_of_lt_of_le (descending top child isChild) (Nat.le_of_lt_succ deep)
      obtain ⟨left, right, siblings⟩ := List.append_of_mem isChild
      obtain ⟨front, back, split⟩ := ih lt inside
      have low : id ≤ depth := Nat.le_of_lt (Nat.lt_of_le_of_lt (le_of_mem_below descending inside) lt)
      rw [children low, siblings, List.flatMap_append, List.flatMap_cons, split]
      exact ⟨left.flatMap (fun child => (tree.below depth child).postorder) ++ front,
        back ++ right.flatMap (fun child => (tree.below depth child).postorder) ++ [top], by simp⟩
    · obtain rfl : id = top := by simpa using isTop
      rw [children (Nat.le_of_lt_succ deep)]
      exact ⟨[], [], by simp⟩

/-- A node that is met below another is that node or a child of one that is met. -/
private theorem mem_below_cases {depth id other : Nat}
    (mem : other ∈ (tree.below depth id).postorder) :
    other = id ∨ ∃ parent ∈ (tree.below depth id).postorder, other ∈ (tree.node parent).children := by
  induction depth generalizing id with
  | zero => simp [below] at mem; exact .inl mem
  | succ depth ih =>
    simp only [below, Rose.postorder_node, List.flatMap_map, List.mem_append, List.mem_flatMap,
      List.mem_singleton] at mem ⊢
    rcases mem with ⟨child, isChild, inside⟩ | rfl
    · rcases ih inside with rfl | ⟨parent, isInside, isChildOf⟩
      · exact .inr ⟨id, .inr rfl, isChild⟩
      · exact .inr ⟨parent, .inl ⟨child, isChild, isInside⟩, isChildOf⟩
    · exact .inl rfl

theorem children_eq_nil_of_size_le {id : Nat} (h : tree.size ≤ id) :
    (tree.node id).children = [] := by
  rw [node_of_size_le h]
  rfl

/-- A node that is a child only once has only one parent. -/
theorem parent_unique (once : tree.childIds.Nodup) {child first second : Nat}
    (one : child ∈ (tree.node first).children) (two : child ∈ (tree.node second).children) :
    first = second := by
  have bound : ∀ {id : Nat}, child ∈ (tree.node id).children → id < tree.nodes.toList.length := by
    intro id mem
    by_contra large
    rw [children_eq_nil_of_size_le (by simpa [size] using large)] at mem
    exact List.not_mem_nil mem
  have read : ∀ {id : Nat} (h : id < tree.nodes.toList.length), tree.nodes.toList[id] = tree.node id := by
    intro id h
    simp only [Array.length_toList] at h
    simp [node, h]
  have apart := List.pairwise_iff_getElem.mp (List.nodup_flatMap.mp once).2
  rcases Nat.lt_trichotomy first second with before | same | after
  · have := apart first second (bound one) (bound two) before
    rw [read, read] at this
    exact absurd two (this one)
  · exact same
  · have := apart second first (bound two) (bound one) after
    rw [read, read] at this
    exact absurd one (this two)

private theorem nodup_children (once : tree.childIds.Nodup) (id : Nat) :
    (tree.node id).children.Nodup := by
  by_cases h : id < tree.nodes.size
  · refine (List.nodup_flatMap.mp once).1 _ ?_
    simp [node, h]
  · rw [children_eq_nil_of_size_le (by simpa [size] using h)]
    exact List.nodup_nil

/-- Nothing is met below two different children of one node. -/
private theorem below_disjoint (descending : tree.Descending) (once : tree.childIds.Nodup)
    {depth id first second : Nat} (one : first ∈ (tree.node id).children)
    (two : second ∈ (tree.node id).children) (ne : first ≠ second) :
    List.Disjoint (tree.below depth first).postorder (tree.below depth second).postorder := by
  -- From the node downwards: what is met below both has a parent that is met below both.
  have step : ∀ gap other : Nat, id - other ≤ gap → other ∈ (tree.below depth first).postorder →
      other ∈ (tree.below depth second).postorder → False := by
    intro gap
    induction gap with
    | zero =>
      intro other small inFirst _
      have := descending id first one
      have := le_of_mem_below descending inFirst
      omega
    | succ gap ih =>
      intro other small inFirst inSecond
      rcases mem_below_cases inFirst with rfl | ⟨parent, isFirst, isChild⟩
      · rcases mem_below_cases inSecond with rfl | ⟨parent, isSecond, isChild⟩
        · exact ne rfl
        · have := parent_unique once one isChild
          have := le_of_mem_below descending isSecond
          have := descending id second two
          omega
      · rcases mem_below_cases inSecond with rfl | ⟨parent', isSecond, isChild'⟩
        · have := parent_unique once two isChild
          have := le_of_mem_below descending isFirst
          have := descending id first one
          omega
        · obtain rfl := parent_unique once isChild isChild'
          have := descending parent other isChild
          exact ih parent (by omega) isFirst isSecond
  exact fun other inFirst inSecond => step _ other (Nat.le_refl _) inFirst inSecond

/-- No node is met twice below another. -/
theorem nodup_postorder_below (descending : tree.Descending) (once : tree.childIds.Nodup)
    (depth id : Nat) : (tree.below depth id).postorder.Nodup := by
  induction depth generalizing id with
  | zero => simp [below]
  | succ depth ih =>
    simp only [below, Rose.postorder_node, List.flatMap_map]
    refine List.nodup_append.mpr ⟨List.nodup_flatMap.mpr ⟨fun c _ => ih c, ?_⟩, by simp, ?_⟩
    · refine (nodup_children once id).pairwise_of_forall_ne fun first one second two ne => ?_
      exact below_disjoint descending once one two ne
    · intro other mem last isLast
      obtain ⟨child, isChild, inside⟩ := List.mem_flatMap.mp mem
      have lt := descending id child isChild
      have le := le_of_mem_below descending inside
      exact List.mem_singleton.mp isLast ▸ Nat.ne_of_lt (Nat.lt_of_le_of_lt le lt)

end Reckoner.Tree
