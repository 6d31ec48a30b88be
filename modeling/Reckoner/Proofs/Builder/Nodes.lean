import Reckoner.Proofs.Builder.Growth
import Reckoner.Proofs.Lexeme.Settled
import Reckoner.Proofs.Tree.Walk

/-!
What a built tree is like. Its leaves are the constants and variables of the classified source, every
operator stands in a form that its row allows, and the root, which is the last node, stands above the one
node that is no child of another.
-/
namespace Reckoner

/-- Whether an operator of this form can stand with its operands in this way. -/
def Form.allows (form : Form) : Fixity → Bool
  | .binary => form.binary
  | .leading => form.leading
  | .trailing => form.trailing

theorem Occurrence.allows_of_fixityBetween {occurrence : Occurrence} {before after : Bool}
    {fixity : Fixity} (h : occurrence.fixityBetween before after = some fixity) :
    occurrence.form.allows fixity = true := by
  unfold Occurrence.fixityBetween at h
  split at h
  · next can =>
    cases h
    simp_all [Form.allows]
  split at h
  · next can =>
    cases h
    simp_all [Form.allows]
  split at h <;> cases h
  simp_all [Form.allows]

/-- A settled operator is not given forms that its row does not have. -/
theorem Occurrence.Settled.allows {occurrence : Occurrence} (h : occurrence.Settled)
    {fixity : Fixity} (can : occurrence.form.allows fixity = true) :
    occurrence.operator.form.allows fixity = true := by
  cases h with
  | plain => exact can
  | before op side =>
    simp only [Form.needsSide, Bool.and_eq_true] at side
    cases fixity <;> simp_all [Form.allows, asUnary, ofOperator]
  | after op side =>
    simp only [Form.needsSide, Bool.and_eq_true] at side
    cases fixity <;> simp_all [Form.allows, asUnary, ofOperator]
  | sign op => cases fixity <;> simp_all [Form.allows, asUnary, ofOperator]

/-- What a node below the root is, whatever the types given to operators and calls. -/
def Node.Sound (registry : Registry) (node : Node) : Prop :=
  match node.kind with
  | .root => False
  | .constant => node.children = [] ∧ ∃ value, node.slot = .owned value ∧ node.type = value.type
  | .variable name => node.children = [] ∧ ∃ cell, registry.cellOf? name = some cell ∧
      node.type = cell.type
  | .operator op fixity => op.form.allows fixity = true
  | .call _ => True

/-- All nodes hang below the root, which is the last one, each below one other. -/
structure Tree.Hung (tree : Tree) (root result : Nat) : Prop where
  size_eq : tree.size = root + 1
  root_eq : tree.root = some root
  kind_root : (tree.node root).kind = .root
  children_root : (tree.node root).children = [result]
  descending : tree.Descending
  conserved : tree.childIds.Perm (List.range root)

/-- A built tree: its nodes are sound, and all of them hang below the root. -/
structure Tree.Formed (registry : Registry) (tree : Tree) (root result : Nat) : Prop extends
    Tree.Hung tree root result where
  sound : ∀ id : Nat, id < root → (tree.node id).Sound registry

/-- Only the last node is the root. -/
theorem Tree.Formed.kind_ne_root {registry : Registry} {tree : Tree} {root result id : Nat}
    (h : tree.Formed registry root result) (lt : id < root) : (tree.node id).kind ≠ .root := by
  intro isRoot
  have sound := h.sound id lt
  simp only [Node.Sound, isRoot] at sound

namespace Tree.Hung

variable {tree : Tree} {root result id : Nat}

theorem once (h : tree.Hung root result) : tree.childIds.Nodup :=
  h.conserved.nodup_iff.mpr List.nodup_range

theorem root_lt (h : tree.Hung root result) : root < tree.size := by
  rw [h.size_eq]
  exact Nat.lt_succ_self root

theorem result_lt (h : tree.Hung root result) : result < root :=
  h.descending root result (by simp [h.children_root])

theorem result?_eq (h : tree.Hung root result) : tree.result? = some result := by
  simp [result?, h.root_eq, h.children_root]

/-- A node below the root is the child of some node. -/
theorem exists_parent (h : tree.Hung root result) {id : Nat} (lt : id < root) :
    ∃ parent : Nat, parent < tree.size ∧ id ∈ (tree.node parent).children := by
  have isChild : id ∈ tree.childIds := h.conserved.mem_iff.mpr (List.mem_range.mpr lt)
  rw [childIds_eq] at isChild
  obtain ⟨parent, inside, mem⟩ := List.mem_flatMap.mp isChild
  exact ⟨parent, List.mem_range.mp inside, mem⟩

theorem postOrder_eq (h : tree.Hung root result) :
    tree.postOrder = (tree.below tree.size root).postorder := by
  simp only [postOrder, h.root_eq]
  rw [orderBelow_eq h.descending h.root_lt, List.append_nil]

theorem postOrder_concat (h : tree.Hung root result) :
    tree.postOrder = (tree.below tree.size result).postorder ++ [root] := by
  have deeper := below_eq_of_lt h.descending h.result_lt (Nat.lt_trans h.result_lt h.root_lt)
  rw [h.postOrder_eq, ← deeper, h.size_eq]
  simp [below, h.children_root]

theorem nodup_postOrder (h : tree.Hung root result) : tree.postOrder.Nodup := by
  rw [h.postOrder_eq]
  exact nodup_postorder_below h.descending h.once tree.size root

theorem childrenFirst_postOrder (h : tree.Hung root result) : tree.ChildrenFirst [] tree.postOrder := by
  rw [h.postOrder_eq]
  simpa using @childrenFirst_postorder _ _ (shows_below h.descending h.root_lt) [] [] trivial

theorem lt_of_mem_postOrder (h : tree.Hung root result) (mem : id ∈ tree.postOrder) : id < tree.size := by
  rw [h.postOrder_eq] at mem
  exact Nat.lt_of_le_of_lt (le_of_mem_below h.descending mem) h.root_lt

/-- Following the children from the root down reaches every node. -/
theorem mem_postOrder (h : tree.Hung root result) {id : Nat} (lt : id < tree.size) : id ∈ tree.postOrder := by
  rw [h.postOrder_eq]
  have shows := shows_below h.descending h.root_lt
  -- from the root downwards: parents have greater numbers
  induction gap : tree.size - id using Nat.strongRecOn generalizing id with
  | ind gap ih =>
    by_cases isRoot : id = root
    · subst isRoot
      simpa using (tree.below tree.size id).label_mem_postorder
    · have below : id < root := by
        rw [h.size_eq] at lt
        omega
      obtain ⟨parent, inside, isChild⟩ := h.exists_parent below
      have above := h.descending parent id isChild
      have met := ih (tree.size - parent) (by omega) inside rfl
      exact (children_sublist shows met).subset isChild

end Tree.Hung

namespace Builder

open Item

/-- The lexemes in the lists are settled, and the nodes are sound. -/
structure Stocked (registry : Registry) (builder : Builder) : Prop where
  lexemes : ∀ list lexeme, .lexeme lexeme ∈ builder.itemsOf list → lexeme.Settled registry
  nodes : ∀ id : Nat, id < builder.tree.size → (builder.tree.node id).Sound registry

variable {registry : Registry} {builder after : Builder} {loose children nodes : List NodeId}
  {item : Item} {items : List Item} {node : NodeId}

/-- What holds of all nodes and of the new one holds of all nodes afterwards, if it is no matter of the parent. -/
theorem holds_addNode {P : Node → Prop} (adopted : ∀ node parent, P node → P { node with parent := parent })
    {node : Node} (all : ∀ id : Nat, id < builder.tree.size → P (builder.tree.node id))
    (new : P { node with children := node.children ++ children })
    (small : ∀ child : Nat, child ∈ children → child < builder.tree.size) (id : Nat)
    (lt : id < (builder.addNode node children).2.tree.size) :
    P ((builder.addNode node children).2.tree.node id) := by
  rw [size_addNode] at lt
  rw [node_addNode node small lt]
  split
  · exact new
  · exact adopted _ _ (all id (by omega))

private theorem sound_addNode {node : Node}
    (sound : ∀ id : Nat, id < builder.tree.size → (builder.tree.node id).Sound registry)
    (new : Node.Sound registry { node with children := node.children ++ children })
    (small : ∀ child : Nat, child ∈ children → child < builder.tree.size) :
    ∀ id : Nat, id < (builder.addNode node children).2.tree.size →
      ((builder.addNode node children).2.tree.node id).Sound registry :=
  holds_addNode (fun _ _ sound => sound) sound new small

theorem LinkedOperand.grown (h : builder.LinkedOperand item (node, after))
    (grown : Grown builder loose) : Grown after (node :: loose) := by
  cases h with
  | constant | cell => exact Grown.addNode grown rfl
  | group _ _ _ found => exact grown.release found
  | call _ _ _ unique found => exact (grown.releaseAll unique found).addNode rfl

private theorem LinkedOperand.sound (h : builder.LinkedOperand item (node, after))
    (grown : Grown builder loose) (settled : ∀ lexeme, item = .lexeme lexeme → lexeme.Settled registry)
    (sound : ∀ id : Nat, id < builder.tree.size → (builder.tree.node id).Sound registry) :
    ∀ id : Nat, id < after.tree.size → (after.tree.node id).Sound registry := by
  cases h with
  | @constant lexeme value =>
    exact sound_addNode sound ⟨rfl, value, rfl, rfl⟩ (by simp)
  | @cell lexeme cell isVariable =>
    have known := settled lexeme rfl
    simp only [Lexeme.Settled, isVariable] at known
    exact sound_addNode sound ⟨rfl, cell, known, rfl⟩ (by simp)
  | group => exact sound
  | @call arguments nodes name span position unique found =>
    have small := grown.releaseAll unique found
    have same : (builder.releaseAll arguments).tree = builder.tree := tree_releaseAll ..
    refine sound_addNode (by rw [same]; exact sound) trivial fun child mem => ?_
    exact small.bound (List.mem_append_left _ mem)

theorem Linking.grown (h : Linking builder items nodes after) (grown : Grown builder loose) :
    Grown after (nodes ++ loose) := by
  induction h generalizing loose with
  | nil => exact grown
  | cons one _ ih => exact (ih ((linkOperand_ok one).grown grown)).perm List.perm_middle

private theorem Linking.sound (h : Linking builder items nodes after) (grown : Grown builder loose)
    (settled : ∀ lexeme, .lexeme lexeme ∈ items → lexeme.Settled registry)
    (sound : ∀ id : Nat, id < builder.tree.size → (builder.tree.node id).Sound registry) :
    ∀ id : Nat, id < after.tree.size → (after.tree.node id).Sound registry := by
  induction h generalizing loose with
  | nil => exact sound
  | cons one _ ih =>
    have link := linkOperand_ok one
    refine ih (link.grown grown) (fun lexeme mem => settled lexeme (List.mem_cons_of_mem _ mem)) ?_
    refine link.sound grown (fun lexeme isLexeme => settled lexeme ?_) sound
    rw [isLexeme]
    exact List.mem_cons_self

theorem Linked.grown (h : Linked builder items node after) (grown : Grown builder loose) :
    Grown after (node :: loose) := by
  cases h with
  | operand link => exact (linkOperand_ok link).grown grown
  | operation _ _ _ _ _ _ _ linking => exact (linking.grown grown).addNode rfl

theorem Linked.sound (h : Linked builder items node after) (grown : Grown builder loose)
    (settled : ∀ lexeme, .lexeme lexeme ∈ items → lexeme.Settled registry)
    (sound : ∀ id : Nat, id < builder.tree.size → (builder.tree.node id).Sound registry) :
    ∀ id : Nat, id < after.tree.size → (after.tree.node id).Sound registry := by
  cases h with
  | @operand item node after link =>
    refine (linkOperand_ok link).sound grown (fun lexeme isLexeme => settled lexeme ?_) sound
    simp [isLexeme]
  | @operation before rest items operands op occurrence fixity nodes linked span isOp named _ whole
      allowed takes linking =>
    have members : items = before ++ op :: rest := by
      simpa using takes.whole_eq.symm
    have inItems : ∀ item, item ∈ operands → item ∈ items := by
      intro item mem
      rw [members]
      rw [whole] at mem
      simp only [List.mem_append, List.mem_cons] at mem ⊢
      tauto
    have small := linking.grown grown
    refine sound_addNode ?_ ?_ fun child mem => small.bound (List.mem_append_left _ mem)
    · exact linking.sound grown (fun lexeme mem => settled lexeme (inItems _ mem)) sound
    · have isSettled : occurrence.Settled := by
        cases op with
        | lexeme lexeme =>
          have := settled lexeme (by simp [members])
          simp only [occurrence?, Lexeme.occurrence?] at named
          split at named
          · next isOperator =>
            cases named
            simpa only [Lexeme.Settled, isOperator] using this
          · cases named
        | group | call => cases isOp
      exact isSettled.allows (Occurrence.allows_of_fixityBetween allowed)

private theorem mem_itemsOf_append {news : List (List Item × Span)} {other : Nat}
    (mem : item ∈ (builder.append news).itemsOf other) :
    item ∈ news.flatMap (·.1) ∨ item ∈ builder.itemsOf other := by
  by_cases old : other < builder.lists.size
  · rw [itemsOf_append_of_lt _ old] at mem
    exact .inr mem
  · obtain ⟨index, rfl⟩ := Nat.exists_eq_add_of_le (Nat.not_lt.mp old)
    rw [itemsOf_append_add] at mem
    cases found : news[index]? with
    | none => exact .inr (by simpa [found] using mem)
    | some new =>
      rw [found] at mem
      exact .inl (List.mem_flatMap.mpr ⟨new, List.mem_of_getElem? found, mem⟩)

variable {list : Nat} {rest : List ListId} {next : Schedule}

/-- A pass keeps the tree well grown. -/
theorem Passed.grown (h : Passed builder list rest next) (scheduled : Scheduled builder (list :: rest))
    (grown : Grown builder []) : Grown next.builder [] := by
  obtain ⟨bound, unfinished⟩ := scheduled.pending list List.mem_cons_self
  cases h with
  | divided _ _ made =>
    subst made
    exact (grown.append _).setItems list _
  | @linked items node after bare link =>
    have size : after.lists.size = builder.lists.size := by
      rw [link.size_eq, size_setItems]
    have none : after.nodeOf list = none := by
      rw [nodeOf_congr link.lists_eq, nodeOf_releaseAll, nodeOf_setItems, unfinished, ite_self]
    exact (link.grown (grown.setItems list items)).finish (size ▸ bound) none

/-- A pass keeps the tree well grown and its nodes sound. -/
theorem Passed.grown_stocked (h : Passed builder list rest next)
    (scheduled : Scheduled builder (list :: rest)) (grown : Grown builder [])
    (stocked : Stocked registry builder) :
    Grown next.builder [] ∧ Stocked registry next.builder := by
  refine ⟨h.grown scheduled grown, ?_⟩
  obtain ⟨bound, -⟩ := scheduled.pending list List.mem_cons_self
  cases h with
  | @divided after left news _ division made =>
    subst made
    constructor
    · intro other lexeme mem
      rw [itemsOf_setItems _ (by rw [size_append]; exact Nat.lt_add_right _ bound)] at mem
      split at mem
      · exact stocked.lexemes list lexeme (division.lexemes lexeme (List.mem_append_left _ mem))
      · rcases mem_itemsOf_append mem with new | old
        · exact stocked.lexemes list lexeme (division.lexemes lexeme (List.mem_append_right _ new))
        · exact stocked.lexemes other lexeme old
    · simpa using stocked.nodes
  | @linked items node after bare link =>
    have inItems : ∀ lexeme, .lexeme lexeme ∈ items → lexeme.Settled registry := fun lexeme mem =>
      stocked.lexemes list lexeme (bare.division.lexemes lexeme (List.mem_append_left _ mem))
    refine ⟨?_, link.sound (grown.setItems list items) inItems stocked.nodes⟩
    intro other lexeme mem
    rw [itemsOf_finish] at mem
    split at mem
    · cases mem
    · next same =>
      rw [itemsOf_congr link.lists_eq, itemsOf_releaseAll,
        itemsOf_setItems _ bound, if_neg same] at mem
      exact stocked.lexemes other lexeme mem

end Builder

end Reckoner
