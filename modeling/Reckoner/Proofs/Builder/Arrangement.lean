import Mathlib
import Reckoner.Proofs.Builder.Classified
import Reckoner.Proofs.Builder.Meant
import Reckoner.Proofs.Builder.Wiring
import Reckoner.Proofs.Grammar.Spelling
import Reckoner.Proofs.Tree.Walk

/-!
Nothing is lost and nothing is made up between the lexemes of an expression and the nodes of its tree. Read
from left to right, the nodes below the root are the lexemes without the punctuation, one for one. All of
them hang together below the root, and the order of evaluation meets each of them once.
-/
namespace Reckoner

/-- A parenthesis or a comma. -/
def Lexeme.isPunctuation (lexeme : Lexeme) : Bool :=
  lexeme.opensGroup || lexeme.closesGroup || lexeme.isComma

/-- The node is the one of the lexeme. -/
inductive Lexeme.Becomes (lexeme : Lexeme) (node : Node) : Prop where
  | constant (value : Value) : lexeme.kind = .constant value → node.kind = .constant →
      node.slot = .owned value → node.span = lexeme.span → Becomes lexeme node
  | variable (cell : Cell) : lexeme.kind = .variable cell → node.kind = .variable lexeme.text →
      node.slot = .aliased cell → node.span = lexeme.span → Becomes lexeme node
  | call : lexeme.kind = .function → node.kind = .call lexeme.text → Becomes lexeme node
  | operator (occurrence : Occurrence) (fixity : Fixity) : lexeme.kind = .operator occurrence →
      node.kind = .operator occurrence.operator fixity → Becomes lexeme node

/-- Which lexeme a node comes from does not depend on its type and its relatives. -/
theorem Lexeme.Becomes.congr {lexeme : Lexeme} {node other : Node} (h : lexeme.Becomes node)
    (kind : other.kind = node.kind) (slot : other.slot = node.slot) (span : other.span = node.span) :
    lexeme.Becomes other := by
  cases h with
  | constant value known isConstant held place =>
    exact .constant value known (kind.trans isConstant) (slot.trans held) (span.trans place)
  | «variable» cell known isVariable held place =>
    exact .variable cell known (kind.trans isVariable) (slot.trans held) (span.trans place)
  | call known isCall => exact .call known (kind.trans isCall)
  | operator occurrence fixity known isOperator =>
    exact .operator occurrence fixity known (kind.trans isOperator)

/-- A leaf covers the lexeme that it comes from. -/
theorem Lexeme.Becomes.span_eq {lexeme : Lexeme} {node : Node} (becomes : lexeme.Becomes node)
    (leaf : node.kind = .constant ∨ ∃ name, node.kind = .variable name) : node.span = lexeme.span := by
  cases becomes with
  | constant _ _ _ _ same | «variable» _ _ _ _ same => exact same
  | call _ isCall => rcases leaf with other | ⟨_, other⟩ <;> cases isCall.symm.trans other
  | operator _ _ _ isOperator => rcases leaf with other | ⟨_, other⟩ <;> cases isOperator.symm.trans other

namespace Tree

/-- The nodes below the root in the order of their lexemes: an operator between its operands, before or
after its operand, and a call before its arguments. -/
def inOrder (tree : Tree) : List NodeId :=
  tree.result?.elim [] fun id =>
    (tree.below tree.size id).inorder fun id => (tree.node id).kind.before

/-- All nodes hang below the root, which is the last of them and has one child. -/
structure Rooted (tree : Tree) (root result : NodeId) : Prop where
  size_eq : tree.size = root + 1
  root_eq : tree.root = some root
  kind_root : (tree.node root).kind = .root
  children_root : (tree.node root).children = [result]
  orphan : (tree.node root).parent = none
  descending : tree.Descending
  linked : ∀ parent child : Nat,
    child ∈ (tree.node parent).children ↔ (tree.node child).parent = some parent
  one_parent : ∀ id : Nat, id < root → ∃! parent : Nat, id ∈ (tree.node parent).children

/-- An order of all nodes with children before their parents and from left to right. -/
structure Orders (tree : Tree) (order : List NodeId) : Prop where
  once : order.Perm (List.range tree.size)
  children_first : tree.ChildrenFirst [] order
  siblings : ∀ id : Nat, (tree.node id).children.Sublist order

variable {registry : Registry} {tree : Tree} {root result : Nat}

namespace Hung

theorem rooted (h : tree.Hung root result) (wired : tree.Wired) : tree.Rooted root result := by
  refine ⟨h.size_eq, h.root_eq, h.kind_root, h.children_root, ?_, h.descending, wired.linked, ?_⟩
  · cases found : (tree.node root).parent with
    | none => rfl
    | some parent =>
      -- a child of any node would be among those that are conserved, all of which come before the root
      have isChild := (wired.linked parent root).mpr found
      have inside : parent < tree.size := by
        by_contra large
        rw [children_eq_nil_of_size_le (Nat.not_lt.mp large)] at isChild
        cases isChild
      rw [h.size_eq] at inside
      exact absurd (h.descending parent root isChild) (Nat.not_lt.mpr (Nat.le_of_lt_succ inside))
  · intro id lt
    obtain ⟨parent, -, isChild⟩ := h.exists_parent lt
    exact ⟨parent, isChild, fun other isChild' => parent_unique h.once isChild' isChild⟩

theorem orders_postOrder (h : tree.Hung root result) : tree.Orders tree.postOrder := by
  constructor
  · refine (List.perm_ext_iff_of_nodup h.nodup_postOrder List.nodup_range).mpr fun id => ?_
    rw [List.mem_range]
    exact ⟨h.lt_of_mem_postOrder, h.mem_postOrder⟩
  · exact h.childrenFirst_postOrder
  · intro id
    by_cases inside : id < tree.size
    · have met := h.mem_postOrder inside
      rw [h.postOrder_eq] at met ⊢
      exact children_sublist (shows_below h.descending h.root_lt) met
    · rw [children_eq_nil_of_size_le (Nat.not_lt.mp inside)]
      exact List.nil_sublist _

theorem walks_postOrder (h : tree.Hung root result) :
    tree.Walks [(root, false)] tree.postOrder := by
  have walks := walks_postorder (shows_below h.descending h.root_lt) .done
  rw [label_below, List.append_nil] at walks
  rwa [h.postOrder_eq]

theorem inOrder_eq (h : tree.Hung root result) :
    tree.inOrder = (tree.below tree.size result).inorder fun id => (tree.node id).kind.before := by
  simp [inOrder, h.result?_eq]

theorem perm_inOrder (h : tree.Hung root result) : tree.inOrder.Perm (List.range root) := by
  have all := h.orders_postOrder.once
  rw [show List.range tree.size = List.range root ++ [root] by rw [h.size_eq, List.range_succ],
    h.postOrder_concat] at all
  rw [h.inOrder_eq]
  exact (Rose.inorder_perm_postorder _ _).trans ((List.perm_append_right_iff _).mp all)

/-- Every node but the root is below it. -/
theorem mem_inOrder (h : tree.Hung root result) {id : NodeId} (notRoot : (tree.node id).kind ≠ .root) :
    id ∈ tree.inOrder := by
  have below : id < root := by
    by_contra above
    rcases Nat.eq_or_lt_of_le (Nat.not_lt.mp above) with isRoot | outside
    · exact notRoot (isRoot ▸ h.kind_root)
    · rw [node_of_size_le (h.size_eq ▸ outside)] at notRoot
      exact notRoot rfl
  exact h.perm_inOrder.mem_iff.mpr (List.mem_range.mpr below)

/-- The root is no leaf, and the leaves below it come in the order of their lexemes. -/
theorem filter_postOrder (h : tree.Hung root result) :
    tree.postOrder.filter tree.isLeaf = tree.inOrder.filter tree.isLeaf := by
  have inner : tree.isLeaf root = false := by simp [isLeaf, h.children_root]
  have shows := shows_below h.descending (Nat.lt_trans h.result_lt h.root_lt)
  rw [h.inOrder_eq, filter_isLeaf shows, h.postOrder_concat, List.filter_append,
    List.filter_cons_of_neg (by simp [inner]), List.filter_nil, List.append_nil]

end Hung

/-- The labels of the nodes from left to right are those of the term. -/
theorem map_inOrder (tree : Tree) :
    tree.inOrder.map (fun id => (tree.node id).label) = tree.term?.elim [] Term.spelling := by
  cases found : tree.result? with
  | none => simp [inOrder, term?, found]
  | some result =>
    simp only [inOrder, term?, found, Option.elim_some, Option.map_some, Term.spelling, term]
    rw [Rose.inorder_map]
    rfl

end Tree

private theorem Lexeme.isPunctuation_eq (lexeme : Lexeme) :
    lexeme.isPunctuation = lexeme.occurrence?.any fun occurrence => occurrence.operator.isPunctuation := by
  simp only [isPunctuation, opensGroup, closesGroup, isComma, isOperatorOf]
  cases lexeme.occurrence? with
  | none => rfl
  | some occurrence =>
    simp only [Option.any_some]
    cases occurrence.operator <;> rfl

/-- Punctuation has no label, and any other lexeme has one. -/
private theorem Lexeme.spells_token {lexeme : Lexeme} {labels : List Label}
    (h : lexeme.token.Spells labels) :
    (lexeme.isPunctuation = true ∧ labels = []) ∨
      lexeme.isPunctuation = false ∧ ∃ label, labels = [label] := by
  rw [isPunctuation_eq]
  unfold token at h
  unfold occurrence?
  cases kind : lexeme.kind with
  | unresolved =>
    rw [kind] at h
    cases h
  | constant | «variable» | function =>
    rw [kind] at h
    cases h
    exact .inr ⟨rfl, _, rfl⟩
  | operator occurrence =>
    rw [kind] at h
    simp only at h
    split at h
    case h_4 notOpening notClosing notComma =>
      have notMark : occurrence.operator.isPunctuation = false := by
        cases same : occurrence.operator <;> first | rfl | contradiction
      cases h with
      | leading | trailing | binary => exact .inr ⟨notMark, _, rfl⟩
    all_goals
      next mark =>
        cases h
        exact .inl ⟨by simp [mark, Operator.isPunctuation], rfl⟩

/-- A node with the label of a lexeme is the node of the lexeme. -/
theorem Lexeme.becomes_of_spells {lexeme : Lexeme} {node : Node} (h : lexeme.token.Spells [node.label]) :
    lexeme.Becomes node := by
  generalize same : [node.label] = labels at h
  unfold token at h
  cases kind : lexeme.kind with
  | unresolved =>
    rw [kind] at h
    cases h
  | constant value =>
    rw [kind] at h
    cases h
    obtain ⟨isConstant, held⟩ := Label.mk.inj (List.cons.inj same).1
    rw [isConstant] at held
    obtain ⟨slot, span⟩ := Prod.mk.inj (Option.some.inj held)
    exact .constant value kind isConstant slot span
  | «variable» cell =>
    rw [kind] at h
    cases h
    obtain ⟨isVariable, held⟩ := Label.mk.inj (List.cons.inj same).1
    rw [isVariable] at held
    obtain ⟨slot, span⟩ := Prod.mk.inj (Option.some.inj held)
    exact .variable cell kind isVariable slot span
  | function =>
    rw [kind] at h
    cases h
    exact .call kind (Label.mk.inj (List.cons.inj same).1).1
  | operator occurrence =>
    rw [kind] at h
    simp only at h
    split at h
    case h_4 =>
      cases h with
      | leading | trailing | binary =>
        exact .operator occurrence _ kind (Label.mk.inj (List.cons.inj same).1).1
    all_goals
      cases h
      cases same

/-- The nodes from left to right have the labels of the lexemes without the punctuation. -/
theorem Tree.forall_spells {lexemes : List Lexeme} {parts : List (List Label)}
    (h : List.Forall₂ Token.Spells (lexemes.map Lexeme.token) parts) {tree : Tree} {ids : List NodeId}
    (same : ids.map (fun id => (tree.node id).label) = parts.flatten) :
    List.Forall₂ (fun lexeme id => lexeme.token.Spells [(tree.node id).label])
      (lexemes.filter fun lexeme => !lexeme.isPunctuation) ids := by
  induction lexemes generalizing parts ids with
  | nil =>
    cases h
    rw [List.flatten_nil, List.map_eq_nil_iff] at same
    rw [same]
    exact .nil
  | cons lexeme lexemes ih =>
    obtain ⟨labels, parts, here, others, rfl⟩ := List.forall₂_cons_left_iff.mp h
    rw [List.flatten_cons] at same
    rcases Lexeme.spells_token here with ⟨mark, rfl⟩ | ⟨notMark, label, rfl⟩
    · rw [List.filter_cons_of_neg (by simp [mark])]
      exact ih others same
    · rw [List.filter_cons_of_pos (by simp [notMark])]
      cases ids with
      | nil => cases same
      | cons id ids =>
        obtain ⟨rfl, rest⟩ := List.cons.inj same
        exact .cons here (ih others rest)

theorem Tree.forall_becomes {lexemes : List Lexeme} {parts : List (List Label)}
    (h : List.Forall₂ Token.Spells (lexemes.map Lexeme.token) parts) {tree : Tree} {ids : List NodeId}
    (same : ids.map (fun id => (tree.node id).label) = parts.flatten) :
    List.Forall₂ (fun lexeme id => lexeme.Becomes (tree.node id))
      (lexemes.filter fun lexeme => !lexeme.isPunctuation) ids :=
  (forall_spells h same).imp fun _ _ => Lexeme.becomes_of_spells

/-- Every node of a built tree but the root is the node of a lexeme. -/
theorem Tree.exists_becomes_of_build {registry : Registry} {source : String} {lexemes classified : List Lexeme}
    {limit : Nat} {tree : Tree} (read : Lexeme.tokenize source = .ok lexemes)
    (known : Lexeme.classify registry lexemes = .ok classified)
    (built : Tree.build source classified limit = .ok tree) {id : NodeId}
    (notRoot : (tree.node id).kind ≠ .root) : ∃ lexeme ∈ classified, lexeme.Becomes (tree.node id) := by
  obtain ⟨root, result, formed⟩ := Builder.formed_of_build (Lexeme.settled_of_classify read known) built
  obtain ⟨term, isTerm, run⟩ := Builder.term?_of_build (Item.proper_of_classify read known) built
  obtain ⟨parts, each, spelling⟩ := Machine.spelling_run run
  have same := tree.map_inOrder
  rw [isTerm, Option.elim_some, spelling] at same
  obtain ⟨index, inside, rfl⟩ := List.getElem_of_mem (formed.mem_inOrder notRoot)
  obtain ⟨length, becomes⟩ := List.forall₂_iff_get.mp (forall_becomes each same)
  exact ⟨_, (List.mem_filter.mp (List.getElem_mem (length ▸ inside))).1, becomes index (length ▸ inside) inside⟩

/-- Building a tree keeps the lexemes, and gives a tree that is evaluated node by node. -/
theorem Tree.build_conserves {registry : Registry} {source : String} {lexemes classified : List Lexeme}
    {limit : Nat} {tree : Tree} (read : Lexeme.tokenize source = .ok lexemes)
    (known : Lexeme.classify registry lexemes = .ok classified)
    (built : Tree.build source classified limit = .ok tree) :
    ∃ root result, tree.Rooted root result ∧
      tree.inOrder.Perm (List.range root) ∧
      List.Forall₂ (fun lexeme id => lexeme.Becomes (tree.node id))
        (classified.filter fun lexeme => !lexeme.isPunctuation) tree.inOrder ∧
      tree.Orders tree.postOrder ∧
      tree.Walks [(root, false)] tree.postOrder ∧
      tree.postOrder.getLast? = some root ∧
      tree.postOrder.filter tree.isLeaf = tree.inOrder.filter tree.isLeaf := by
  obtain ⟨root, result, formed⟩ := Builder.formed_of_build (Lexeme.settled_of_classify read known) built
  obtain ⟨term, isTerm, run⟩ := Builder.term?_of_build (Item.proper_of_classify read known) built
  obtain ⟨parts, each, spelling⟩ := Machine.spelling_run run
  have same := tree.map_inOrder
  rw [isTerm, Option.elim_some, spelling] at same
  refine ⟨root, result, formed.rooted (Builder.wired_of_build built), formed.perm_inOrder,
    forall_becomes each same, formed.orders_postOrder, formed.walks_postOrder, ?_, formed.filter_postOrder⟩
  rw [formed.postOrder_concat]
  simp

/-- The nodes of a call with two arguments, of which the first is a sign with its variable. -/
theorem Tree.build_conserves_call :
    ∃ lexemes classified tree, Lexeme.tokenize "f(-x, 2) + 1" = .ok lexemes ∧
      Lexeme.classify
        ⟨.insert .empty "x" (.int 0), .insert .empty "f" ⟨.int, [.int, .int], fun _ => pure (.int 0)⟩⟩
        lexemes = .ok classified ∧
      Tree.build "f(-x, 2) + 1" classified 10 = .ok tree ∧ tree.inOrder = [3, 1, 0, 2, 5, 4] ∧
      tree.postOrder = [0, 1, 2, 3, 4, 5, 6] ∧
      ∃ root result, tree.Rooted root result ∧
        List.Forall₂ (fun lexeme id => lexeme.Becomes (tree.node id))
          (classified.filter fun lexeme => !lexeme.isPunctuation) tree.inOrder ∧
        tree.Orders tree.postOrder := by
  have built : ∃ lexemes classified tree, Lexeme.tokenize "f(-x, 2) + 1" = .ok lexemes ∧
      Lexeme.classify
        ⟨.insert .empty "x" (.int 0), .insert .empty "f" ⟨.int, [.int, .int], fun _ => pure (.int 0)⟩⟩
        lexemes = .ok classified ∧
      Tree.build "f(-x, 2) + 1" classified 10 = .ok tree ∧ tree.inOrder = [3, 1, 0, 2, 5, 4] ∧
      tree.postOrder = [0, 1, 2, 3, 4, 5, 6] :=
    ⟨_, _, _, by cbv, by cbv, by cbv, by cbv, by cbv⟩
  obtain ⟨lexemes, classified, tree, read, known, built, inOrder, postOrder⟩ := built
  obtain ⟨root, result, rooted, -, becomes, orders, -⟩ := Tree.build_conserves read known built
  exact ⟨lexemes, classified, tree, read, known, built, inOrder, postOrder, root, result, rooted, becomes,
    orders⟩

end Reckoner
