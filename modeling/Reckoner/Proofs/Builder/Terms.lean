import Reckoner.Proofs.Builder.Faithful
import Reckoner.Proofs.Builder.Growth
import Reckoner.Proofs.Tree.Term

/-!
Linking a list gives the term that is read in it, if the lists that its members need have become the terms
that they mean. New nodes come after all others, so that the terms of the nodes there were stay.
-/
namespace Reckoner.Builder

open Item

variable {registry : Registry} {builder between after : Builder} {loose children nodes : List NodeId}
  {item : Item} {items : List Item} {node : NodeId}

/-- The terms of the nodes of one builder are the same in another. -/
structure Keeps (builder after : Builder) : Prop where
  size : builder.tree.size ≤ after.tree.size
  term : ∀ id : Nat, id < builder.tree.size → after.tree.term id = builder.tree.term id

namespace Keeps

theorem refl (builder : Builder) : Keeps builder builder :=
  ⟨Nat.le_refl _, fun _ _ => rfl⟩

theorem trans (one : Keeps builder between) (two : Keeps between after) : Keeps builder after :=
  ⟨Nat.le_trans one.size two.size, fun id lt =>
    (two.term id (Nat.lt_of_lt_of_le lt one.size)).trans (one.term id lt)⟩

theorem of_tree_eq (same : after.tree = builder.tree) : Keeps builder after :=
  ⟨by rw [same], fun _ _ => by rw [same]⟩

end Keeps

/-- A new node is the top of a new term, with the terms of its children below it. -/
theorem Grown.term_addNode (h : Grown builder (children ++ loose)) {node : Node}
    (alone : node.children = []) :
    Keeps builder (builder.addNode node children).2 ∧
      (builder.addNode node children).2.tree.term builder.tree.size =
        .node node.label (children.map builder.tree.term) := by
  have small : ∀ child : Nat, child ∈ children → child < builder.tree.size :=
    fun child mem => h.bound (List.mem_append_left _ mem)
  have size := size_addNode builder node children
  have descending := (h.addNode alone).descending
  have keeps : Keeps builder (builder.addNode node children).2 := by
    refine ⟨by omega, fun id lt => ?_⟩
    refine Tree.term_congr h.descending descending (Nat.le_refl _) (by omega) (fun other lt => ?_) lt
    rw [node_addNode node small (by omega), if_neg (by omega)]
    exact ⟨rfl, rfl⟩
  refine ⟨keeps, ?_⟩
  rw [Tree.term_eq descending (by omega), node_addNode node small (Nat.lt_succ_self _), if_pos rfl]
  simp only [alone, List.nil_append, Rose.node.injEq]
  exact ⟨rfl, List.map_congr_left fun child mem => keeps.term child (small child mem)⟩

variable {meaning : ListId → Option Term}

/-- A finished list has become what it means. -/
def Means (meaning : ListId → Option Term) (builder : Builder) (list : ListId) : Prop :=
  ∀ node, builder.nodeOf list = some node → meaning list = some (builder.tree.term node)

private theorem mapM_meaning {arguments : List ListId}
    (means : ∀ list ∈ arguments, Means meaning builder list)
    (found : arguments.map builder.nodeOf = nodes.map some) :
    arguments.mapM meaning = some (nodes.map builder.tree.term) := by
  induction arguments generalizing nodes with
  | nil =>
    obtain rfl : nodes = [] := by simpa using found.symm
    rfl
  | cons list rest ih =>
    cases nodes with
    | nil => simp at found
    | cons node nodes =>
      simp only [List.map_cons, List.cons.injEq] at found
      rw [List.mapM_cons, means list List.mem_cons_self node found.1,
        ih (fun list mem => means list (List.mem_cons_of_mem _ mem)) found.2]
      rfl

/-- An operand becomes the term that it means. -/
theorem LinkedOperand.term (h : builder.LinkedOperand item (node, after)) (grown : Grown builder loose)
    (means : ∀ list ∈ item.lists, Means meaning builder list) :
    Keeps builder after ∧ Grown after (node :: loose) ∧
      item.token meaning = .operand (after.tree.term node) := by
  cases h with
  | @constant lexeme value isConstant =>
    obtain ⟨keeps, term⟩ := @Grown.term_addNode builder loose [] grown
      (.alone .constant lexeme.span (.owned value)) rfl
    refine ⟨keeps, Grown.addNode grown rfl, ?_⟩
    simp only [token, Lexeme.token, isConstant]
    exact congrArg Token.operand term.symm
  | @cell lexeme cell isVariable =>
    obtain ⟨keeps, term⟩ := @Grown.term_addNode builder loose [] grown
      (.alone (.variable lexeme.text) lexeme.span (.aliased cell)) rfl
    refine ⟨keeps, Grown.addNode grown rfl, ?_⟩
    simp only [token, Lexeme.token, isVariable]
    exact congrArg Token.operand term.symm
  | @group list _ text span position found =>
    refine ⟨.of_tree_eq rfl, grown.release found, ?_⟩
    rw [token, means list (by simp) node found]
    rfl
  | @call arguments nodes name span position unique found =>
    have same : (builder.releaseAll arguments).tree = builder.tree := tree_releaseAll ..
    have released := grown.releaseAll unique found
    obtain ⟨keeps, term⟩ := released.term_addNode
      (show (Node.alone (.call name) span (.owned .void)).children = [] from rfl)
    refine ⟨(Keeps.of_tree_eq same).trans keeps, released.addNode rfl, ?_⟩
    have read : arguments.mapM meaning = some (nodes.map builder.tree.term) := mapM_meaning means found
    rw [token, read, ← same]
    exact congrArg Token.operand term.symm

theorem Grown.lt_of_nodeOf (h : Grown builder loose) {list : ListId}
    (found : builder.nodeOf list = some node) : node < builder.tree.size := by
  exact (h.release found).bound List.mem_cons_self

/-- What finished lists mean is not changed by new nodes, and by taking nodes away. -/
theorem Means.keep {list : ListId} (h : Means meaning builder list) (grown : Grown builder loose)
    (keeps : Keeps builder after)
    (old : ∀ node, after.nodeOf list = some node → builder.nodeOf list = some node) :
    Means meaning after list := by
  intro node found
  have found := old node found
  rw [keeps.term node (grown.lt_of_nodeOf found)]
  exact h node found

/-- Operands become the terms that they mean, one after the other. -/
theorem Linking.term (h : Linking builder items nodes after) (grown : Grown builder loose)
    (means : ∀ list ∈ references items, Means meaning builder list) :
    Keeps builder after ∧ Grown after (nodes ++ loose) ∧
      items.map (token meaning) = nodes.map fun node => .operand (after.tree.term node) := by
  induction h generalizing loose with
  | nil => exact ⟨.refl _, grown, rfl⟩
  | @cons builder between after item rest node nodes one later ih =>
    have link := linkOperand_ok one
    obtain ⟨keeps, grown', here⟩ :=
      link.term grown fun list mem => means list (List.mem_append_left _ mem)
    obtain ⟨keeps', grown'', others⟩ := ih grown' fun list mem =>
      (means list (List.mem_append_right _ mem)).keep grown keeps fun node found => by
        rw [nodeOf_congr link.lists_eq, nodeOf_releaseAll] at found
        split at found
        · cases found
        · exact found
    refine ⟨keeps.trans keeps', grown''.perm List.perm_middle, ?_⟩
    rw [List.map_cons, List.map_cons, here, others, keeps'.term node (grown'.bound List.mem_cons_self)]

/-- An operator that takes all other items is taken in the form in which it stands. -/
private theorem stands_of_takes {before rest : List Item} {op : Item} {occurrence : Occurrence}
    {fixity : Fixity} (proper : Proper registry (before ++ op :: rest)) (isOperator : op.isOperator = true)
    (named : op.occurrence? = some occurrence)
    (allowed : occurrence.fixityBetween (endsReady before) (beginsReady rest) = some fixity)
    (takes : Takes op fixity before rest [] items []) : occurrence.Stands fixity := by
  obtain ⟨own, stands⟩ := Item.exists_stands proper.settled (by simp) isOperator named
  rcases stands.fixity_eq allowed with rfl | ⟨notReady, between, leads⟩
  · exact stands
  cases takes with
  | binary _ _ _ _ evaluable | trailing _ _ _ evaluable => simp [endsReady, evaluable] at notReady
  | leading =>
    have := (proper.first op (by simp)).2
    simp [isSign, isOperator, named, between, leads] at this

/-- An operator is read as the operation on the terms of its operands. -/
private theorem read_operation {before rest : List Item} {op : Item} {occurrence : Occurrence}
    {fixity : Fixity} (takes : Takes op fixity before rest [] items []) (isOperator : op.isOperator = true)
    (named : op.occurrence? = some occurrence) (stands : occurrence.Stands fixity) {terms : List Term}
    (operands : (before ++ rest).map (token meaning) = terms.map .operand) :
    Item.read meaning items = some (.operation occurrence.operator fixity terms) := by
  have here : op.token meaning = .operator occurrence := token_eq_operator.mpr ⟨isOperator, named⟩
  cases takes with
  | binary _ left right =>
    obtain ⟨x, y, rfl⟩ := List.length_eq_two.mp (by simpa using (congrArg List.length operands).symm)
    simp only [List.nil_append, List.cons_append, List.map_cons, List.map_nil, List.cons.injEq] at operands
    cases stands with
    | binary between notTrailing =>
      have alone := Machine.run_binary_alone between notTrailing x y
      simpa [Item.read, here, operands] using alone
  | leading _ operand =>
    obtain ⟨y, rfl⟩ := List.length_eq_one_iff.mp (by simpa using (congrArg List.length operands).symm)
    simp only [List.nil_append, List.map_cons, List.map_nil, List.cons.injEq] at operands
    cases stands with
    | leading notBinary leads notTrailing =>
      have alone := Machine.run_leading_alone leads notTrailing notBinary y
      simpa [Item.read, here, operands] using alone
  | trailing _ operand =>
    obtain ⟨x, rfl⟩ := List.length_eq_one_iff.mp (by simpa using (congrArg List.length operands).symm)
    simp only [List.nil_append, List.append_nil, List.map_cons, List.map_nil, List.cons.injEq] at operands
    cases stands with
    | trailing _ _ trails =>
      have alone := Machine.run_trailing_alone trails x
      simpa [Item.read, here, operands] using alone

/-- A list becomes the term that is read in it. -/
theorem Linked.term (h : Linked builder items node after) (proper : Proper registry items)
    (grown : Grown builder loose) (means : ∀ list ∈ references items, Means meaning builder list) :
    Keeps builder after ∧ Item.read meaning items = some (after.tree.term node) := by
  cases h with
  | @operand item node after link =>
    obtain ⟨keeps, -, here⟩ := (linkOperand_ok link).term grown fun list mem =>
      means list (List.mem_flatMap.mpr ⟨item, List.mem_singleton_self item, mem⟩)
    refine ⟨keeps, ?_⟩
    rw [Item.read, List.map_singleton, here]
    rfl
  | @operation before rest items operands op occurrence fixity nodes linked span isOperator named _ whole
      allowed takes linking =>
    have members : before ++ op :: rest = items := by simpa using takes.whole_eq
    obtain ⟨keeps, grown', tokens⟩ := linking.term grown fun list mem => means list (by
      rw [← members]
      simpa [whole, lists_of_isOperator isOperator] using mem)
    obtain ⟨keeps', term⟩ := grown'.term_addNode
      (show (Node.alone (.operator occurrence.operator fixity) span (.owned .void)).children = [] from rfl)
    refine ⟨keeps.trans keeps', ?_⟩
    have stands := stands_of_takes (members.symm ▸ proper) isOperator named allowed takes
    have operands : (before ++ rest).map (token meaning) =
        (nodes.map linked.tree.term).map .operand := by
      rw [← whole, tokens, List.map_map]
      rfl
    rw [read_operation takes isOperator named stands operands]
    exact congrArg some term.symm

end Reckoner.Builder
