import Reckoner.Proofs.Builder.Nodes
import Reckoner.Proofs.Strict.Computation

/-!
Lists and nodes with every index looked at. Whoever names a list finds it among those there are, and what is
put below a node is in the tree before it.
-/
namespace Reckoner

namespace Strict

open Builder

/-- The members of a list. -/
def itemsOf (builder : Builder) (list : ListId) : Strict CompileError (List Item) :=
  (·.items) <$> need builder.lists[list]?

/-- The place of a list. -/
def spanOf (builder : Builder) (list : ListId) : Strict CompileError Span :=
  (·.span) <$> need builder.lists[list]?

/-- Puts other members into a list. -/
def setItems (builder : Builder) (list : Nat) (items : List Item) : Strict CompileError Builder := do
  within (list < builder.lists.size)
  return builder.setItems list items

/-- Records that a list has become a node. -/
def finish (builder : Builder) (list : Nat) (node : NodeId) : Strict CompileError Builder := do
  within (list < builder.lists.size)
  return builder.finish list node

/-- Whether the lists that the items need are finished. -/
def areReady (builder : Builder) (items : List Item) : Strict CompileError Bool := do
  within (∀ list ∈ Item.references items, (list : Nat) < builder.lists.size)
  return items.all builder.isReady

/-- Takes the node that a list has become. -/
def takeNode (builder : Builder) (list : Nat) (span : Span) :
    Strict CompileError (NodeId × Builder) := do
  within (list < builder.lists.size)
  lift (builder.takeNode list span)

/-- Takes the nodes that several lists have become. -/
def takeNodes (builder : Builder) (span : Span) :
    List ListId → Strict CompileError (List NodeId × Builder)
  | [] => return ([], builder)
  | list :: rest => do
    let (node, builder) ← takeNode builder list span
    let (nodes, builder) ← takeNodes builder span rest
    return (node :: nodes, builder)

/-- Makes a node the last child of another. -/
def attach (tree : Tree) (parent child : Nat) : Strict CompileError Tree := do
  within (child < tree.size)
  within (parent < tree.size)
  return tree.attach parent child

/-- Adds a node above others. -/
def addNode (builder : Builder) (node : Node) (children : List NodeId) :
    Strict CompileError (NodeId × Builder) := do
  let id := builder.tree.size
  let tree ← children.foldlM (fun tree child => attach tree id child) (builder.tree.push node)
  return (id, { builder with tree := tree })

/-- The node of an operand. -/
def linkOperand (builder : Builder) : Item → Strict CompileError (NodeId × Builder)
  | .lexeme lexeme =>
    match lexeme.kind with
    | .constant value => addNode builder (.alone .constant lexeme.span (.owned value)) []
    | .variable cell => addNode builder (.alone (.variable lexeme.text) lexeme.span (.aliased cell)) []
    | _ => throw (Item.lexeme lexeme).unexpected
  | .group list _ span _ => takeNode builder list span
  | .call name arguments span _ => do
    let (children, builder) ← takeNodes builder span arguments
    addNode builder (.alone (.call name) span (.owned .void)) children

/-- The nodes of the items that are no operators. -/
def linkOperands (builder : Builder) : List Item → Strict CompileError (List NodeId × Builder)
  | [] => return ([], builder)
  | item :: rest =>
    if item.isOperator then linkOperands builder rest
    else do
      let (node, builder) ← linkOperand builder item
      let (nodes, builder) ← linkOperands builder rest
      return (node :: nodes, builder)

/-- The node of an operator and the operands beside it. -/
def linkOperator (builder : Builder) (items : List Item) (op : Operator) (fixity : Fixity) :
    Strict CompileError (NodeId × Builder) := do
  let (children, builder) ← linkOperands builder items
  addNode builder (.alone (.operator op fixity) (coverOf items) (.owned .void)) children

variable {builder after : Builder} {loose children : List NodeId} {item : Item} {items : List Item}

section Lists

variable {list : Nat} (there : list < builder.lists.size)
include there

theorem itemsOf_eq : itemsOf builder list = pure (builder.itemsOf list) := by
  simp [itemsOf, Builder.itemsOf, there]

theorem spanOf_eq : spanOf builder list = pure (builder.spanOf list) := by
  simp [spanOf, Builder.spanOf, there]

theorem setItems_eq (items : List Item) : setItems builder list items = pure (builder.setItems list items) := by
  rw [setItems, within_eq there, pure_bind]

theorem finish_eq (node : NodeId) : finish builder list node = pure (builder.finish list node) := by
  rw [finish, within_eq there, pure_bind]

theorem takeNode_eq (span : Span) : takeNode builder list span = lift (builder.takeNode list span) := by
  rw [takeNode, within_eq there, pure_bind]

end Lists

theorem areReady_eq (there : ∀ list ∈ Item.references items, (list : Nat) < builder.lists.size) :
    areReady builder items = pure (items.all builder.isReady) := by
  rw [areReady, within_eq there, pure_bind]

theorem takeNodes_eq (span : Span) {lists : List ListId}
    (there : ∀ list ∈ lists, (list : Nat) < builder.lists.size) :
    takeNodes builder span lists = lift (builder.takeNodes span lists) := by
  induction lists generalizing builder with
  | nil => rfl
  | cons list rest ih =>
    rw [takeNodes, takeNode_eq (there list List.mem_cons_self), Builder.takeNodes]
    refine lift_bind fun reply taken => ?_
    obtain ⟨node, between⟩ := reply
    have same : between.lists.size = builder.lists.size := by
      simp only [Builder.takeNode] at taken
      split at taken <;> cases taken
      simp
    simp only
    rw [ih fun other mem => same ▸ there other (List.mem_cons_of_mem _ mem)]
    exact lift_bind fun _ _ => rfl

/-- A new node can be put above nodes that there are. -/
theorem addNode_eq (node : Node) (small : ∀ child : Nat, child ∈ children → child < builder.tree.size) :
    addNode builder node children = pure (builder.addNode node children) := by
  suffices attached : ∀ tree : Tree, builder.tree.size < tree.size →
      children.foldlM (fun tree child => attach tree builder.tree.size child) tree =
        (pure (children.foldl (fun tree child => tree.attach builder.tree.size child) tree) :
          Strict CompileError Tree) by
    rw [addNode, attached _ (by rw [Tree.size_push]; exact Nat.lt_succ_self _), pure_bind]
    rfl
  intro tree larger
  induction children generalizing tree with
  | nil => rfl
  | cons child rest ih =>
    have inside : child < tree.size := Nat.lt_trans (small child List.mem_cons_self) larger
    rw [List.foldlM_cons, attach, within_eq inside, pure_bind, within_eq larger, pure_bind, pure_bind]
    refine ih (fun other mem => small other (List.mem_cons_of_mem _ mem)) _ ?_
    rwa [Tree.size_attach]

theorem linkOperand_eq (grown : Grown builder loose)
    (there : ∀ list ∈ item.lists, (list : Nat) < builder.lists.size) :
    linkOperand builder item = lift (builder.linkOperand item) := by
  cases item with
  | lexeme lexeme =>
    simp only [linkOperand, Builder.linkOperand]
    cases lexeme.kind with
    | constant value => exact addNode_eq _ (by simp)
    | «variable» cell => exact addNode_eq _ (by simp)
    | unresolved | operator | function => rfl
  | group list text span position => exact takeNode_eq (there list List.mem_cons_self) span
  | call name arguments span position =>
    simp only [linkOperand, Builder.linkOperand]
    rw [takeNodes_eq span (show ∀ list ∈ arguments, (list : Nat) < builder.lists.size from there)]
    refine lift_bind fun reply taken => ?_
    obtain ⟨children, released⟩ := reply
    obtain ⟨unique, read, rfl⟩ := takeNodes_ok builder taken
    refine addNode_eq _ fun child mem => ?_
    exact (grown.releaseAll unique read).bound (List.mem_append_left _ mem)

theorem linkOperands_eq (grown : Grown builder loose)
    (there : ∀ list ∈ Item.references items, (list : Nat) < builder.lists.size) :
    linkOperands builder items = lift (builder.linkOperands items) := by
  induction items generalizing builder loose with
  | nil => rfl
  | cons item rest ih =>
    rw [Item.references_cons] at there
    rw [linkOperands, Builder.linkOperands]
    split
    · exact ih grown fun list mem => there list (List.mem_append_right _ mem)
    · rw [linkOperand_eq grown fun list mem => there list (List.mem_append_left _ mem)]
      refine lift_bind fun reply linked => ?_
      obtain ⟨node, between⟩ := reply
      have link := linkOperand_ok linked
      simp only
      rw [ih (link.grown grown) fun list mem => link.size_eq ▸ there list (List.mem_append_right _ mem)]
      exact lift_bind fun _ _ => rfl

/-- Linking an operator finds the lists that its operands need and the nodes that they become. -/
theorem linkOperator_eq (grown : Grown builder loose)
    (there : ∀ list ∈ Item.references items, (list : Nat) < builder.lists.size) (op : Operator)
    (fixity : Fixity) : linkOperator builder items op fixity = lift (builder.linkOperator items op fixity) := by
  rw [linkOperator, linkOperands_eq grown there, Builder.linkOperator]
  refine lift_bind fun reply isLinked => ?_
  obtain ⟨children, linked⟩ := reply
  refine addNode_eq _ fun child mem => ?_
  exact ((linkOperands_ok isLinked).grown grown).bound (List.mem_append_left _ mem)

/-- Linking adds no list. -/
theorem size_of_linkOperator {op : Operator} {fixity : Fixity} {node : NodeId}
    (h : builder.linkOperator items op fixity = .ok (node, after)) :
    after.lists.size = builder.lists.size := by
  obtain ⟨⟨children, between⟩, linked, h⟩ := bind_eq_ok.mp h
  cases h
  change between.lists.size = builder.lists.size
  rw [(linkOperands_ok linked).lists_eq, size_releaseAll]

end Strict

end Reckoner
