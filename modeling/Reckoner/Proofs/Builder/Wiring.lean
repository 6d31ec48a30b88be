import Reckoner.Proofs.Builder.Complete

/-!
How the nodes of a built tree hang together. A node names as its parent exactly the node that names it as
a child, and an operator has as many children as its fixity asks for. Both hold from node to node, because
a node is put below another only once.
-/
namespace Reckoner

/-- Parents and children name each other, and operators have their operands. -/
structure Tree.Wired (tree : Tree) : Prop where
  linked : ∀ parent child : Nat,
    child ∈ (tree.node parent).children ↔ (tree.node child).parent = some parent
  operands : ∀ id op fixity, (tree.node id).kind = .operator op fixity →
    (tree.node id).children.length = fixity.operandCount

/-- An operator takes as many operands as its fixity says. -/
theorem Item.Takes.length_operands {op : Item} {fixity : Fixity} {before after run : List Item}
    (h : Takes op fixity before after [] run []) : (before ++ after).length = fixity.operandCount := by
  cases h <;> rfl

namespace Builder

open Item

variable {builder after : Builder} {loose children nodes : List NodeId} {item : Item}
  {items : List Item} {node : NodeId}

/-- No node of the tree has a loose node as a child. -/
private theorem Grown.not_child (grown : Grown builder loose) {parent child : Nat} (isLoose : child ∈ loose) :
    child ∉ (builder.tree.node parent).children := by
  intro isChild
  have inside : parent < builder.tree.size := by
    by_contra large
    rw [Tree.children_eq_nil_of_size_le (Nat.not_lt.mp large)] at isChild
    cases isChild
  have isChildId : child ∈ builder.tree.childIds := by
    rw [Tree.childIds_eq]
    exact List.mem_flatMap.mpr ⟨parent, List.mem_range.mpr inside, isChild⟩
  have once := grown.conserved.nodup_iff.mpr List.nodup_range
  exact (List.nodup_append.mp once).2.2 child (List.mem_append_left _ isChildId) child isLoose rfl

/-- Putting loose nodes below a new one keeps all links. -/
theorem wired_addNode (wired : builder.tree.Wired) (grown : Grown builder (children ++ loose)) {node : Node}
    (alone : node.children = [] ∧ node.parent = none)
    (operands : ∀ op fixity, node.kind = .operator op fixity → children.length = fixity.operandCount) :
    (builder.addNode node children).2.tree.Wired := by
  have small : ∀ child : Nat, child ∈ children → child < builder.tree.size :=
    fun child mem => grown.bound (List.mem_append_left _ mem)
  constructor
  · intro parent child
    rw [children_addNode alone.1 small, parent_addNode alone.2 small]
    by_cases isLoose : child ∈ children
    · rw [if_pos isLoose]
      by_cases isNew : parent = builder.tree.size
      · simp [isNew, isLoose]
      · rw [if_neg isNew]
        have notChild : child ∉ (builder.tree.node parent).children :=
          grown.not_child (List.mem_append_left _ isLoose)
        simp [notChild, Ne.symm isNew]
    · rw [if_neg isLoose, ← wired.linked parent child]
      split
      · next isNew =>
        subst isNew
        rw [Tree.children_eq_nil_of_size_le (Nat.le_refl _)]
        simpa using isLoose
      · rfl
  · intro id op fixity kind
    rw [children_addNode alone.1 small]
    by_cases inside : id < builder.tree.size + 1
    · rw [node_addNode node small inside] at kind
      split at kind
      · next isNew =>
        rw [if_pos isNew]
        exact operands op fixity kind
      · next isOld =>
        rw [if_neg isOld]
        exact wired.operands id op fixity kind
    · rw [Tree.node_of_size_le (by rw [size_addNode]; exact Nat.not_lt.mp inside)] at kind
      cases kind

private theorem LinkedOperand.wired (h : builder.LinkedOperand item (node, after))
    (grown : Grown builder loose) (wired : builder.tree.Wired) : after.tree.Wired := by
  cases h with
  | constant | cell =>
    have grown : Grown builder ([] ++ loose) := grown
    exact wired_addNode wired grown ⟨rfl, rfl⟩ (by rintro _ _ ⟨⟩)
  | group => exact wired
  | call name span position unique found =>
    refine wired_addNode ?_ (grown.releaseAll unique found) ⟨rfl, rfl⟩ (by rintro _ _ ⟨⟩)
    rwa [tree_releaseAll]

private theorem Linking.wired (h : Linking builder items nodes after) (grown : Grown builder loose)
    (wired : builder.tree.Wired) : after.tree.Wired ∧ nodes.length = items.length := by
  induction h generalizing loose with
  | nil => exact ⟨wired, rfl⟩
  | cons one _ ih =>
    have link := linkOperand_ok one
    obtain ⟨wired, length⟩ := ih (link.grown grown) (link.wired grown wired)
    exact ⟨wired, by rw [List.length_cons, List.length_cons, length]⟩

theorem Linked.wired (h : Linked builder items node after) (grown : Grown builder loose)
    (wired : builder.tree.Wired) : after.tree.Wired := by
  cases h with
  | operand link => exact (linkOperand_ok link).wired grown wired
  | @operation before rest items operands op occurrence fixity nodes linked span _ _ _ whole _ takes linking =>
    obtain ⟨wired, length⟩ := linking.wired grown wired
    refine wired_addNode wired (linking.grown grown) ⟨rfl, rfl⟩ ?_
    rintro _ _ ⟨⟩
    rw [length, whole, takes.length_operands]

variable {list : Nat} {rest : List ListId} {next : Schedule}

/-- A pass keeps all links. -/
theorem Passed.wired (h : Passed builder list rest next) (grown : Grown builder [])
    (wired : builder.tree.Wired) : next.builder.tree.Wired := by
  cases h with
  | divided _ _ made =>
    rw [made, tree_setItems, tree_append]
    exact wired
  | @linked items _ _ _ link => exact link.wired (grown.setItems list items) wired

theorem wired_start (source : String) (lexemes : List Lexeme) : (start source lexemes).tree.Wired := by
  constructor
  · intro parent child
    rw [Tree.node_of_size_le (Nat.zero_le _), Tree.node_of_size_le (Nat.zero_le _)]
    constructor <;> rintro ⟨⟩
  · intro id op fixity kind
    rw [Tree.node_of_size_le (Nat.zero_le _)] at kind
    cases kind

/-- Every tree that is built is wired. -/
theorem wired_of_build {source : String} {lexemes : List Lexeme} {limit : Nat} {tree : Tree}
    (h : Tree.build source lexemes limit = .ok tree) : tree.Wired := by
  rcases build_cases source lexemes limit with ⟨error, -, failed⟩ | ⟨built, result, ran, -, found, done⟩
  · rw [failed] at h
    cases h
  · rw [done] at h
    cases h
    obtain ⟨-, grown, wired⟩ := @run_induction
      (fun builder _ => Grown builder [] ∧ builder.tree.Wired)
      (fun _ _ _ _ scheduled kept passed => ⟨passed.grown scheduled kept.1, passed.wired kept.1 kept.2⟩)
      _ _ _ _ (scheduled_start source lexemes) ⟨grown_start source lexemes, wired_start source lexemes⟩ ran
    let root : Node := .alone .root ((built.release 0).tree.node result).span (.owned .void)
    have wired : ((built.release 0).addNode root [result]).2.tree.Wired :=
      @wired_addNode (built.release 0) [] [result] wired (grown.release found) root ⟨rfl, rfl⟩
        (by rintro _ _ ⟨⟩)
    exact ⟨wired.linked, wired.operands⟩

end Builder

end Reckoner
