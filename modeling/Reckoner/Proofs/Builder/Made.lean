import Reckoner.Proofs.Builder.Complete

/-!
What every tree is like that is built, be its lexemes those of a source or not. All nodes hang below the root, no
other node is a root, and until it is checked each node has the type of what it holds.
-/
namespace Reckoner

/-- A node below the root as it is made. -/
structure Node.Made (node : Node) : Prop where
  kind_ne_root : node.kind ≠ .root
  type_eq : node.type = node.slot.type

namespace Builder

open Item

variable {builder after : Builder} {loose children nodes : List NodeId} {item : Item} {items : List Item}
  {node : NodeId}

private theorem made_addNode {kind : Node.Kind} {span : Span} {slot : Slot} (notRoot : kind ≠ .root)
    (made : ∀ id : Nat, id < builder.tree.size → (builder.tree.node id).Made)
    (small : ∀ child : Nat, child ∈ children → child < builder.tree.size) :
    ∀ id : Nat, id < (builder.addNode (.alone kind span slot) children).2.tree.size →
      ((builder.addNode (.alone kind span slot) children).2.tree.node id).Made :=
  holds_addNode (fun _ _ made => ⟨made.1, made.2⟩) made ⟨notRoot, rfl⟩ small

private theorem LinkedOperand.made (h : builder.LinkedOperand item (node, after)) (grown : Grown builder loose)
    (made : ∀ id : Nat, id < builder.tree.size → (builder.tree.node id).Made) :
    ∀ id : Nat, id < after.tree.size → (after.tree.node id).Made := by
  cases h with
  | constant | cell => exact made_addNode nofun made (by simp)
  | group => exact made
  | call name span position unique found =>
    have released := grown.releaseAll unique found
    refine made_addNode nofun ?_ fun child mem => released.bound (List.mem_append_left _ mem)
    rwa [tree_releaseAll]

private theorem Linking.made (h : Linking builder items nodes after) (grown : Grown builder loose)
    (made : ∀ id : Nat, id < builder.tree.size → (builder.tree.node id).Made) :
    ∀ id : Nat, id < after.tree.size → (after.tree.node id).Made := by
  induction h generalizing loose with
  | nil => exact made
  | cons one _ ih =>
    have link := linkOperand_ok one
    exact ih (link.grown grown) (link.made grown made)

private theorem Linked.made (h : Linked builder items node after) (grown : Grown builder loose)
    (made : ∀ id : Nat, id < builder.tree.size → (builder.tree.node id).Made) :
    ∀ id : Nat, id < after.tree.size → (after.tree.node id).Made := by
  cases h with
  | operand link => exact (linkOperand_ok link).made grown made
  | operation _ _ _ _ _ _ _ linking =>
    have linked := linking.grown grown
    exact made_addNode nofun (linking.made grown made) fun child mem => linked.bound (List.mem_append_left _ mem)

/-- A pass makes no other nodes. -/
private theorem Passed.made {list : Nat} {rest : List ListId} {next : Schedule}
    (h : Passed builder list rest next) (grown : Grown builder [])
    (made : ∀ id : Nat, id < builder.tree.size → (builder.tree.node id).Made) :
    ∀ id : Nat, id < next.builder.tree.size → (next.builder.tree.node id).Made := by
  cases h with
  | divided _ _ same =>
    subst same
    rwa [tree_setItems, tree_append]
  | @linked items _ _ _ link => exact link.made (grown.setItems list items) made

/-- Whatever is built is a tree whose nodes all hang below the root. -/
theorem hung_of_build {source : String} {lexemes : List Lexeme} {limit : Nat} {tree : Tree}
    (h : Tree.build source lexemes limit = .ok tree) :
    ∃ root result, tree.Hung root result ∧ ∀ id : Nat, id < root → (tree.node id).Made := by
  rcases build_cases source lexemes limit with ⟨_, -, failed⟩ | ⟨built, result, ran, -, found, done⟩
  · rw [failed] at h
    cases h
  rw [done] at h
  cases h
  obtain ⟨scheduled, grown, made⟩ := @run_induction
    (fun builder _ => Grown builder [] ∧ ∀ id : Nat, id < builder.tree.size → (builder.tree.node id).Made)
    (fun _ _ _ _ scheduled kept passed => ⟨passed.grown scheduled kept.1, passed.made kept.1 kept.2⟩)
    _ _ _ _ (scheduled_start source lexemes)
    ⟨grown_start source lexemes, fun id lt => absurd lt (Nat.not_lt_zero _)⟩ ran
  have none := List.filterMap_eq_nil_iff.mpr scheduled.released
  have left := grown.release found
  exact ⟨_, result, left.hung none, fun id lt => left.holds_rooted (fun _ _ made => ⟨made.1, made.2⟩) made lt⟩

end Builder

end Reckoner
