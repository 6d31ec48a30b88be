import Reckoner.Proofs.Builder.Division

/-!
How operands become nodes. An operand takes the nodes of the lists it needs, which are then taken for
good, and adds at most one node above them. Linking succeeds when those lists are finished and none of
them is needed twice.
-/
namespace Reckoner.Builder

open Item

/-- The node that an operand becomes, and the builder afterwards. -/
inductive LinkedOperand (builder : Builder) : Item → NodeId × Builder → Prop where
  | constant {lexeme : Lexeme} {value : Value} : lexeme.kind = .constant value →
      LinkedOperand builder (.lexeme lexeme)
        (builder.addNode (.alone .constant lexeme.span (.owned value)) [])
  | cell {lexeme : Lexeme} {cell : Cell} : lexeme.kind = .variable cell →
      LinkedOperand builder (.lexeme lexeme)
        (builder.addNode (.alone (.variable lexeme.text) lexeme.span (.aliased cell)) [])
  | group {list : ListId} {node : NodeId} (text : String) (span : Span) (position : Nat) :
      builder.nodeOf list = some node →
      LinkedOperand builder (.group list text span position) (node, builder.release list)
  | call {arguments : List ListId} {nodes : List NodeId} (name : String) (span : Span)
      (position : Nat) : arguments.Nodup → arguments.map builder.nodeOf = nodes.map some →
      LinkedOperand builder (.call name arguments span position)
        ((builder.releaseAll arguments).addNode (.alone (.call name) span (.owned .void)) nodes)

variable {builder after : Builder} {item : Item} {items : List Item} {node : NodeId}
  {nodes : List NodeId}

theorem linkOperand_ok (h : builder.linkOperand item = .ok (node, after)) :
    builder.LinkedOperand item (node, after) := by
  cases item with
  | lexeme lexeme =>
    simp only [linkOperand] at h
    split at h
    · next value isConstant =>
      cases h
      exact .constant isConstant
    · next cell isVariable =>
      cases h
      exact .cell isVariable
    · cases h
  | group list text span position =>
    obtain ⟨found, rfl⟩ := (takeNode_eq_ok builder).mp h
    exact .group text span position found
  | call name arguments span position =>
    obtain ⟨⟨nodes, released⟩, taken, h⟩ := bind_eq_ok.mp h
    obtain ⟨unique, read, rfl⟩ := takeNodes_ok builder taken
    cases h
    exact .call name span position unique read

/-- An operand whose lists are finished, each needed once, becomes a node. -/
theorem linkOperand_total (evaluable : item.isEvaluable = true) (unique : item.lists.Nodup)
    (ready : ∀ list ∈ item.lists, (builder.nodeOf list).isSome) :
    ∃ reply, builder.linkOperand item = .ok reply := by
  cases item with
  | lexeme lexeme =>
    simp only [isEvaluable, Lexeme.isEvaluable] at evaluable
    simp only [linkOperand]
    split
    · exact ⟨_, rfl⟩
    · exact ⟨_, rfl⟩
    · next notConstant notVariable =>
      split at evaluable
      · next value isConstant => exact absurd isConstant (notConstant value)
      · next cell isVariable => exact absurd isVariable (notVariable cell)
      · cases evaluable
  | group list text span position =>
    obtain ⟨node, found⟩ := Option.isSome_iff_exists.mp (ready list (by simp))
    exact ⟨_, (takeNode_eq_ok builder).mpr ⟨found, rfl⟩⟩
  | call name arguments span position =>
    obtain ⟨nodes, taken⟩ := @takeNodes_total builder span arguments unique ready
    exact ⟨_, bind_eq_ok.mpr ⟨_, taken, rfl⟩⟩

theorem nodeOf_congr {first second : Builder} (same : first.lists = second.lists) :
    first.nodeOf = second.nodeOf := by
  funext list
  simp [nodeOf, same]

theorem itemsOf_congr {first second : Builder} (same : first.lists = second.lists) :
    first.itemsOf = second.itemsOf := by
  funext list
  simp [itemsOf, same]

private theorem lists_releaseAll_congr {first second : Builder} (same : first.lists = second.lists)
    (lists : List ListId) : (first.releaseAll lists).lists = (second.releaseAll lists).lists := by
  induction lists generalizing first second with
  | nil => exact same
  | cons list rest ih => exact ih (by simp [release, same])

private theorem releaseAll_append (builder : Builder) (first second : List ListId) :
    builder.releaseAll (first ++ second) = (builder.releaseAll first).releaseAll second :=
  List.foldl_append

theorem LinkedOperand.lists_eq (h : builder.LinkedOperand item (node, after)) :
    after.lists = (builder.releaseAll item.lists).lists := by
  cases h <;> rfl

theorem LinkedOperand.size_eq (h : builder.LinkedOperand item (node, after)) :
    after.lists.size = builder.lists.size := by
  rw [h.lists_eq, size_releaseAll]

private theorem LinkedOperand.ready (h : builder.LinkedOperand item (node, after)) :
    item.lists.Nodup ∧ ∀ list ∈ item.lists, (builder.nodeOf list).isSome := by
  cases h with
  | constant | cell => exact ⟨by simp, by simp⟩
  | group text span position found => exact ⟨by simp, by simp [found]⟩
  | @call arguments nodes name span position unique read =>
    refine ⟨unique, fun list mem => ?_⟩
    have : builder.nodeOf list ∈ nodes.map some := read ▸ List.mem_map_of_mem mem
    obtain ⟨node, -, found⟩ := List.mem_map.mp this
    simp [← found]

/-- Linking operands takes the nodes of the lists they need and changes no other list. -/
theorem Linking.lists_eq (h : Linking builder items nodes after) :
    after.lists = (builder.releaseAll (references items)).lists := by
  induction h with
  | nil => rfl
  | cons one _ ih =>
    rw [ih, references_cons, releaseAll_append]
    exact lists_releaseAll_congr (linkOperand_ok one).lists_eq _

/-- Operands can be linked only if their lists are finished and none is needed twice. -/
theorem Linking.ready (h : Linking builder items nodes after) :
    (references items).Nodup ∧ ∀ list ∈ references items, (builder.nodeOf list).isSome := by
  induction h with
  | nil => exact ⟨List.nodup_nil, by simp⟩
  | @cons builder between _ item rest _ _ one _ ih =>
    obtain ⟨unique, ready⟩ := (linkOperand_ok one).ready
    have nodes : ∀ list, between.nodeOf list =
        if list ∈ item.lists then none else builder.nodeOf list := by
      intro list
      rw [nodeOf_congr (linkOperand_ok one).lists_eq, nodeOf_releaseAll]
    refine ⟨?_, fun list mem => ?_⟩
    · rw [references_cons]
      refine List.nodup_append.mpr ⟨unique, ih.1, fun list mem other inRest same => ?_⟩
      have := ih.2 other inRest
      rw [nodes, if_pos (same ▸ mem)] at this
      simp at this
    · rcases List.mem_append.mp mem with mem | mem
      · exact ready list mem
      · have := ih.2 list mem
        rw [nodes] at this
        split at this
        · simp at this
        · exact this

/-- Linking a list takes the nodes of the lists that its members need and changes no other list. -/
theorem Linked.lists_eq (h : Linked builder items node after) :
    after.lists = (builder.releaseAll (references items)).lists := by
  cases h with
  | operand link =>
    rw [(linkOperand_ok link).lists_eq]
    simp
  | @operation before rest items operands op occurrence fixity nodes linked span isOp _ _ whole _ takes
      linking =>
    have same : references items = references operands := by
      have := takes.whole_eq
      simp only [List.nil_append, List.append_nil] at this
      rw [← this, whole]
      simp [lists_of_isOperator isOp]
    rw [same, ← linking.lists_eq]
    rfl

theorem Linked.size_eq (h : Linked builder items node after) : after.lists.size = builder.lists.size := by
  rw [h.lists_eq, size_releaseAll]

/-- A list can be linked only if the lists that its members need are finished. -/
theorem Linked.ready (h : Linked builder items node after) :
    (references items).Nodup ∧ ∀ list ∈ references items, (builder.nodeOf list).isSome := by
  cases h with
  | operand link => simpa using (linkOperand_ok link).ready
  | @operation before rest items operands op occurrence fixity nodes linked span isOp _ _ whole _ takes
      linking =>
    have same : references items = references operands := by
      have := takes.whole_eq
      simp only [List.nil_append, List.append_nil] at this
      rw [← this, whole]
      simp [lists_of_isOperator isOp]
    rw [same]
    exact linking.ready

end Reckoner.Builder
