import Mathlib.Data.List.Perm.Subperm
import Reckoner.Proofs.Tree.Outline
import Reckoner.Tree.Sexpr

/-!
The text of a tree as a recursion. What is written with a stack of pieces and a bound on the depth is, on every tree
that the numbers of the nodes spell out, the text that each node makes of those of its children. The bound is never
met, because no node is below itself.
-/
namespace Reckoner

mutual

/-- A leaf as it stands in the source, or what the operation is called and its operands between parentheses. -/
def Rose.sexpr (source : String) : Rose Node → String
  | .node top parts =>
    match Tree.leafText? source top with
    | some text => text
    | none => "(" ++ Tree.headText top ++ Rose.sexprAll source parts ++ ")"

/-- The texts of several trees, each after a space. -/
def Rose.sexprAll (source : String) : List (Rose Node) → String
  | [] => ""
  | part :: parts => " " ++ Rose.sexpr source part ++ Rose.sexprAll source parts

end

namespace Tree

/-- The numbers of the nodes, from that of the whole expression on, spell out this finite outline. -/
structure Spells (tree : Tree) (outline : Rose NodeId) : Prop where
  top : tree.result? = some outline.label
  shows : tree.Shows outline
  inside : ∀ id ∈ outline.postorder, id < tree.size

variable {tree : Tree} {source written : String} {outline other : Rose NodeId} {parts : List (Rose NodeId)}
  {above : List NodeId} {rest : List Piece} {depth : Nat}

/-- What hangs below a node is determined by its number. -/
theorem Shows.unique (one : tree.Shows outline) (two : tree.Shows other) (same : outline.label = other.label) :
    outline = other := by
  induction one generalizing other with
  | node id parts children _ ih =>
    cases two with
    | node id' parts' children' below' =>
      obtain rfl : id = id' := same
      have labels : parts.map Rose.label = parts'.map Rose.label := children.symm.trans children'
      have length : parts.length = parts'.length := by simpa using congrArg List.length labels
      rw [Rose.node.injEq, and_iff_right rfl]
      refine List.ext_getElem length fun i lt lt' => ?_
      refine ih _ (List.getElem_mem lt) (below' _ (List.getElem_mem lt')) ?_
      have at_i := List.getElem_of_eq labels (by simpa using lt)
      simpa only [List.getElem_map] using at_i

/-- On the way down to the outline one passes these nodes, each with more below it than the next. -/
structure Above (tree : Tree) (outline : Rose NodeId) (above : List NodeId) : Prop where
  nodup : above.Nodup
  inside : ∀ id ∈ above, id < tree.size
  larger : ∀ id ∈ above, ∃ larger, tree.Shows larger ∧ larger.label = id ∧
    outline.postorder.length < larger.postorder.length

/-- The node to which one came was not passed before. -/
theorem Above.fresh (h : tree.Above outline above) (shows : tree.Shows outline) : outline.label ∉ above := by
  intro passed
  obtain ⟨larger, showsLarger, label, lt⟩ := h.larger outline.label passed
  rw [← showsLarger.unique shows label] at lt
  exact Nat.lt_irrefl _ lt

/-- Fewer nodes were passed than there are. -/
theorem Above.length_lt (h : tree.Above outline above) (shows : tree.Shows outline)
    (inside : outline.label < tree.size) : above.length < tree.size := by
  have nodup : (outline.label :: above).Nodup := List.nodup_cons.mpr ⟨h.fresh shows, h.nodup⟩
  have subset : outline.label :: above ⊆ List.range tree.size := by
    exact List.cons_subset.mpr ⟨List.mem_range.mpr inside, fun id mem => List.mem_range.mpr (h.inside id mem)⟩
  have bound := (nodup.subperm subset).length_le
  rwa [List.length_range] at bound

/-- Going one step further down passes the node above. -/
theorem Above.down {id : NodeId} (h : tree.Above (.node id parts) above) (shows : tree.Shows (.node id parts))
    (inside : id < tree.size) {part : Rose NodeId} (mem : part ∈ parts) : tree.Above part (id :: above) := by
  have smaller : part.postorder.length < (Rose.node id parts).postorder.length := by
    have among : part.postorder.Sublist (parts.flatMap Rose.postorder) := by
      rw [List.flatMap_def]
      exact List.sublist_flatten_of_mem (List.mem_map_of_mem mem)
    rw [Rose.postorder_node, List.length_append, List.length_singleton]
    exact Nat.lt_succ_of_le among.length_le
  refine ⟨List.nodup_cons.mpr ⟨h.fresh shows, h.nodup⟩, List.forall_mem_cons.mpr ⟨inside, h.inside⟩, ?_⟩
  refine List.forall_mem_cons.mpr ⟨⟨_, shows, rfl, smaller⟩, fun other passed => ?_⟩
  obtain ⟨larger, showsLarger, label, lt⟩ := h.larger other passed
  exact ⟨larger, showsLarger, label, Nat.lt_trans smaller lt⟩

/-- The pieces of the operands are written one after the other, if each operand is written in this way. -/
private theorem write_operandPieces (each : ∀ part ∈ parts, ∀ written rest,
      tree.write source written (.node depth part.label :: rest) =
        tree.write source (written ++ (part.map tree.node).sexpr source) rest)
    (written : String) (rest : List Piece) :
    tree.write source written (operandPieces depth (parts.map Rose.label) ++ rest) =
      tree.write source (written ++ Rose.sexprAll source (parts.map (Rose.map tree.node))) rest := by
  induction parts generalizing written with
  | nil => rw [List.map_nil, List.map_nil, Rose.sexprAll, String.append_empty]; rfl
  | cons part parts ih =>
    have pieces : operandPieces depth ((part :: parts).map Rose.label) =
        .mark " " :: .node depth part.label :: operandPieces depth (parts.map Rose.label) := rfl
    rw [pieces, List.cons_append, List.cons_append, write, each part List.mem_cons_self,
      ih fun other mem => each other (List.mem_cons_of_mem _ mem), List.map_cons, Rose.sexprAll]
    simp only [String.append_assoc]

/-- A node is written as the recursion has it, if the bound allows for all nodes that were not passed so far. -/
theorem write_outline (shows : tree.Shows outline) (inside : ∀ id ∈ outline.postorder, id < tree.size)
    (h : tree.Above outline above) (enough : tree.size ≤ depth + above.length) (written : String)
    (rest : List Piece) :
    tree.write source written (.node depth outline.label :: rest) =
      tree.write source (written ++ (outline.map tree.node).sexpr source) rest := by
  induction shows generalizing above depth written rest with
  | node id parts children below ih =>
    have here := inside id (by simp)
    -- The node itself was not passed before, so the bound still allows for it.
    have room := h.length_lt (.node id parts children below) here
    cases depth with
    | zero => omega
    | succ depth =>
      rw [Rose.label, write, Rose.map_node, Rose.sexpr]
      cases leafText? source (tree.node id) with
      | some text => rfl
      | none =>
        have operands := @write_operandPieces tree source parts depth fun part mem written rest => by
          refine ih part mem (fun id isPart => inside id ?_) (h.down (.node id parts children below) here mem) ?_ ..
          · rw [Rose.postorder_node]
            exact List.mem_append_left _ (List.mem_flatMap.mpr ⟨part, mem, isPart⟩)
          · rw [List.length_cons]
            omega
        simp only [children]
        rw [operands, write]
        simp only [String.append_assoc]

/-- The stack writes what the recursion makes of the tree. -/
theorem sexpr_eq (spells : tree.Spells outline) (source : String) :
    tree.sexpr source = (outline.map tree.node).sexpr source := by
  have start : tree.Above outline [] := ⟨List.nodup_nil, nofun, nofun⟩
  have enough : tree.size ≤ tree.size + ([] : List NodeId).length := Nat.le_refl _
  simp only [sexpr, spells.top]
  rw [write_outline spells.shows spells.inside start enough, write, String.empty_append]

end Tree

end Reckoner
