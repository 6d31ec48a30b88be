import Reckoner.Proofs.Builder.Arrangement
import Reckoner.Proofs.Builder.Wiring
import Reckoner.Proofs.Expression.Checked
import Reckoner.Proofs.Expression.Typing
import Reckoner.Proofs.Lexeme.Classified
import Reckoner.Proofs.Lexeme.Partition
import Reckoner.Proofs.Tree.Legible

/-!
The texts of compiled expressions tell them apart. Their trees consist of variables and constants that are written as
single lexemes, operators with as many operands as their side asks for, and calls of names. So two expressions,
whatever their sources and registries, have the same text just if their trees say the same node by node.
-/
namespace Reckoner

open Lexeme (Munches kindOf)

variable {registry registry' : Registry} {passLimit passLimit' : Nat} {source source' : String}
  {lexemes classified : List Lexeme} {tree : Tree} {expression other : Expression}

/-- A piece that is read as a constant is no part of a symbol. -/
theorem Tree.atom_of_munches {cs text : List Char} (munches : Munches cs text) {value : Value}
    (isValue : kindOf text = .constant value) : Tree.Atom text := by
  cases munches with
  | symbol longest =>
    obtain ⟨op, rfl⟩ := longest.here
    cases (Lexeme.kindOf_symbol op).symm.trans isValue
  | word _ longest => exact Tree.atom_of_word longest.here
  | quoted _ longest => exact .quoted longest.here
  | numeral _ longest =>
    refine .plain longest.here.ne_nil fun c mem => ⟨?_, longest.here.plain c mem⟩
    rintro rfl
    obtain ⟨state, stepped⟩ := longest.here.exists_step _ mem
    cases state <;> exact stepped rfl

namespace Expression

/-- The numbers of the nodes spell out a tree that says this, node by node. -/
def Writes (expression : Expression) (writing : Rose Node.Writing) : Prop :=
  ∃ outline, expression.tree.Spells outline ∧
    (outline.map expression.tree.node).map (Node.writing expression.source) = writing

/-- Every node below the root comes from a lexeme of the source. -/
private theorem exists_becomes (stages : Stages registry passLimit source lexemes classified tree expression)
    {id : NodeId} (notRoot : (expression.tree.node id).kind ≠ .root) :
    ∃ lexeme ∈ classified, lexeme.Becomes (expression.tree.node id) := by
  obtain ⟨type, same⟩ := Tree.node_check stages.checked id
  rw [same] at notRoot ⊢
  obtain ⟨lexeme, mem, becomes⟩ := Tree.exists_becomes_of_build stages.read stages.known stages.built notRoot
  exact ⟨lexeme, mem, becomes.congr rfl rfl rfl⟩

/-- A constant or a variable has the text of its lexeme. -/
private theorem exists_leaf (stages : Stages registry passLimit source lexemes classified tree expression)
    {id : NodeId} (leaf : (expression.tree.node id).kind = .constant ∨
      ∃ name, (expression.tree.node id).kind = .variable name) :
    ∃ text, Tree.Leaf source (expression.tree.node id) text := by
  have notRoot : (expression.tree.node id).kind ≠ .root := by
    rcases leaf with kind | ⟨_, kind⟩ <;> rw [kind] <;> rintro ⟨⟩
  obtain ⟨lexeme, mem, becomes⟩ := exists_becomes stages notRoot
  have place := becomes.span_eq leaf
  cases becomes with
  | constant value isValue kind =>
    have there := Lexeme.mem_of_constant stages.read stages.known mem isValue
    have partition := Lexeme.partition_of_tokenize stages.read
    have known := (Lexeme.kind_of_tokenize stages.read lexeme there).symm.trans isValue
    obtain ⟨before, after, -, -, munches, -⟩ := partition.munched lexeme there
    refine ⟨lexeme.text, .constant kind ?_ (Tree.atom_of_munches munches known) value known⟩
    rw [place]
    exact partition.text lexeme there
  | «variable» cell hasCell kind =>
    obtain ⟨old, there, unresolved, name, text⟩ :=
      Lexeme.exists_name_of_classify stages.read stages.known mem (.inr ⟨cell, hasCell⟩)
    have known := (Lexeme.kind_of_tokenize stages.read old there).symm.trans unresolved
    rw [text] at known
    simp only [Lexeme.isName, text, Bool.and_eq_true] at name
    exact ⟨lexeme.text, .variable kind name.1.1 known⟩
  | call _ kind | operator _ _ _ kind => rcases leaf with other | ⟨_, other⟩ <;> cases kind.symm.trans other

/-- What is called has a name. -/
private theorem word_of_call (stages : Stages registry passLimit source lexemes classified tree expression)
    {id : NodeId} {name : String} (kind : (expression.tree.node id).kind = .call name) :
    Lexeme.Word name.toList := by
  obtain ⟨lexeme, mem, becomes⟩ := exists_becomes stages (by rw [kind]; rintro ⟨⟩)
  cases becomes with
  | call isFunction kind' =>
    obtain ⟨old, -, -, isName, text⟩ :=
      Lexeme.exists_name_of_classify stages.read stages.known mem (.inl isFunction)
    cases kind.symm.trans kind'
    simp only [Lexeme.isName, text, Bool.and_eq_true] at isName
    exact isName.1.1
  | constant _ _ kind' | «variable» _ _ kind' | operator _ _ _ kind' => cases kind.symm.trans kind'

/-- An operator has as many operands as its fixity asks for. -/
private theorem length_operands (stages : Stages registry passLimit source lexemes classified tree expression)
    {id : NodeId} {op : Operator} {fixity : Fixity} (kind : (expression.tree.node id).kind = .operator op fixity) :
    (expression.tree.node id).children.length = fixity.operandCount := by
  obtain ⟨type, same⟩ := Tree.node_check stages.checked id
  rw [same] at kind ⊢
  exact (Builder.wired_of_build stages.built).operands id op fixity kind

/-- Every part of a compiled tree is written legibly. -/
private theorem legible_below (stages : Stages registry passLimit source lexemes classified tree expression)
    {root result : Nat} (formed : expression.tree.Formed registry root result) {id : Nat} (lt : id < root) :
    Tree.Legible source ((expression.tree.below expression.tree.size id).map expression.tree.node) := by
  induction id using Nat.strongRecOn with
  | ind id ih =>
    rw [Tree.map_below_eq _ formed.descending (Nat.lt_trans lt formed.root_lt)]
    have parts : ∀ part ∈ (expression.tree.node id).children.map fun child =>
        (expression.tree.below expression.tree.size child).map expression.tree.node,
        Tree.Legible source part := by
      refine List.forall_mem_map.mpr fun child mem => ?_
      have smaller := formed.descending id child mem
      exact ih child smaller (Nat.lt_trans smaller lt)
    have sound := formed.sound id lt
    unfold Node.Sound at sound
    split at sound
    · exact sound.elim
    · next kind =>
      obtain ⟨text, leaf⟩ := exists_leaf stages (.inl kind)
      rw [sound.1]
      exact .leaf leaf
    · next name kind =>
      obtain ⟨text, leaf⟩ := exists_leaf stages (.inr ⟨name, kind⟩)
      rw [sound.1]
      exact .leaf leaf
    · next op fixity kind =>
      refine .operation (.operator kind sound ?_) parts
      rw [List.length_map]
      exact length_operands stages kind
    · next name kind => exact .operation (.call kind (word_of_call stages kind)) parts

/-- A compiled expression spells out one legible tree. -/
private theorem exists_outline (compiled : compile registry passLimit source = .ok expression) :
    ∃ outline, expression.tree.Spells outline ∧
      Tree.Legible expression.source (outline.map expression.tree.node) := by
  obtain ⟨lexemes, classified, tree, stages⟩ := exists_stages compiled
  obtain ⟨root, result, checked⟩ := (CompiledFor.compile compiled).checked
  have formed := checked.formed
  have inside := Nat.lt_trans formed.result_lt formed.root_lt
  refine ⟨expression.tree.below expression.tree.size result, ⟨?_, ?_, fun id mem => ?_⟩, ?_⟩
  · rw [Tree.label_below]
    exact formed.result?_eq
  · exact Tree.shows_below formed.descending inside
  · exact Nat.lt_of_le_of_lt (Tree.le_of_mem_below formed.descending mem) inside
  · rw [stages.source_eq]
    exact legible_below stages formed formed.result_lt

theorem Writes.unique {writing writing' : Rose Node.Writing} (one : expression.Writes writing)
    (two : expression.Writes writing') : writing = writing' := by
  obtain ⟨outline, spells, rfl⟩ := one
  obtain ⟨outline', spells', rfl⟩ := two
  have top : outline.label = outline'.label := Option.some.inj (spells.top.symm.trans spells'.top)
  rw [spells.shows.unique spells'.shows top]

/-- On every tree the stack writes what the recursion makes of it. A compiled expression says one thing node by node,
its operators with their sides, its calls, variables and the texts of its constants, and two of them have the same
text just if they say the same. -/
theorem sexpr_uniquely_readable (compiled : compile registry passLimit source = .ok expression)
    (compiled' : compile registry' passLimit' source' = .ok other) :
    (∀ (tree : Tree) (outline : Rose NodeId), tree.Spells outline → ∀ source,
      tree.sexpr source = (outline.map tree.node).sexpr source) ∧
    (∃! writing, expression.Writes writing) ∧ (∃! writing, other.Writes writing) ∧
    ∀ writing writing', expression.Writes writing → other.Writes writing' →
      (expression.sexpr = other.sexpr ↔ writing = writing') := by
  obtain ⟨outline, spells, legible⟩ := exists_outline compiled
  obtain ⟨outline', spells', legible'⟩ := exists_outline compiled'
  have writes : expression.Writes _ := ⟨outline, spells, rfl⟩
  have writes' : other.Writes _ := ⟨outline', spells', rfl⟩
  refine ⟨fun tree outline spells source => Tree.sexpr_eq spells source,
    ⟨_, writes, fun _ again => again.unique writes⟩, ⟨_, writes', fun _ again => again.unique writes'⟩,
    fun writing writing' one two => ?_⟩
  rw [one.unique writes, two.unique writes', sexpr, sexpr, Tree.sexpr_eq spells, Tree.sexpr_eq spells']
  refine ⟨fun same => ?_, Tree.sexpr_congr⟩
  have stops : Tree.Stops [] := nofun
  refine (legible.unique legible' stops stops ?_).1
  rw [same]

/-- A text with a parenthesis in it, subtracted with its sign turned, with and without needless parentheses. -/
theorem sexpr_uniquely_readable_sign :
    ∃ expression other,
      compile ⟨.insert .empty "x" (.int 0), .insert .empty "f" ⟨.int, [.string], fun _ => pure (.int 0)⟩⟩ 100
        "x - -f(\"a) b\")" = .ok expression ∧
      compile ⟨.insert .empty "x" (.int 0), .insert .empty "f" ⟨.int, [.string], fun _ => pure (.int 0)⟩⟩ 100
        "(x-(-f(\"a) b\")))" = .ok other ∧
      expression.sexpr = "(- x (- (f \"a) b\")))" ∧ other.sexpr = "(- x (- (f \"a) b\")))" ∧
      ∃ writing, expression.Writes writing ∧ other.Writes writing := by
  have both : ∃ expression other,
      compile ⟨.insert .empty "x" (.int 0), .insert .empty "f" ⟨.int, [.string], fun _ => pure (.int 0)⟩⟩ 100
        "x - -f(\"a) b\")" = .ok expression ∧
      compile ⟨.insert .empty "x" (.int 0), .insert .empty "f" ⟨.int, [.string], fun _ => pure (.int 0)⟩⟩ 100
        "(x-(-f(\"a) b\")))" = .ok other ∧
      expression.sexpr = "(- x (- (f \"a) b\")))" ∧ other.sexpr = "(- x (- (f \"a) b\")))" :=
    ⟨_, _, by cbv, by cbv, by cbv, by cbv⟩
  obtain ⟨expression, other, compiled, compiled', text, text'⟩ := both
  obtain ⟨-, ⟨writing, writes, -⟩, ⟨writing', writes', -⟩, same⟩ := sexpr_uniquely_readable compiled compiled'
  have agree := (same writing writing' writes writes').mp (text.trans text'.symm)
  subst agree
  exact ⟨expression, other, compiled, compiled', text, text', writing, writes, writes'⟩

end Expression

end Reckoner
