import Reckoner.Proofs.Builder.Arrangement
import Reckoner.Proofs.Builder.Located
import Reckoner.Proofs.Expression.Checked

/-!
Where the nodes of a compiled expression lie in its source. Every node covers something, its children lie in it one
after the other, the nodes of constants and variables cover their lexemes, and a call reaches from the name of its
function to its closing parenthesis.
-/
namespace Reckoner

variable {source : String} {lexemes : List Lexeme} {span : Span}

/-- The text of a call begins with the name of its function and ends with a parenthesis. -/
theorem Lexeme.CallAt.text {name : String} (isCall : CallAt lexemes name span) (laid : Laid source lexemes) :
    ∃ middle, span.text? source = some (name ++ middle ++ ")") := by
  cases isCall with
  | @intro front function opening closing inner back isFunction opens closes =>
    have row := laid.row
    rw [List.map_append, List.map_cons, List.map_cons, List.map_append, List.map_cons, ← List.cons_append] at row
    obtain ⟨_, -, -, -, row⟩ := Span.Row.append_iff.mp row
    obtain ⟨_, between, behind, -⟩ := Span.Row.append_iff.mp row
    have isClosing := laid.text closing (by simp)
    rw [laid.closing (by simp) closes] at isClosing
    exact Span.text?_bridge (laid.text function (by simp)) isClosing (Nat.le_trans between.le behind)

namespace Tree

/-- Where a node lies in the source. -/
structure Nests (tree : Tree) (source : String) (lexemes : List Lexeme) (id : Nat) : Prop where
  nonempty : (tree.node id).span.start < (tree.node id).span.stop
  /-- It lies in the source and ends between characters. -/
  readable : ∃ text, (tree.node id).span.text? source = some text
  inside : ∀ child ∈ (tree.node id).children, (tree.node child).span.Inside (tree.node id).span
  apart : (tree.node id).children.Pairwise fun first second =>
    (tree.node first).span.stop ≤ (tree.node second).span.start
  /-- A constant or a variable covers its lexeme. -/
  leaf : ((tree.node id).kind = .constant ∨ ∃ name, (tree.node id).kind = .variable name) →
    ∃ lexeme ∈ lexemes, lexeme.Becomes (tree.node id) ∧ (tree.node id).span = lexeme.span ∧
      (tree.node id).span.text? source = some lexeme.text
  /-- A call reaches from the name of its function to its closing parenthesis. -/
  call : ∀ name, (tree.node id).kind = .call name →
    Lexeme.CallAt lexemes name (tree.node id).span ∧
      ∃ middle, (tree.node id).span.text? source = some (name ++ middle ++ ")")

variable {tree : Tree} {id : Nat}

theorem Encloses.nests (h : tree.Encloses source lexemes id) (laid : Lexeme.Laid source lexemes)
    (becomes : (tree.node id).kind ≠ .root → ∃ lexeme ∈ lexemes, lexeme.Becomes (tree.node id)) :
    tree.Nests source lexemes id where
  nonempty := h.nonempty
  readable := Span.fits_iff.mp h.fits
  inside child mem := by
    obtain ⟨starts, -, stops⟩ := h.children.inside _ (List.mem_map_of_mem mem)
    exact ⟨starts, stops⟩
  apart := List.pairwise_map.mp h.children.apart
  leaf isLeaf := by
    obtain ⟨lexeme, mem, becomes⟩ := becomes (by rcases isLeaf with kind | ⟨_, kind⟩ <;> simp [kind])
    have same := becomes.span_eq isLeaf
    exact ⟨lexeme, mem, becomes, same, by rw [same]; exact laid.text lexeme mem⟩
  call name isCall := ⟨h.call name isCall, (h.call name isCall).text laid⟩

end Tree

namespace Expression

open Builder

/-- Every node of a compiled expression covers something in the source, its children lie in it one after the other,
a constant or a variable covers its lexeme and a call reaches from its name to its closing parenthesis. The place of
every list that the builder makes can be read back, and an item that stands for a list has the text of that place. -/
theorem spans_nest {registry : Registry} {passLimit : Nat} {expression : Expression}
    (compiled : compile registry passLimit source = .ok expression) :
    ∃ lexemes classified, Lexeme.tokenize source = .ok lexemes ∧
      Lexeme.classify registry lexemes = .ok classified ∧
      (∀ id : Nat, id < expression.tree.size → expression.tree.Nests source classified id) ∧
      ∀ reached ∈ Schedule.trail passLimit ⟨Builder.start source classified, [0], 0⟩, ∀ list,
        (∃ text, (reached.builder.spanOf list).text? source = some text) ∧
          ∀ other text span position, .group other text span position ∈ reached.builder.itemsOf list →
            span = reached.builder.spanOf other ∧ span.text? source = some text := by
  obtain ⟨lexemes, classified, tree, stages⟩ := exists_stages compiled
  have laid := (Lexeme.classify_yields registry (Lexeme.laid_of_tokenize stages.read)).of_ok stages.known
  refine ⟨lexemes, classified, stages.read, stages.known, fun id lt => ?_, fun reached mem list => ?_⟩
  · have nested := (Tree.build_yields laid passLimit).of_ok stages.built
    have same := Tree.node_check stages.checked
    have encloses : expression.tree.Encloses source classified id := by
      obtain ⟨type, here⟩ := same id
      refine (nested id ((Tree.size_check stages.checked).1 ▸ lt)).congr (by rw [here]) (by rw [here])
        fun node _ => ?_
      obtain ⟨type, here⟩ := same node
      rw [here]
    refine encloses.nests laid fun notRoot => ?_
    obtain ⟨type, here⟩ := same id
    rw [here] at notRoot ⊢
    obtain ⟨lexeme, mem, becomes⟩ := Tree.exists_becomes_of_build stages.read stages.known stages.built notRoot
    exact ⟨lexeme, mem, becomes.congr rfl rfl rfl⟩
  · have placed := (Schedule.placed_of_trail passLimit (placed_start laid) reached mem).lists list
    refine ⟨Span.fits_iff.mp placed.fits, fun other text span position isGroup => ?_⟩
    cases placed.placed _ isGroup with
    | group _ _ read => exact ⟨rfl, read⟩

/-- The call reaches from its name to its last parenthesis, and its arguments are the sum and the constant. -/
theorem spans_nest_call :
    ∃ expression, compile
        ⟨.insert .empty "x" (.int 0), .insert .empty "f" ⟨.int, [.int, .int], fun _ => pure (.int 0)⟩⟩ 10
        "f((x + 1), 23)" = .ok expression ∧
      (expression.tree.node 4).kind = .call "f" ∧ (expression.tree.node 4).span = ⟨0, 14⟩ ∧
      (expression.tree.node 4).children = [2, 3] ∧
      (expression.tree.node 2).span = ⟨3, 8⟩ ∧ (expression.tree.node 3).span = ⟨11, 13⟩ ∧
      ∃ lexemes classified, Lexeme.tokenize "f((x + 1), 23)" = .ok lexemes ∧
        expression.tree.Nests "f((x + 1), 23)" classified 4 ∧
          expression.tree.Nests "f((x + 1), 23)" classified 2 := by
  have compiled : ∃ expression, compile
        ⟨.insert .empty "x" (.int 0), .insert .empty "f" ⟨.int, [.int, .int], fun _ => pure (.int 0)⟩⟩ 10
        "f((x + 1), 23)" = .ok expression ∧ expression.tree.size = 6 ∧
      (expression.tree.node 4).kind = .call "f" ∧ (expression.tree.node 4).span = ⟨0, 14⟩ ∧
      (expression.tree.node 4).children = [2, 3] ∧
      (expression.tree.node 2).span = ⟨3, 8⟩ ∧ (expression.tree.node 3).span = ⟨11, 13⟩ :=
    ⟨_, by cbv, by cbv, by cbv, by cbv, by cbv, by cbv, by cbv⟩
  obtain ⟨expression, compiled, size, kind, span, children, first, second⟩ := compiled
  obtain ⟨lexemes, classified, read, -, nests, -⟩ := spans_nest compiled
  exact ⟨expression, compiled, kind, span, children, first, second, lexemes, classified, read,
    nests 4 (by omega), nests 2 (by omega)⟩

end Expression

end Reckoner
