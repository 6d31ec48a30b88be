import Reckoner.Proofs.Builder.Classified
import Reckoner.Proofs.Builder.Enclosed
import Reckoner.Proofs.Expression.Spacing
import Reckoner.Proofs.Tree.Located

/-!
Parentheses mean nothing. A source compiles between parentheses, with two more passes, if it compiles without them, and
the expression is the same one a byte further to the right. The only exceptions are the names of types, which make casts
with the parentheses around them.
-/
namespace Reckoner

/-- The tree with its nodes by so many bytes further to the right. -/
def Tree.shift (offset : Nat) (tree : Tree) : Tree :=
  ⟨tree.nodes.map fun node => { node with span := node.span.moved offset }, tree.root⟩

variable {registry : Registry} {passLimit : Nat} {source : String}

namespace Tree

variable {tree other checked checked' : Tree} {root result : Nat}

private theorem ext_node (sameRoot : tree.root = other.root) (sameSize : tree.size = other.size)
    (same : ∀ id : Nat, id < tree.size → tree.node id = other.node id) : tree = other := by
  have nodes : tree.nodes = other.nodes := by
    apply Array.ext sameSize
    intro id lt lt'
    have here := same id lt
    simpa [node, lt, lt'] using here
  cases tree
  cases other
  exact Tree.mk.injEq .. ▸ ⟨nodes, sameRoot⟩

@[simp] theorem size_shift (offset : Nat) (tree : Tree) : (tree.shift offset).size = tree.size := by
  simp [shift, size]

theorem node_shift (offset : Nat) {id : Nat} (lt : id < tree.size) :
    (tree.shift offset).node id = { tree.node id with span := (tree.node id).span.moved offset } := by
  simp only [size] at lt
  simp [node, shift, lt]

/-- Seen from the source with parentheses around it, a formed tree is one byte further to the right. -/
theorem Formed.viewed_enclosed (formed : tree.Formed registry root result) (source : String) :
    tree.viewed (.enclosed source) = tree.shift 1 := by
  refine ext_node rfl ?_ fun id lt => ?_
  · rw [size_viewed, size_shift]
  rw [size_viewed] at lt
  rw [node_viewed _ _ lt, formed.node_viewed_keep rfl, node_shift 1 lt]
  rfl

/-- Checking a tree that is further to the right leaves it there. -/
theorem check_shift {offset : Nat} {order : List NodeId}
    (isChecked : tree.check registry order = (.ok (), checked))
    (isChecked' : (tree.shift offset).check registry order = (.ok (), checked')) (alike : checked.Alike checked') :
    checked' = checked.shift offset := by
  refine ext_node alike.root.symm ?_ fun id lt => ?_
  · rw [size_shift, alike.size]
  rw [← alike.size] at lt
  have same := alike.type id
  obtain ⟨type, here⟩ := node_check isChecked id
  obtain ⟨type', there⟩ := node_check isChecked' id
  rw [node_shift offset ((size_check isChecked).1 ▸ lt)] at there
  rw [here, there] at same
  obtain rfl : type = type' := same
  rw [node_shift offset lt, here, there]

/-- Constants are read a byte further to the right, too. -/
theorem Nested.text_shift {lexemes : List Lexeme} (nested : tree.Nested source lexemes) {id : NodeId}
    (constant : (tree.node id).kind = .constant) :
    ((tree.node id).span.text? source).getD "?" =
      (((tree.shift 1).node id).span.text? ("(" ++ source ++ ")")).getD "?" := by
  obtain ⟨text, read⟩ := Span.fits_iff.mp (nested.fits id)
  have lt : (id : Nat) < tree.size := by
    by_contra large
    rw [node_of_size_le (Nat.not_lt.mp large)] at constant
    cases constant
  rw [node_shift 1 lt, read]
  exact congrArg (·.getD "?") (Span.text?_moved read "(" ")").symm

end Tree

namespace Expression

/-- A source between parentheses gives the same expression one byte further to the right, unless it is the name of a
type. It takes at most two passes more. -/
theorem compile_parentheses {expression : Expression} (free : '\x00' ∉ source.toList)
    (noType : source ∉ ["bool", "int", "float", "string"])
    (compiled : compile registry passLimit source = .ok expression) :
    ∃ enclosed, compile registry (passLimit + 2) ("(" ++ source ++ ")") = .ok enclosed ∧
      enclosed.tree = expression.tree.shift 1 ∧ enclosed.order = expression.order ∧ expression.Same enclosed := by
  obtain ⟨lexemes, classified, tree, stages⟩ := exists_stages compiled
  obtain ⟨opening, closing, opens, closes, read⟩ :=
    Lexeme.tokenize_enclosed free noType stages.read (Lexeme.checkBrackets_of_classify stages.known)
  have mirrored := Lexeme.classify_viewed (.enclosed source) registry lexemes
  rw [stages.known] at mirrored
  obtain ⟨_, known, rfl⟩ := mirrored.exists_ok
  have balanced := (Item.proper_of_classify stages.read stages.known).balanced
  have built := Tree.build_enclosed opens closes balanced stages.built
  have parsed : parse registry passLimit source = .ok tree := by
    simp only [parse, stages.read, stages.known, bind, Except.bind, stages.built]
  obtain ⟨root, result, formed⟩ := formed_of_parse parsed
  rw [formed.viewed_enclosed] at built
  have parsed' : parse registry (passLimit + 2) ("(" ++ source ++ ")") = .ok (tree.shift 1) := by
    simp only [parse, read, Lexeme.classify_enclosed opens closes known, bind, Except.bind, built]
  have moved : tree.Moved (tree.shift 1) := by
    rw [← formed.viewed_enclosed source]
    exact formed.moved_viewed rfl
  have laid := (Lexeme.classify_yields registry (Lexeme.laid_of_tokenize stages.read)).of_ok stages.known
  have nested := (Tree.build_yields laid passLimit).of_ok stages.built
  rcases moved.alike.check tree.postOrder with ⟨checked, checked', isChecked, isChecked', alike⟩ |
    ⟨_, _, _, _, failed, -⟩
  · cases stages.checked.symm.trans isChecked
    have compiled' := compile_of_parse parsed'
    rw [← moved.alike.postOrder, isChecked'] at compiled'
    refine ⟨_, compiled', Tree.check_shift isChecked isChecked' alike, stages.order_eq.symm, ?_⟩
    have same := same_of_check parsed parsed' moved (fun id constant => nested.text_shift constant) isChecked
      (moved.alike.postOrder ▸ isChecked') alike
    rw [← moved.alike.postOrder] at same
    have whole : expression = ⟨source, expression.tree, tree.postOrder⟩ := by
      rw [← stages.source_eq, ← stages.order_eq]
    exact whole ▸ same
  · rw [stages.checked] at failed
    cases failed

/-- A sum that begins with the name of a type, which is a variable here, is no cast between parentheses. -/
theorem compile_parentheses_sum :
    '\x00' ∉ "int + 1".toList ∧ "int + 1" ∉ ["bool", "int", "float", "string"] ∧ ∃ expression enclosed,
      compile ⟨.insert .empty "int" (.int 0), .empty⟩ 1 "int + 1" = .ok expression ∧
      compile ⟨.insert .empty "int" (.int 0), .empty⟩ 3 ("(" ++ "int + 1" ++ ")") = .ok enclosed ∧
      enclosed.tree = expression.tree.shift 1 ∧ enclosed.order = expression.order ∧ expression.Same enclosed := by
  have free : '\x00' ∉ "int + 1".toList := by decide
  have noType : "int + 1" ∉ ["bool", "int", "float", "string"] := by decide
  have compiled : ∃ expression, compile ⟨.insert .empty "int" (.int 0), .empty⟩ 1 "int + 1" = .ok expression :=
    ⟨_, by cbv⟩
  obtain ⟨expression, compiled⟩ := compiled
  obtain ⟨enclosed, compiled', same⟩ := compile_parentheses free noType compiled
  exact ⟨free, noType, expression, enclosed, compiled, compiled', same⟩

/-- A variable with the name of a type is an expression, but between parentheses it is a cast of nothing. -/
theorem compile_parentheses_type :
    '\x00' ∉ "int".toList ∧
      (∃ expression, compile ⟨.insert .empty "int" (.int 0), .empty⟩ 1 "int" = .ok expression) ∧
      ∃ failure, compile ⟨.insert .empty "int" (.int 0), .empty⟩ 3 ("(" ++ "int" ++ ")") = .error failure := by
  have failed : ∃ error, parse ⟨.insert .empty "int" (.int 0), .empty⟩ 3 ("(" ++ "int" ++ ")") = .error error :=
    ⟨_, by cbv⟩
  obtain ⟨error, failed⟩ := failed
  have refused : compile ⟨.insert .empty "int" (.int 0), .empty⟩ 3 ("(" ++ "int" ++ ")") =
      .error (.ofCompileError ("(" ++ "int" ++ ")") error) := by
    simp only [compile, compileTree, failed, bind, Except.bind]
  exact ⟨by decide, ⟨_, by cbv⟩, ⟨_, refused⟩⟩

end Expression

end Reckoner
