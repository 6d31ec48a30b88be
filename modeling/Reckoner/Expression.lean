import Reckoner.Failure
import Reckoner.Lexeme.Classify
import Reckoner.Lexeme.Tokenize
import Reckoner.Tree.Build
import Reckoner.Tree.Check
import Reckoner.Tree.Sexpr

/-!
Compiled expressions. Compiling reads the source into lexemes, classifies them against a registry,
builds the tree and checks its types; the first error ends it. A compiled expression can be evaluated
any number of times, and each evaluation looks its variables and functions up anew.
-/
namespace Reckoner

/-- A checked tree with its source and the order in which its nodes are evaluated. -/
structure Expression where
  source : String
  tree : Tree
  order : List NodeId

namespace Expression

/-- The tree of a source, not yet checked. -/
def parse (registry : Registry) (passLimit : Nat) (source : String) : Except CompileError Tree := do
  let lexemes ← Lexeme.tokenize source
  let classified ← Lexeme.classify registry lexemes
  Tree.build source classified passLimit

/-- The checked tree of a source, with the order of its nodes. -/
def compileTree (registry : Registry) (passLimit : Nat) (source : String) :
    Except CompileError (Tree × List NodeId) := do
  let tree ← parse registry passLimit source
  let order := tree.postOrder
  match tree.check registry order with
  | (.ok _, checked) => return (checked, order)
  | (.error error, _) => throw error

/-- Compiles a source against a registry, within a limit on the passes of the tree builder. -/
def compile (registry : Registry) (passLimit : Nat) (source : String) :
    Except Failure Expression :=
  match compileTree registry passLimit source with
  | .ok (tree, order) => .ok ⟨source, tree, order⟩
  | .error error => .error (.ofCompileError source error)

/-- Evaluates the expression with what a registry and a host hold now. The expression keeps the values
of its nodes. -/
def evaluate (registry : Registry) (expression : Expression) (host : Host) :
    Except Failure Value × Expression × Host :=
  match expression.tree.evaluate registry expression.order host with
  | (result, tree, host) =>
    (result.mapError (.ofEvaluationError expression.source), { expression with tree := tree }, host)

/-- The type of the expression. -/
def resultType (expression : Expression) : ValueType :=
  expression.tree.resultType

/-- The number of nodes, the root included. -/
def nodeCount (expression : Expression) : Nat :=
  expression.tree.size

/-- The tree as text. -/
def sexpr (expression : Expression) : String :=
  expression.tree.sexpr expression.source

end Expression

end Reckoner
