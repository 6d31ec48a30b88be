import Reckoner.Main
import Reckoner.Repl.Highlight
import Reckoner.Proofs.Rose
import Reckoner.Proofs.Tree.Arena
import Reckoner.Proofs.Tree.Outline
import Reckoner.Proofs.Builder.Cutting
import Reckoner.Proofs.Builder.Division
import Reckoner.Proofs.Builder.Linking
import Reckoner.Proofs.Builder.Schedule
import Reckoner.Proofs.Builder.Pass
import Reckoner.Proofs.Longest
import Reckoner.Proofs.Lexeme.Symbol
import Reckoner.Proofs.Lexeme.Finding
import Reckoner.Proofs.Lexeme.Settled
import Reckoner.Proofs.Builder.Growth
import Reckoner.Proofs.Builder.Nodes
import Reckoner.Proofs.Builder.Complete
import Reckoner.Proofs.Host.Action
import Reckoner.Proofs.Operator.Perform
import Reckoner.Proofs.Operator.Typing
import Reckoner.Proofs.Tree.Check
import Reckoner.Proofs.Expression.Checked
import Reckoner.Proofs.Expression.Step
import Reckoner.Proofs.Expression.Preservation
import Reckoner.Proofs.Host.Function
import Reckoner.Proofs.Expression.Progress
import Reckoner.Proofs.Expression.Recursion
import Reckoner.Proofs.Separated
import Reckoner.Proofs.Grammar.Parser
import Reckoner.Proofs.Grammar.Machine
import Reckoner.Proofs.Grammar.Inversion
import Reckoner.Proofs.Grammar.Climbing
import Reckoner.Proofs.Grammar.Contraction
import Reckoner.Proofs.Grammar.Brackets
import Reckoner.Proofs.Grammar.Language
import Reckoner.Proofs.Builder.Tokens
import Reckoner.Proofs.Builder.Grouping
import Reckoner.Proofs.Builder.Proper
import Reckoner.Proofs.Builder.Meaning
import Reckoner.Proofs.Builder.Ranking
import Reckoner.Proofs.Builder.Visiting
import Reckoner.Proofs.Builder.Alternation
import Reckoner.Proofs.Builder.Tightness
import Reckoner.Proofs.Builder.Faithful
import Reckoner.Proofs.Builder.Totality
import Reckoner.Proofs.Tree.Term
import Reckoner.Proofs.Builder.Terms
import Reckoner.Proofs.Builder.Meant
import Reckoner.Proofs.Lexeme.Neighbours
import Reckoner.Proofs.Builder.Classified
import Reckoner.Proofs.Builder.Parsing
import Reckoner.Proofs.Builder.Refusal
import Reckoner.Proofs.Builder.Trail
import Reckoner.Proofs.Builder.Passes
import Reckoner.Proofs.Builder.Wiring
import Reckoner.Proofs.Grammar.Spelling
import Reckoner.Proofs.Tree.Walk
import Reckoner.Proofs.Builder.Arrangement
import Reckoner.Proofs.Builder.Excision
import Reckoner.Proofs.Expression.Operands
import Reckoner.Proofs.Numeral.Automaton
import Reckoner.Proofs.Numeral.Literal
import Reckoner.Proofs.Strict.Computation
import Reckoner.Proofs.Strict.Lexing
import Reckoner.Proofs.Strict.Classifying
import Reckoner.Proofs.Strict.Linking
import Reckoner.Proofs.Strict.Building
import Reckoner.Proofs.Strict.Checking
import Reckoner.Proofs.Expression.Causes
import Reckoner.Proofs.Expression.Guards
import Reckoner.Proofs.Expression.Outcome
import Reckoner.Proofs.Engine.History
import Reckoner.Proofs.Tree.Shape
import Reckoner.Proofs.Expression.Typing
import Reckoner.Proofs.Expression.Answer
import Reckoner.Proofs.Operator.Expansion
import Reckoner.Proofs.Expression.Compound
import Reckoner.Proofs.Lexeme.Munch
import Reckoner.Proofs.Lexeme.Partition
import Reckoner.Proofs.Lexeme.Spacing
import Reckoner.Proofs.Mirrors
import Reckoner.Proofs.Lexeme.Viewed
import Reckoner.Proofs.Builder.Viewed
import Reckoner.Proofs.Expression.Spacing
import Reckoner.Proofs.Expression.Frame
import Reckoner.Proofs.Lexeme.Names
import Reckoner.Proofs.Expression.Names
import Reckoner.Proofs.Span
import Reckoner.Proofs.Located
import Reckoner.Proofs.Lexeme.Laid
import Reckoner.Proofs.Builder.Placed
import Reckoner.Proofs.Builder.Rows
import Reckoner.Proofs.Builder.Located
import Reckoner.Proofs.Tree.Located
import Reckoner.Proofs.Expression.Nesting
import Reckoner.Proofs.Engine.Located
import Reckoner.Proofs.Decimal.Integer
import Reckoner.Proofs.Lexeme.Front
import Reckoner.Proofs.Command.Printed
import Reckoner.Proofs.Lexeme.Balance
import Reckoner.Proofs.Lexeme.Outside
import Reckoner.Proofs.Repl.Number
import Reckoner.Proofs.Repl.Pieces
import Reckoner.Proofs.Repl.Patterns
import Reckoner.Proofs.Lexeme.Readable
import Reckoner.Proofs.Repl.Complete
import Reckoner.Proofs.Grammar.Steps
import Reckoner.Proofs.Lexeme.Picks
import Reckoner.Proofs.Expression.Targets
import Reckoner.Proofs.Lexeme.Enclosed
import Reckoner.Proofs.Builder.Enclosed
import Reckoner.Proofs.Expression.Enclosed
import Reckoner.Proofs.Operator.Families
import Reckoner.Proofs.Operator.Atomic
import Reckoner.Proofs.Lexeme.Classified
import Reckoner.Proofs.Builder.Made
import Reckoner.Proofs.Tree.Typing
import Reckoner.Proofs.Operator.Integers
import Reckoner.Proofs.Lexeme.Numerals
import Reckoner.Proofs.Expression.Registered
import Reckoner.Proofs.Tree.Sexpr
import Reckoner.Proofs.Tree.Legible
import Reckoner.Proofs.Expression.Sexpr
import Reckoner.Proofs.Text.Blank
import Reckoner.Proofs.Text.Bytes
import Reckoner.Proofs.Value.Conversion
import Reckoner.Proofs.Value.Order
import Reckoner.Proofs.Repl.Highlight
import Reckoner.Proofs.Engine.Variables
import Reckoner.Proofs.Command.Line
import Reckoner.Proofs.Command.Bindings
