/-!
What the program says about itself when it is asked for help.
-/
namespace Reckoner.Command

/-- What help can be asked about: the program as a whole, or one of its commands. -/
inductive HelpTopic where
  | program
  | evaluate
  | interact
  | help
deriving DecidableEq

namespace HelpTopic

/-- The topic that the name of a command stands for. -/
def ofName? : String → Option HelpTopic
  | "eval" => some evaluate
  | "repl" => some interact
  | "help" => some help
  | _ => none

/-- The lines about a topic. -/
def lines : HelpTopic → List String
  | program => [
      "calx - an embeddable expression calculator",
      "",
      "Usage: calx [OPTIONS] <COMMAND>",
      "",
      "Commands:",
      "  eval  Evaluate an expression",
      "  repl  Start interactive REPL",
      "  help  Print this message or the help of the given subcommand(s)",
      "",
      "Options:",
      "      --no-color  Disable colored output",
      "  -h, --help      Print help",
      "  -V, --version   Print version"]
  | evaluate => [
      "Evaluate an expression",
      "",
      "Usage: calx eval [OPTIONS] <EXPRESSION>",
      "",
      "Arguments:",
      "  <EXPRESSION>  Expression to evaluate",
      "",
      "Options:",
      "      --int <NAME=VALUE>    Bind an integer variable",
      "      --no-color            Disable colored output",
      "      --float <NAME=VALUE>  Bind a float variable",
      "      --bool <NAME=VALUE>   Bind a boolean variable",
      "      --str <NAME=VALUE>    Bind a string variable",
      "      --show-vars           Print every bound variable after evaluating",
      "      --tree                Print the expression tree instead of only the value",
      "  -h, --help                Print help"]
  | interact => [
      "Start interactive REPL",
      "",
      "Usage: calx repl [OPTIONS]",
      "",
      "Options:",
      "      --int <NAME=VALUE>    Bind an integer variable",
      "      --no-color            Disable colored output",
      "      --float <NAME=VALUE>  Bind a float variable",
      "      --bool <NAME=VALUE>   Bind a boolean variable",
      "      --str <NAME=VALUE>    Bind a string variable",
      "  -h, --help                Print help"]
  | help => [
      "Print this message or the help of the given subcommand(s)",
      "",
      "Usage: calx help [COMMAND]...",
      "",
      "Arguments:",
      "  [COMMAND]...  Print help for the subcommand(s)"]

/-- The text about a topic. -/
def text (topic : HelpTopic) : String :=
  "\n".intercalate topic.lines ++ "\n"

end HelpTopic

end Reckoner.Command
