import Reckoner.Command.Evaluate
import Reckoner.Command.Help

/-!
The arguments of the program: options that hold for every command, the name of a command, and the options
and operands of that command in any order. An argument with a leading dash is an option unless it follows
a double dash. Flags may be given once, bindings as often as wanted.
-/
namespace Reckoner.Command

/-- What the arguments ask for. -/
inductive Request where
  | help (topic : HelpTopic)
  | version
  | evaluate (options : EvaluateOptions) (plain : Bool)
  | interact (bindings : Bindings) (plain : Bool)

/-- What the arguments have given so far. -/
structure Given where
  plain : Bool
  showVariables : Bool
  showTree : Bool
  expression : Option String
  bindings : Bindings

/-- Nothing given but perhaps the option for all commands. -/
def Given.start : Given :=
  ⟨false, false, false, none, .none⟩

/-- The commands with arguments of their own. -/
inductive CommandName where
  | evaluate
  | interact
deriving DecidableEq

/-- The topic of the help about a command. -/
def CommandName.topic : CommandName → HelpTopic
  | evaluate => .evaluate
  | interact => .interact

/-- Whether an argument is an option: a dash with something after it. -/
def isOption (argument : String) : Bool :=
  argument.startsWith "-" && argument != "-"

/-- Adds a binding of the kind that an option names. -/
def addBinding? (given : Given) (option value : String) : Option Given :=
  let bindings := given.bindings
  let added? : Option Bindings :=
    match option with
    | "--int" => some { bindings with ints := bindings.ints ++ [value] }
    | "--float" => some { bindings with floats := bindings.floats ++ [value] }
    | "--bool" => some { bindings with bools := bindings.bools ++ [value] }
    | "--str" => some { bindings with strings := bindings.strings ++ [value] }
    | _ => none
  added?.map fun bindings => { given with bindings := bindings }

/-- Sets a flag that has not been set. -/
def setFlag? (name : CommandName) (given : Given) (option : String) : Option Given :=
  match option with
  | "--no-color" => if given.plain then none else some { given with plain := true }
  | "--show-vars" =>
    if name ≠ .evaluate || given.showVariables then none
    else some { given with showVariables := true }
  | "--tree" =>
    if name ≠ .evaluate || given.showTree then none else some { given with showTree := true }
  | _ => none

/-- An option and its value, if they are joined by an equals sign. -/
def splitOption? (argument : String) : Option (String × String) :=
  let cs := argument.toList
  let option := cs.takeWhile (· != '=')
  match cs.drop option.length with
  | [] => none
  | _ :: value => some (String.ofList option, String.ofList value)

/-- Takes the expression of the evaluation command. -/
def setExpression? (name : CommandName) (given : Given) (argument : String) : Option Given :=
  if name = .evaluate && given.expression.isNone then some { given with expression := some argument }
  else none

/-- What the arguments of a command have led to. -/
inductive Reading where
  | given (given : Given)
  | help
  | refused

/-- Operands only, after a double dash. -/
def readOperands (name : CommandName) (given : Given) : List String → Reading
  | [] => .given given
  | argument :: rest =>
    match setExpression? name given argument with
    | some given => readOperands name given rest
    | none => .refused

/-- What one argument of a command comes to. -/
inductive Meaning where
  | given (given : Given)
  /-- An option whose value is the next argument. -/
  | wantsValue
  /-- A double dash. -/
  | operandsOnly
  | help
  | refused

/-- What an argument comes to by itself. -/
def readArgument (name : CommandName) (given : Given) (argument : String) : Meaning :=
  if argument == "--" then .operandsOnly
  else if !isOption argument then (setExpression? name given argument).elim .refused .given
  else if argument == "--help" || argument.startsWith "-h" then .help
  else
    match setFlag? name given argument, splitOption? argument with
    | some given, _ => .given given
    | none, some (option, value) => (addBinding? given option value).elim .refused .given
    | none, none => .wantsValue

/-- The arguments of a command. -/
def readArguments (name : CommandName) (given : Given) : List String → Reading
  | [] => .given given
  | argument :: rest =>
    match readArgument name given argument with
    | .given given => readArguments name given rest
    | .operandsOnly => readOperands name given rest
    | .help => .help
    | .refused => .refused
    | .wantsValue =>
      match rest with
      | [] => .refused
      | value :: rest =>
        if isOption value then .refused
        else
          match addBinding? given argument value with
          | some given => readArguments name given rest
          | none => .refused

/-- The request of a command whose arguments follow. -/
def readCommand (name : CommandName) (plain : Bool) (arguments : List String) : Option Request :=
  match readArguments name .start arguments with
  | .help => some (.help name.topic)
  | .refused => none
  | .given given =>
    let plain := plain || given.plain
    match name, given.expression with
    | .interact, _ => some (.interact given.bindings plain)
    | .evaluate, some expression =>
      some (.evaluate ⟨expression, given.bindings, given.showVariables, given.showTree⟩ plain)
    | .evaluate, none => none

/-- The request of arguments before which the option against colours was given or not. -/
def readRequestFrom (plain : Bool) : List String → Option Request
  | [] => none
  | argument :: rest =>
    if argument == "--no-color" then
      if plain then none else readRequestFrom true rest
    else if argument == "--help" || argument.startsWith "-h" then some (.help .program)
    else if argument == "--version" || argument.startsWith "-V" then some .version
    else if argument == "eval" then readCommand .evaluate plain rest
    else if argument == "repl" then readCommand .interact plain rest
    else if argument == "help" then
      match rest with
      | [] => some (.help .program)
      | [name] => Request.help <$> HelpTopic.ofName? name
      | _ => none
    else none

/-- What the arguments of the program ask for, or nothing if they cannot be understood. -/
def readRequest (arguments : List String) : Option Request :=
  readRequestFrom false arguments

/-- The answer to a question for the version. -/
def versionText : String :=
  "calx 0.1.0\n"

end Reckoner.Command
