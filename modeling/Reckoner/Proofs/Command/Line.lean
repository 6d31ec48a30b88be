import Reckoner.Command.Arguments

/-!
The arguments of a command as a line of parts. The options for bindings can stand anywhere between the flags and the
operand: the rest of the line is read as if they were not there, and they are collected by kind, those of one kind in
the order of the line.
-/
namespace Reckoner.Command

/-- The kinds of values that a binding can give. -/
inductive Kind where
  | int
  | float
  | bool
  | string
deriving DecidableEq

/-- The option for bindings of the kind. -/
def Kind.option : Kind → String
  | int => "--int"
  | float => "--float"
  | bool => "--bool"
  | string => "--str"

/-- An option for a binding. Its text has the name and the value. -/
structure BindingOption where
  kind : Kind
  text : String

/-- A part of the arguments of a command. -/
inductive Part where
  /-- One argument, in which an equals sign stands between the option and its text. -/
  | joined (option : BindingOption)
  /-- Two arguments, the option and its text. -/
  | apart (option : BindingOption)
  /-- A flag or an operand. -/
  | other (argument : String)

/-- The word for the command. -/
def CommandName.word : CommandName → String
  | evaluate => "eval"
  | interact => "repl"

/-- The arguments of the program that run a command with arguments of its own. -/
def commandLine (plain : Bool) (name : CommandName) (arguments : List String) : List String :=
  (if plain then ["--no-color"] else []) ++ name.word :: arguments

namespace Part

/-- The arguments of the part. -/
def arguments : Part → List String
  | joined option => [option.kind.option ++ "=" ++ option.text]
  | apart option => [option.kind.option, option.text]
  | other argument => [argument]

/-- The binding option that the part is. -/
def option? : Part → Option BindingOption
  | joined option | apart option => some option
  | other _ => none

/-- The flag or operand that the part is. -/
def other? : Part → Option String
  | joined _ | apart _ => none
  | other argument => some argument

end Part

/-- An operand, which is no option, or one of the flags. -/
def FlagOrOperand (argument : String) : Prop :=
  isOption argument = true → argument = "--no-color" ∨ argument = "--show-vars" ∨ argument = "--tree"

/-- Texts with a dash in front have to be joined to their option, and what is no binding is a flag or an operand. -/
def Part.Regular : Part → Prop
  | joined _ => True
  | apart option => isOption option.text = false
  | other argument => FlagOrOperand argument

/-- The binding options of a line, from left to right. -/
def optionsOf (line : List Part) : List BindingOption :=
  line.filterMap Part.option?

/-- What is on a line besides binding options. -/
def othersOf (line : List Part) : List String :=
  line.filterMap Part.other?

/-- Nothing, or a double dash with operands behind it. -/
def Operands (arguments : List String) : Prop :=
  arguments = [] ∨ ∃ operands, arguments = "--" :: operands

/-- The texts of the options of one kind. -/
def textsOf (kind : Kind) (options : List BindingOption) : List String :=
  (options.filter (·.kind = kind)).map (·.text)

namespace Bindings

/-- The bindings with those of some options behind them. -/
def adding (bindings : Bindings) (options : List BindingOption) : Bindings where
  ints := bindings.ints ++ textsOf .int options
  floats := bindings.floats ++ textsOf .float options
  bools := bindings.bools ++ textsOf .bool options
  strings := bindings.strings ++ textsOf .string options

@[simp] theorem adding_nil (bindings : Bindings) : bindings.adding [] = bindings := by
  simp [adding, textsOf]

theorem adding_append (bindings : Bindings) (options more : List BindingOption) :
    bindings.adding (options ++ more) = (bindings.adding options).adding more := by
  simp [adding, textsOf]

end Bindings

/-- The same with other bindings. -/
def Given.withBindings (given : Given) (bindings : Bindings) : Given :=
  { given with bindings := bindings }

/-- The same with other bindings. -/
def Reading.withBindings (reading : Reading) (bindings : Bindings) : Reading :=
  match reading with
  | .given found => .given (found.withBindings bindings)
  | other => other

/-- The same with other bindings. -/
def Request.withBindings (request : Request) (bindings : Bindings) : Request :=
  match request with
  | .evaluate options plain => .evaluate { options with bindings := bindings } plain
  | .interact _ plain => .interact bindings plain
  | other => other

/-- The bindings that an engine is made with. -/
def Request.bindings? : Request → Option Bindings
  | .evaluate options _ => some options.bindings
  | .interact bindings _ => some bindings
  | .help _ | .version => none

variable {name : CommandName} {given : Given} {bindings : Bindings} {option : BindingOption} {argument : String}
  {rest tail : List String}

/-- Whether a text begins with another can be seen from their characters. -/
theorem startsWith_eq (text front : String) : text.startsWith front = front.toList.isPrefixOf text.toList :=
  Bool.eq_iff_iff.mpr (String.startsWith_string_iff.trans List.isPrefixOf_iff_prefix.symm)

section Options

private theorem addBinding?_option (given : Given) (option : BindingOption) :
    addBinding? (given.withBindings bindings) option.kind.option option.text =
      some (given.withBindings (bindings.adding [option])) := by
  obtain ⟨kind, text⟩ := option
  cases kind <;> simp [addBinding?, Kind.option, Given.withBindings, Bindings.adding, textsOf]

/-- An argument with an equals sign in it is no flag. -/
private theorem setFlag?_of_mem (equals : '=' ∈ argument.toList) : setFlag? name given argument = none := by
  unfold setFlag?
  split
  · simp at equals
  · simp at equals
  · simp at equals
  · rfl

/-- An option that is joined to its text is read by itself. -/
private theorem readArgument_joined :
    readArgument name (given.withBindings bindings) (option.kind.option ++ "=" ++ option.text) =
      .given (given.withBindings (bindings.adding [option])) := by
  generalize whole : option.kind.option ++ "=" ++ option.text = argument
  have chars : argument.toList = option.kind.option.toList ++ '=' :: option.text.toList := by
    simp [← whole]
  have equals : '=' ∈ argument.toList := by simp [chars]
  have differs {other : String} (free : '=' ∉ other.toList) : (argument == other) = false :=
    beq_false_of_ne fun same => free (same ▸ equals)
  have free : ∀ c ∈ option.kind.option.toList, (c != '=') = true := by
    cases option.kind <;> simp [Kind.option]
  have noDashes : (argument == "--") = false := differs (by simp)
  have named : isOption argument = true := by
    rw [isOption, bne, differs (by simp), startsWith_eq, chars]
    cases option.kind <;> rfl
  have noHelp : (argument == "--help" || argument.startsWith "-h") = false := by
    rw [differs (by simp), startsWith_eq, chars]
    cases option.kind <;> rfl
  have split : splitOption? argument = some (option.kind.option, option.text) := by
    rw [splitOption?]
    simp only [chars, List.takeWhile_append_of_pos free, List.takeWhile_cons]
    simp
  simp only [readArgument, noDashes, named, noHelp, setFlag?_of_mem equals, split, addBinding?_option, Bool.not_true,
    Bool.false_eq_true, if_false, Option.elim_some]

/-- An option by itself asks for its text. -/
private theorem readArgument_option (option : BindingOption) :
    readArgument name given option.kind.option = .wantsValue := by
  have ⟨noDashes, named, noHelp, noFlag, noSplit⟩ :
      (option.kind.option == "--") = false ∧ isOption option.kind.option = true ∧
        (option.kind.option == "--help" || option.kind.option.startsWith "-h") = false ∧
        setFlag? name given option.kind.option = none ∧ splitOption? option.kind.option = none := by
    rw [isOption, startsWith_eq, startsWith_eq]
    cases option.kind <;> exact ⟨rfl, rfl, rfl, rfl, rfl⟩
  simp only [readArgument, noDashes, named, noHelp, noFlag, noSplit, Bool.not_true, Bool.false_eq_true, if_false]

private theorem readArguments_joined :
    readArguments name (given.withBindings bindings) ((option.kind.option ++ "=" ++ option.text) :: rest) =
      readArguments name (given.withBindings (bindings.adding [option])) rest := by
  rw [readArguments.eq_def]
  simp only [readArgument_joined]

private theorem readArguments_apart (regular : isOption option.text = false) :
    readArguments name (given.withBindings bindings) (option.kind.option :: option.text :: rest) =
      readArguments name (given.withBindings (bindings.adding [option])) rest := by
  rw [readArguments, readArgument_option]
  simp only [regular, addBinding?_option, Bool.false_eq_true, if_false]

end Options

section Others

/-- What a flag or an operand gives. -/
private def take? (name : CommandName) (given : Given) (argument : String) : Option Given :=
  if isOption argument then setFlag? name given argument else setExpression? name given argument

private theorem setFlag?_withBindings :
    setFlag? name (given.withBindings bindings) argument =
      (setFlag? name given argument).map (·.withBindings bindings) := by
  obtain ⟨plain, showVariables, showTree, expression, bindings'⟩ := given
  unfold setFlag?
  split
  · cases plain <;> rfl
  · cases name <;> cases showVariables <;> rfl
  · cases name <;> cases showTree <;> rfl
  · rfl

private theorem setExpression?_withBindings :
    setExpression? name (given.withBindings bindings) argument =
      (setExpression? name given argument).map (·.withBindings bindings) := by
  obtain ⟨plain, showVariables, showTree, expression, bindings'⟩ := given
  cases name <;> cases expression <;> rfl

private theorem take?_withBindings :
    take? name (given.withBindings bindings) argument = (take? name given argument).map (·.withBindings bindings) := by
  unfold take?
  split
  · exact setFlag?_withBindings
  · exact setExpression?_withBindings

/-- A flag or an operand gives what it gives by itself. A flag that is refused is taken for an option, but is none. -/
private theorem readArguments_other (regular : FlagOrOperand argument) :
    readArguments name given (argument :: rest) =
      match take? name given argument with
      | some given => readArguments name given rest
      | none => .refused := by
  by_cases named : isOption argument = true
  · have refused {next : String} : addBinding? given argument next = none := by
      rcases regular named with rfl | rfl | rfl <;> rfl
    have ⟨noDashes, noHelp, noSplit⟩ : (argument == "--") = false ∧
        (argument == "--help" || argument.startsWith "-h") = false ∧ splitOption? argument = none := by
      rw [startsWith_eq]
      rcases regular named with rfl | rfl | rfl <;> exact ⟨rfl, rfl, rfl⟩
    have meaning : readArgument name given argument =
        match setFlag? name given argument with
        | some given => .given given
        | none => .wantsValue := by
      simp only [readArgument, noDashes, named, noHelp, noSplit, Bool.not_true, Bool.false_eq_true, if_false]
      cases setFlag? name given argument <;> rfl
    rw [take?, if_pos named, readArguments.eq_def]
    simp only [meaning]
    cases setFlag? name given argument with
    | some given => rfl
    | none =>
      cases rest with
      | nil => rfl
      | cons value rest => simp only [refused, ite_self]
  · have noDashes : (argument == "--") = false := beq_false_of_ne fun same => by
      rw [same, isOption, startsWith_eq] at named
      exact named rfl
    have meaning : readArgument name given argument =
        (setExpression? name given argument).elim .refused .given := by
      simp only [readArgument, noDashes, named, Bool.not_false, Bool.false_eq_true, if_false, if_true]
    rw [take?, if_neg named, readArguments.eq_def]
    simp only [meaning]
    cases setExpression? name given argument <;> rfl

private theorem readOperands_withBindings (arguments : List String) :
    readOperands name (given.withBindings bindings) arguments =
      (readOperands name given arguments).withBindings bindings := by
  induction arguments generalizing given with
  | nil => rfl
  | cons argument rest ih =>
    rw [readOperands, readOperands, setExpression?_withBindings]
    cases setExpression? name given argument with
    | none => rfl
    | some given => exact ih

private theorem readArguments_tail (operands : Operands tail) :
    readArguments name (given.withBindings bindings) tail = (readArguments name given tail).withBindings bindings := by
  rcases operands with rfl | ⟨operands, rfl⟩
  · rfl
  · cases operands with
    | nil => rfl
    | cons first rest => exact readOperands_withBindings (first :: rest)

end Others

/-- The options for bindings are collected from the line, and everything else on it is read as without them. -/
theorem readArguments_line {line : List Part} (regular : ∀ part ∈ line, part.Regular) (operands : Operands tail) :
    readArguments name (given.withBindings bindings) (line.flatMap Part.arguments ++ tail) =
      (readArguments name given (othersOf line ++ tail)).withBindings (bindings.adding (optionsOf line)) := by
  induction line generalizing given bindings with
  | nil =>
    rw [optionsOf, List.filterMap_nil, Bindings.adding_nil]
    exact readArguments_tail operands
  | cons part rest ih =>
    obtain ⟨isRegular, others⟩ := List.forall_mem_cons.mp regular
    cases part with
    | joined option =>
      change readArguments name (given.withBindings bindings) ((option.kind.option ++ "=" ++ option.text) ::
          (rest.flatMap Part.arguments ++ tail)) =
        (readArguments name given (othersOf rest ++ tail)).withBindings (bindings.adding ([option] ++ optionsOf rest))
      rw [readArguments_joined, Bindings.adding_append]
      exact ih others
    | apart option =>
      change readArguments name (given.withBindings bindings) (option.kind.option :: option.text ::
          (rest.flatMap Part.arguments ++ tail)) =
        (readArguments name given (othersOf rest ++ tail)).withBindings (bindings.adding ([option] ++ optionsOf rest))
      rw [readArguments_apart isRegular, Bindings.adding_append]
      exact ih others
    | other argument =>
      change readArguments name (given.withBindings bindings) (argument :: (rest.flatMap Part.arguments ++ tail)) =
        (readArguments name given (argument :: (othersOf rest ++ tail))).withBindings (bindings.adding (optionsOf rest))
      rw [readArguments_other isRegular, readArguments_other isRegular, take?_withBindings]
      cases take? name given argument with
      | none => rfl
      | some given => exact ih others

private theorem readOperands_ne_help (arguments : List String) : readOperands name given arguments ≠ .help := by
  induction arguments generalizing given with
  | nil => nofun
  | cons argument rest ih =>
    rw [readOperands]
    split
    · exact ih
    · nofun

/-- Flags and operands do not ask for help. -/
private theorem readArguments_ne_help {line : List Part} (regular : ∀ part ∈ line, part.Regular)
    (operands : Operands tail) : readArguments name given (othersOf line ++ tail) ≠ .help := by
  induction line generalizing given with
  | nil =>
    rcases operands with rfl | ⟨operands, rfl⟩
    · nofun
    · cases operands with
      | nil => nofun
      | cons first rest => exact readOperands_ne_help (first :: rest)
  | cons part rest ih =>
    obtain ⟨isRegular, others⟩ := List.forall_mem_cons.mp regular
    cases part with
    | joined option | apart option => exact ih others
    | other argument =>
      change readArguments name given (argument :: (othersOf rest ++ tail)) ≠ .help
      rw [readArguments_other isRegular]
      cases take? name given argument with
      | none => nofun
      | some given => exact ih others

theorem readRequest_commandLine (plain : Bool) (arguments : List String) :
    readRequest (commandLine plain name arguments) = readCommand name plain arguments := by
  cases plain <;> cases name <;> simp [commandLine, CommandName.word, readRequest, readRequestFrom, startsWith_eq]

/-- If the rest of a line runs a command, then so does the line with options for bindings, and with just these. -/
theorem readRequest_line {line : List Part} {plain : Bool} {request : Request} (regular : ∀ part ∈ line, part.Regular)
    (operands : Operands tail) (accepted : readRequest (commandLine plain name (othersOf line ++ tail)) = some request) :
    readRequest (commandLine plain name (line.flatMap Part.arguments ++ tail)) =
        some (request.withBindings (Bindings.none.adding (optionsOf line))) ∧
      (request.withBindings (Bindings.none.adding (optionsOf line))).bindings? =
        some (Bindings.none.adding (optionsOf line)) := by
  have read : readArguments name .start (line.flatMap Part.arguments ++ tail) =
      (readArguments name .start (othersOf line ++ tail)).withBindings (Bindings.none.adding (optionsOf line)) :=
    @readArguments_line name .start .none tail line regular operands
  rw [readRequest_commandLine, readCommand] at accepted ⊢
  rw [read]
  cases others : readArguments name .start (othersOf line ++ tail) with
  | help => exact absurd others (readArguments_ne_help regular operands)
  | refused =>
    rw [others] at accepted
    cases accepted
  | given found =>
    obtain ⟨plain', showVariables, showTree, expression, bindings⟩ := found
    rw [others] at accepted
    cases name with
    | interact =>
      cases accepted
      exact ⟨rfl, rfl⟩
    | evaluate =>
      cases expression with
      | none => cases accepted
      | some expression =>
        cases accepted
        exact ⟨rfl, rfl⟩

end Reckoner.Command
