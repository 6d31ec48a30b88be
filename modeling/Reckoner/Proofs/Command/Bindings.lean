import Reckoner.Proofs.Command.Line
import Reckoner.Proofs.Engine.Variables
import Reckoner.Proofs.Value.Conversion

/-!
The variables that the options of a command line bind. The bindings of one kind are made in the order of the line, but
all of one kind before those of the next, so a name stands for what the last option of the latest kind gives. That is
the last option for the name only if none of a later kind stands in front of it.
-/
namespace Reckoner.Command

/-- The text is the value of a variable of the kind. White space around it is part of texts only. -/
inductive Kind.Reads : Kind → String → Value → Prop where
  | int {text : String} {i : Int64} : Value.Spells text i.toInt → Reads .int text (.int i)
  | float {text : String} {body : List Char} {x : Float} : Text.Trims text.toList body →
      Decimal.readFloat? body = some x → Reads .float text (.float x)
  | bool {text : String} {b : Bool} : Text.Trims text.toList (toString b).toList → Reads .bool text (.bool b)
  | string {text : String} : Reads .string text (.string text)

/-- The kinds in the order in which they are bound. -/
def Kind.all : List Kind :=
  [.int, .float, .bool, .string]

/-- The place of the kind in this order. -/
def Kind.rank : Kind → Nat
  | int => 0
  | float => 1
  | bool => 2
  | string => 3

theorem Kind.mem_all (kind : Kind) : kind ∈ all := by
  cases kind <;> simp [all]

namespace BindingOption

/-- The option is for this name, which is valid, and this value. The first equals sign stands between them, and there
may be white space around the name. -/
def Gives (option : BindingOption) (name : String) (value : Value) : Prop :=
  ∃ written text, option.text = written ++ "=" ++ text ∧ '=' ∉ written.toList ∧
    Text.Trims written.toList name.toList ∧ Registry.checkName name = .ok () ∧ option.kind.Reads text value

/-- The option is for this name and some value. -/
def Names (option : BindingOption) (name : String) : Prop :=
  ∃ value, option.Gives name value

end BindingOption

/-- The option is for the name, and none behind it is. -/
def LastFor (options : List BindingOption) (name : String) (option : BindingOption) : Prop :=
  ∃ before after, options = before ++ option :: after ∧ option.Names name ∧ ∀ later ∈ after, ¬ later.Names name

/-- The option is the last of its kind for the name, and none for the name is of a later kind. -/
structure Decides (options : List BindingOption) (name : String) (option : BindingOption) : Prop where
  last : LastFor (options.filter (·.kind = option.kind)) name option
  latest : ∀ other ∈ options, other.Names name → other.kind.rank ≤ option.kind.rank

/-- The names of the options stand for what the last option for each of them gives, and other names for what they stood
for before. -/
structure Rebinds (before after : Engine) (options : List BindingOption) : Prop where
  last : ∀ name option value, LastFor options name option → option.Gives name value →
    after.valueOf? name = some value
  others : ∀ name, (∀ option ∈ options, ¬ option.Names name) → after.valueOf? name = before.valueOf? name

variable {options more : List BindingOption} {option : BindingOption} {kind : Kind} {name text : String}
  {value : Value} {before after engine : Engine}

section Reading

/-- How the values of a kind are read. -/
private def Kind.read : Kind → String → String → Except Failure Value
  | int => fun name text => Value.int <$> readValue Decimal.readInt64? "an integer" name text
  | float => fun name text => Value.float <$> readValue Decimal.readFloat? "a float" name text
  | bool => fun name text => Value.bool <$> readValue readBool? "`true` or `false`" name text
  | string => fun _ text => .ok (.string text)

private theorem readValue_eq_ok_iff {α : Type} {read : List Char → Option α} {what : String} {result : α} :
    readValue read what name text = .ok result ↔ read (Text.trimChars text.toList) = some result := by
  rw [readValue]
  cases read (Text.trimChars text.toList) <;> simp

private theorem map_eq_ok_iff {α : Type} {make : α → Value} {result : Except Failure α} :
    make <$> result = .ok value ↔ ∃ read, result = .ok read ∧ make read = value := by
  cases result <;> simp [Functor.map, Except.map]

private theorem readBool?_eq_some_iff {cs : List Char} {b : Bool} :
    readBool? cs = some b ↔ cs = (toString b).toList := by
  unfold readBool?
  split
  · next same =>
    subst same
    cases b <;> decide
  · next notTrue =>
    split
    · next same =>
      subst same
      cases b <;> decide
    · next notFalse =>
      refine ⟨nofun, fun same => ?_⟩
      cases b with
      | false => exact absurd same notFalse
      | true => exact absurd same notTrue

private theorem read_eq_ok_iff : kind.read name text = .ok value ↔ kind.Reads text value := by
  cases kind with
  | int =>
    simp only [Kind.read, map_eq_ok_iff, readValue_eq_ok_iff, Decimal.readInt64?_eq_some_iff]
    constructor
    · rintro ⟨i, denotes, rfl⟩
      exact .int ⟨_, Text.trims_trimChars _, denotes⟩
    · rintro ⟨body, trims, denotes⟩
      exact ⟨_, Text.trimChars_of_trims trims ▸ denotes, rfl⟩
  | float =>
    simp only [Kind.read, map_eq_ok_iff, readValue_eq_ok_iff]
    constructor
    · rintro ⟨x, read, rfl⟩
      exact .float (Text.trims_trimChars _) read
    · rintro (_ | ⟨trims, read⟩)
      exact ⟨_, Text.trimChars_of_trims trims ▸ read, rfl⟩
  | bool =>
    simp only [Kind.read, map_eq_ok_iff, readValue_eq_ok_iff, readBool?_eq_some_iff, Text.trimChars_eq_iff]
    constructor
    · rintro ⟨b, trims, rfl⟩
      exact .bool trims
    · rintro (_ | _ | trims)
      exact ⟨_, trims, rfl⟩
  | string =>
    rw [Kind.read, Except.ok.injEq]
    constructor
    · rintro rfl
      exact .string
    · rintro ⟨⟩
      rfl

private theorem splitBinding_eq_ok_iff {binding : String} :
    splitBinding binding = .ok (name, text) ↔ ∃ written, binding = written ++ "=" ++ text ∧ '=' ∉ written.toList ∧
      Text.Trims written.toList name.toList := by
  rw [splitBinding]
  constructor
  · intro found
    have whole := @List.takeWhile_append_dropWhile _ (· != '=') binding.toList
    have stops := List.head?_dropWhile_not (· != '=') binding.toList
    have behind := congrArg (List.drop (binding.toList.takeWhile (· != '=')).length) whole
    rw [List.drop_left] at behind
    rw [← behind] at found
    cases rest : binding.toList.dropWhile (· != '=') with
    | nil =>
      rw [rest] at found
      cases found
    | cons c value =>
      rw [rest] at found stops whole
      obtain rfl : c = '=' := by simpa using stops
      cases found
      refine ⟨String.ofList (binding.toList.takeWhile (· != '=')), ?_, ?_, ?_⟩
      · simp only [← String.toList_inj, String.toList_append, String.toList_ofList, List.append_assoc]
        exact whole.symm
      · rw [String.toList_ofList]
        exact fun mem => by cases List.mem_takeWhile_imp mem
      · rw [String.toList_ofList, String.toList_ofList]
        exact Text.trims_trimChars _
  · rintro ⟨written, rfl, free, trims⟩
    have chars : (written ++ "=" ++ text).toList = written.toList ++ '=' :: text.toList := by simp
    have plain : ∀ c ∈ written.toList, (c != '=') = true := fun c mem =>
      bne_iff_ne.mpr fun same => free (same ▸ mem)
    have before : (written.toList ++ '=' :: text.toList).takeWhile (· != '=') = written.toList := by
      rw [List.takeWhile_append_of_pos plain]
      simp
    simp only [chars, before, List.drop_left, Text.trimChars_of_trims trims, String.ofList_toList]

private theorem gives_iff : option.Gives name value ↔ ∃ text, splitBinding option.text = .ok (name, text) ∧
    Registry.checkName name = .ok () ∧ option.kind.read name text = .ok value := by
  simp only [BindingOption.Gives, splitBinding_eq_ok_iff, read_eq_ok_iff]
  constructor
  · rintro ⟨written, text, split, free, trims, valid, reads⟩
    exact ⟨text, ⟨written, split, free, trims⟩, valid, reads⟩
  · rintro ⟨text, ⟨written, split, free, trims⟩, valid, reads⟩
    exact ⟨written, text, split, free, trims, valid, reads⟩

/-- An option is for one name and one value. -/
private theorem gives_unique {name' : String} {value' : Value} (gives : option.Gives name value)
    (gives' : option.Gives name' value') : name = name' ∧ value = value' := by
  obtain ⟨text, split, -, read⟩ := gives_iff.mp gives
  obtain ⟨text', split', -, read'⟩ := gives_iff.mp gives'
  rw [split] at split'
  cases split'
  rw [read] at read'
  cases read'
  exact ⟨rfl, rfl⟩

end Reading

section Last

theorem exists_lastFor (some : ∃ option ∈ options, option.Names name) : ∃ option, LastFor options name option := by
  induction options with
  | nil =>
    obtain ⟨option, mem, -⟩ := some
    cases mem
  | cons first rest ih =>
    by_cases later : ∃ option ∈ rest, option.Names name
    · obtain ⟨option, before, after, rfl, names, last⟩ := ih later
      exact ⟨option, first :: before, after, rfl, names, last⟩
    · obtain ⟨option, mem, names⟩ := some
      rcases List.mem_cons.mp mem with rfl | mem
      · exact ⟨option, [], rest, rfl, names, fun later' mem names => later ⟨later', mem, names⟩⟩
      · exact absurd ⟨option, mem, names⟩ later

theorem lastFor_append : LastFor (options ++ more) name option ↔
    LastFor more name option ∨ (LastFor options name option ∧ ∀ later ∈ more, ¬ later.Names name) := by
  constructor
  · rintro ⟨before, after, split, names, last⟩
    rcases List.append_eq_append_iff.mp split with ⟨between, rfl, rfl⟩ | ⟨between, rfl, behind⟩
    · exact .inl ⟨between, after, rfl, names, last⟩
    · cases between with
      | nil => exact .inl ⟨[], after, behind.symm, names, last⟩
      | cons first between =>
        cases behind
        obtain ⟨last, none⟩ := List.forall_mem_append.mp last
        exact .inr ⟨⟨before, between, rfl, names, last⟩, none⟩
  · rintro (⟨before, after, rfl, names, last⟩ | ⟨⟨before, after, rfl, names, last⟩, none⟩)
    · exact ⟨options ++ before, after, (List.append_assoc ..).symm, names, last⟩
    · refine ⟨before, after ++ more, by simp, names, List.forall_mem_append.mpr ⟨last, none⟩⟩

theorem LastFor.mem (last : LastFor options name option) : option ∈ options ∧ option.Names name := by
  obtain ⟨before, after, rfl, names, -⟩ := last
  exact ⟨by simp, names⟩

theorem LastFor.filter (last : LastFor options name option) :
    LastFor (options.filter (·.kind = option.kind)) name option := by
  obtain ⟨before, after, rfl, names, last⟩ := last
  refine ⟨before.filter (·.kind = option.kind), after.filter (·.kind = option.kind), by simp, names,
    fun later mem => last later (List.mem_filter.mp mem).1⟩

/-- The order in which options are applied: kind by kind. -/
def applied (kinds : List Kind) (options : List BindingOption) : List BindingOption :=
  kinds.flatMap fun kind => options.filter (·.kind = kind)

theorem mem_applied {kinds : List Kind} : option ∈ applied kinds options ↔ option ∈ options ∧ option.kind ∈ kinds := by
  simp [applied, and_comm]

/-- The last option that is applied for a name is the last one of the latest kind. -/
theorem lastFor_applied {kinds : List Kind} (ordered : kinds.Pairwise fun one two => one.rank < two.rank) :
    LastFor (applied kinds options) name option ↔
      option.kind ∈ kinds ∧ LastFor (options.filter (·.kind = option.kind)) name option ∧
        ∀ other ∈ options, other.kind ∈ kinds → other.Names name → other.kind.rank ≤ option.kind.rank := by
  induction kinds with
  | nil =>
    refine ⟨fun last => ?_, nofun⟩
    cases last.mem.1
  | cons kind kinds ih =>
    obtain ⟨first, ordered⟩ := List.pairwise_cons.mp ordered
    have split : applied (kind :: kinds) options = options.filter (·.kind = kind) ++ applied kinds options := rfl
    rw [split, lastFor_append, ih ordered]
    -- The options of this kind come in front of all others, so they count only if those have none for the name.
    constructor
    · rintro (⟨isKind, last, latest⟩ | ⟨last, none⟩)
      · refine ⟨List.mem_cons_of_mem _ isKind, last, fun other mem isKind' names => ?_⟩
        rcases List.mem_cons.mp isKind' with same | isKind'
        · exact same ▸ (first _ isKind).le
        · exact latest other mem isKind' names
      · have isKind : option.kind = kind := by simpa using (List.mem_filter.mp last.mem.1).2
        subst isKind
        refine ⟨List.mem_cons_self, last, fun other mem isKind names => ?_⟩
        rcases List.mem_cons.mp isKind with same | isKind
        · rw [same]
        · exact absurd names (none other (mem_applied.mpr ⟨mem, isKind⟩))
    · rintro ⟨isKind, last, latest⟩
      rcases List.mem_cons.mp isKind with rfl | isKind
      · refine .inr ⟨last, fun later mem names => ?_⟩
        obtain ⟨mem, isKind⟩ := mem_applied.mp mem
        exact Nat.not_lt.mpr (latest later mem (List.mem_cons_of_mem _ isKind) names) (first _ isKind)
      · exact .inl ⟨isKind, last, fun other mem isKind => latest other mem (List.mem_cons_of_mem _ isKind)⟩

end Last

namespace Rebinds

theorem append {middle : Engine} (one : Rebinds before middle options) (two : Rebinds middle after more) :
    Rebinds before after (options ++ more) := by
  constructor
  · intro name option value last gives
    rcases lastFor_append.mp last with last | ⟨last, none⟩
    · exact two.last name option value last gives
    · rw [two.others name none]
      exact one.last name option value last gives
  · intro name none
    rw [List.forall_mem_append] at none
    rw [two.others name none.2, one.others name none.1]

theorem single {option : BindingOption} (gives : option.Gives name value)
    (bound : ∀ other, after.valueOf? other = if other = name then some value else before.valueOf? other) :
    Rebinds before after [option] := by
  constructor
  · intro other option' value' last gives'
    obtain rfl := List.mem_singleton.mp last.mem.1
    obtain ⟨rfl, rfl⟩ := gives_unique gives gives'
    rw [bound, if_pos rfl]
  · intro other none
    have differs : other ≠ name := by
      rintro rfl
      exact none option List.mem_cons_self ⟨value, gives⟩
    rw [bound, if_neg differs]

end Rebinds

section Binding

private theorem type_ne_void (reads : kind.Reads text value) : value.type ≠ .void := by
  cases reads <;> nofun

/-- The options of one kind are bound one after the other. -/
private theorem exists_bindEach (ofKind : ∀ option ∈ options, option.kind = kind)
    (valid : ∀ option ∈ options, ∃ name, option.Names name) (made : engine.CellsMade) :
    ∃ after, engine.run (bindEach kind.read (options.map (·.text))) = (.ok (), after) ∧ after.CellsMade ∧
      Rebinds engine after options := by
  induction options generalizing engine with
  | nil =>
    refine ⟨engine, rfl, made, fun name option value last => ?_, fun _ _ => rfl⟩
    cases last.mem.1
  | cons first rest ih =>
    obtain ⟨isKind, ofKind⟩ := List.forall_mem_cons.mp ofKind
    obtain ⟨⟨name, value, gives⟩, valid⟩ := List.forall_mem_cons.mp valid
    obtain ⟨text, split, accepted, read⟩ := gives_iff.mp gives
    obtain ⟨between, defined, made, bound⟩ :=
      Engine.exists_define accepted (type_ne_void (read_eq_ok_iff.mp read)) made
    obtain ⟨after, ran, made, rebinds⟩ := ih ofKind valid made
    refine ⟨after, ?_, made, (Rebinds.single gives bound).append rebinds⟩
    change engine.run ((bindEach.liftExcept (splitBinding first.text) >>= fun written =>
      bindEach.liftExcept (kind.read written.1 written.2) >>= fun value => Engine.define written.1 value) >>=
        fun _ => bindEach kind.read (rest.map (·.text))) = _
    rw [isKind] at read
    simp only [Engine.run_bind, split, read, bindEach.liftExcept, Engine.run_pure, defined]
    exact ran

/-- Valid options are bound kind by kind. -/
private theorem exists_apply (valid : ∀ option ∈ options, ∃ name, option.Names name) (made : engine.CellsMade) :
    ∃ after, engine.run (Bindings.none.adding options).apply = (.ok (), after) ∧
      Rebinds engine after (applied Kind.all options) := by
  have ofKind (kind : Kind) : ∀ option ∈ options.filter (·.kind = kind), option.kind = kind := fun option mem => by
    simpa using (List.mem_filter.mp mem).2
  have valid (kind : Kind) : ∀ option ∈ options.filter (·.kind = kind), ∃ name, option.Names name :=
    fun option mem => valid option (List.mem_filter.mp mem).1
  obtain ⟨ints, ranInts, made, bindsInts⟩ := exists_bindEach (ofKind .int) (valid .int) made
  obtain ⟨floats, ranFloats, made, bindsFloats⟩ := exists_bindEach (ofKind .float) (valid .float) made
  obtain ⟨bools, ranBools, made, bindsBools⟩ := exists_bindEach (ofKind .bool) (valid .bool) made
  obtain ⟨strings, ranStrings, -, bindsStrings⟩ := exists_bindEach (ofKind .string) (valid .string) made
  refine ⟨strings, ?_, ?_⟩
  · change engine.run (bindEach Kind.int.read (textsOf .int options) >>= fun _ =>
      bindEach Kind.float.read (textsOf .float options) >>= fun _ =>
      bindEach Kind.bool.read (textsOf .bool options) >>= fun _ =>
      bindEach Kind.string.read (textsOf .string options)) = _
    simp only [Engine.run_bind, textsOf, ranInts, ranFloats, ranBools, ranStrings]
  · have all := bindsInts.append (bindsFloats.append (bindsBools.append bindsStrings))
    simpa only [applied, Kind.all, List.flatMap_cons, List.flatMap_nil, List.append_nil] using all

/-- The option that decides about a name is the last one for it that is bound. -/
private theorem lastFor_all : LastFor (applied Kind.all options) name option ↔ Decides options name option := by
  have ordered : Kind.all.Pairwise fun one two => one.rank < two.rank := by decide
  rw [lastFor_applied ordered]
  constructor
  · rintro ⟨-, last, latest⟩
    exact ⟨last, fun other mem => latest other mem other.kind.mem_all⟩
  · rintro ⟨last, latest⟩
    exact ⟨option.kind.mem_all, last, fun other mem _ => latest other mem⟩

/-- One option decides about each name that there are options for. -/
theorem exists_decides (some : ∃ option ∈ options, option.Names name) : ∃ option, Decides options name option := by
  obtain ⟨option, mem, names⟩ := some
  obtain ⟨decisive, last⟩ := exists_lastFor ⟨option, mem_applied.mpr ⟨mem, option.kind.mem_all⟩, names⟩
  exact ⟨decisive, lastFor_all.mp last⟩

theorem Decides.mem (decides : Decides options name option) : option ∈ options ∧ option.Names name :=
  ⟨(List.mem_filter.mp decides.last.mem.1).1, decides.last.mem.2⟩

/-- Whatever line they come from, an engine can be made with valid options, and each name stands for what the option
that decides about it gives. -/
theorem exists_engine (valid : ∀ option ∈ options, ∃ name, option.Names name) :
    ∃ engine, (Bindings.none.adding options).engine = .ok engine ∧
      ∀ name value, engine.valueOf? name = some value ↔
        ∃ option, Decides options name option ∧ option.Gives name value := by
  obtain ⟨library, registered, made, unbound⟩ := Engine.exists_registerAll Engine.defaultPassLimit
  obtain ⟨engine, ran, rebinds⟩ := exists_apply valid made
  refine ⟨engine, ?_, fun name value => ⟨fun stands => ?_, fun ⟨option, decides, gives⟩ => ?_⟩⟩
  · rw [Bindings.engine, Engine.run_bind, registered]
    simp only [ran]
  · by_cases some : ∃ option ∈ options, option.Names name
    · obtain ⟨option, decides⟩ := exists_decides some
      obtain ⟨value', gives⟩ := decides.mem.2
      rw [rebinds.last name option value' (lastFor_all.mpr decides) gives] at stands
      cases stands
      exact ⟨option, decides, gives⟩
    · have none : ∀ option ∈ applied Kind.all options, ¬ option.Names name := fun option mem names =>
        some ⟨option, (mem_applied.mp mem).1, names⟩
      rw [rebinds.others name none, unbound] at stands
      cases stands
  · exact rebinds.last name option value (lastFor_all.mpr decides) gives

end Binding

/-- The text of a valid option is no option itself, since a name does not begin with a dash. -/
private theorem isOption_text (names : option.Names name) : isOption option.text = false := by
  obtain ⟨value, written, text, split, -, trims, valid, -⟩ := names
  obtain ⟨before, after, blank, -, chars⟩ := trims.around
  have isWord := (readsAsName_iff.mp (Registry.checkName_ok_iff.mp valid)).1
  have first : ∃ c rest, option.text.toList = c :: rest ∧ c ≠ '-' := by
    rw [split, String.toList_append, String.toList_append, chars]
    cases before with
    | cons c before =>
      refine ⟨c, _, rfl, ?_⟩
      rintro rfl
      cases blank _ List.mem_cons_self
    | nil =>
      cases word : name.toList with
      | nil => simp [Identifier.isIdentifier, Identifier.matchesAll, word] at isWord
      | cons c cs =>
        rw [Identifier.isIdentifier, word] at isWord
        refine ⟨c, _, rfl, ?_⟩
        rintro rfl
        cases (Lexeme.word_cons.mp isWord).1
  obtain ⟨c, rest, begins, noDash⟩ := first
  rw [isOption, startsWith_eq, begins]
  simp [List.isPrefixOf, Ne.symm noDash]

private theorem regular_of_valid {line : List Part} (valid : ∀ option ∈ optionsOf line, ∃ name, option.Names name)
    (others : ∀ argument ∈ othersOf line, FlagOrOperand argument) : ∀ part ∈ line, part.Regular := by
  intro part mem
  cases part with
  | joined option => trivial
  | apart option =>
    obtain ⟨name, names⟩ := valid option (List.mem_filterMap.mpr ⟨_, mem, rfl⟩)
    exact isOption_text names
  | other argument => exact others argument (List.mem_filterMap.mpr ⟨_, mem, rfl⟩)

/-- Values of different kinds differ. -/
private theorem kind_eq {other : BindingOption} (gives : option.Gives name value) (gives' : other.Gives name value) :
    option.kind = other.kind := by
  obtain ⟨-, text, -, -, -, -, reads⟩ := gives
  obtain ⟨-, text', -, -, -, -, reads'⟩ := gives'
  generalize option.kind = kind at *
  generalize other.kind = kind' at *
  cases reads <;> cases reads' <;> rfl

/-- Wherever valid options for bindings stand on a line that runs a command, they all come to be bound, and nothing else
does. A name stands for what the last option of the latest kind gives, which is what the last option of the line for
it gives exactly if no option for it is of a later kind than that one. -/
theorem variables_of_line (plain : Bool) (command : CommandName) (line : List Part) (tail : List String)
    (request : Request) (others : ∀ argument ∈ othersOf line, FlagOrOperand argument) (operands : Operands tail)
    (accepted : readRequest (commandLine plain command (othersOf line ++ tail)) = some request)
    (valid : ∀ option ∈ optionsOf line, ∃ name, option.Names name) :
    ∃ bindings engine,
      readRequest (commandLine plain command (line.flatMap Part.arguments ++ tail)) =
          some (request.withBindings bindings) ∧
        (request.withBindings bindings).bindings? = some bindings ∧ bindings.engine = .ok engine ∧
        (∀ name value, engine.valueOf? name = some value ↔
          ∃ option, Decides (optionsOf line) name option ∧ option.Gives name value) ∧
        (∀ name, engine.valueOf? name = none ↔ ∀ option ∈ optionsOf line, ¬ option.Names name) ∧
        ∀ name option value, LastFor (optionsOf line) name option → option.Gives name value →
          (engine.valueOf? name = some value ↔
            ∀ other ∈ optionsOf line, other.Names name → other.kind.rank ≤ option.kind.rank) := by
  obtain ⟨read, runs⟩ := readRequest_line (regular_of_valid valid others) operands accepted
  obtain ⟨engine, made, stands⟩ := exists_engine valid
  refine ⟨_, engine, read, runs, made, stands, fun name => ⟨fun unbound option mem names => ?_, fun none => ?_⟩,
    fun name option value last gives => ⟨fun bound => ?_, fun latest => ?_⟩⟩
  · obtain ⟨decisive, decides⟩ := exists_decides ⟨option, mem, names⟩
    obtain ⟨value, gives⟩ := decides.mem.2
    rw [(stands name value).mpr ⟨decisive, decides, gives⟩] at unbound
    cases unbound
  · refine Option.eq_none_iff_forall_ne_some.mpr fun value bound => ?_
    obtain ⟨option, decides, -⟩ := (stands name value).mp bound
    exact none option decides.mem.1 decides.mem.2
  · obtain ⟨decisive, decides, gives'⟩ := (stands name value).mp bound
    exact kind_eq gives gives' ▸ decides.latest
  · exact (stands name value).mpr ⟨option, ⟨last.filter, latest⟩, gives⟩

section Samples

private theorem gives_one : BindingOption.Gives ⟨.int, "x=1"⟩ "x" (.int 1) :=
  ⟨"x", "1", rfl, by decide, Text.trimChars_eq_iff.mp rfl, by decide, .int (Value.spells_iff.mpr rfl)⟩

private theorem gives_two : BindingOption.Gives ⟨.int, " x = 2 "⟩ "x" (.int 2) :=
  ⟨" x ", " 2 ", rfl, by decide, Text.trimChars_eq_iff.mp rfl, by decide, .int (Value.spells_iff.mpr rfl)⟩

private theorem gives_text : BindingOption.Gives ⟨.string, "x=a"⟩ "x" (.string "a") :=
  ⟨"x", "a", rfl, by decide, Text.trimChars_eq_iff.mp rfl, by decide, .string⟩

private theorem accepted_operand : readRequest (commandLine false .evaluate ["x"]) =
    some (.evaluate ⟨"x", .none, false, false⟩ false) := by
  rw [readRequest_commandLine]
  simp only [readCommand, readArguments, readArgument, isOption, startsWith_eq]
  rfl

private theorem operand : ∀ argument ∈ ["x"], FlagOrOperand argument := by
  simp [FlagOrOperand, isOption, startsWith_eq]

/-- Of two integers for a name the second one is bound, and no other name is. -/
theorem variables_of_line_two :
    ∃ bindings engine, readRequest ["eval", "--int", "x=1", "x", "--int= x = 2 "] =
        some (.evaluate ⟨"x", bindings, false, false⟩ false) ∧
      bindings.engine = .ok engine ∧ engine.valueOf? "x" = some (.int 2) ∧ engine.valueOf? "y" = none := by
  have valid : ∀ option ∈ [⟨.int, "x=1"⟩, ⟨.int, " x = 2 "⟩], ∃ name, BindingOption.Names option name := by
    simp only [List.forall_mem_cons]
    exact ⟨⟨_, _, gives_one⟩, ⟨_, _, gives_two⟩, nofun⟩
  obtain ⟨bindings, engine, read, -, made, -, unbound, last⟩ :=
    variables_of_line false .evaluate [.apart ⟨.int, "x=1"⟩, .other "x", .joined ⟨.int, " x = 2 "⟩] [] _ operand
      (.inl rfl) accepted_operand valid
  refine ⟨bindings, engine, read, made, ?_, (unbound "y").mpr ?_⟩
  · have isLast : LastFor [⟨.int, "x=1"⟩, ⟨.int, " x = 2 "⟩] "x" ⟨.int, " x = 2 "⟩ :=
      ⟨[⟨.int, "x=1"⟩], [], rfl, ⟨_, gives_two⟩, nofun⟩
    refine (last _ _ _ isLast gives_two).mpr ?_
    exact List.forall_mem_cons.mpr ⟨fun _ => Nat.le_refl _, List.forall_mem_singleton.mpr fun _ => Nat.le_refl _⟩
  · refine List.forall_mem_cons.mpr ⟨fun ⟨value, gives⟩ => ?_, List.forall_mem_singleton.mpr fun ⟨value, gives⟩ => ?_⟩
    · exact absurd (gives_unique gives gives_one).1 (by decide)
    · exact absurd (gives_unique gives gives_two).1 (by decide)

/-- A text stays bound although an integer for the same name comes behind it, as the last option of the line. -/
theorem earlier_text_stays :
    ∃ bindings engine, readRequest ["eval", "x", "--str", "x=a", "--int", "x=1"] =
        some (.evaluate ⟨"x", bindings, false, false⟩ false) ∧
      bindings.engine = .ok engine ∧ LastFor [⟨.string, "x=a"⟩, ⟨.int, "x=1"⟩] "x" ⟨.int, "x=1"⟩ ∧
      BindingOption.Gives ⟨.int, "x=1"⟩ "x" (.int 1) ∧ engine.valueOf? "x" = some (.string "a") := by
  have valid : ∀ option ∈ [⟨.string, "x=a"⟩, ⟨.int, "x=1"⟩], ∃ name, BindingOption.Names option name := by
    simp only [List.forall_mem_cons]
    exact ⟨⟨_, _, gives_text⟩, ⟨_, _, gives_one⟩, nofun⟩
  have regular := @regular_of_valid [.other "x", .apart ⟨.string, "x=a"⟩, .apart ⟨.int, "x=1"⟩] valid operand
  obtain ⟨read, -⟩ := readRequest_line regular (.inl rfl) accepted_operand
  obtain ⟨engine, made, stands⟩ := exists_engine valid
  refine ⟨_, engine, read, made, ⟨[⟨.string, "x=a"⟩], [], rfl, ⟨_, gives_one⟩, nofun⟩, gives_one, ?_⟩
  refine (stands _ _).mpr ⟨⟨.string, "x=a"⟩, ⟨⟨[], [], rfl, ⟨_, gives_text⟩, nofun⟩, ?_⟩, gives_text⟩
  simp [Kind.rank]

end Samples

end Reckoner.Command
