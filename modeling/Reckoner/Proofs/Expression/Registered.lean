import Reckoner.Proofs.Engine.History
import Reckoner.Proofs.Lexeme.Classified
import Reckoner.Proofs.Lexeme.Front
import Reckoner.Proofs.Lexeme.Names
import Reckoner.Proofs.Tree.Shape

/-!
Names that can be registered. They are the texts that are read as one name and nothing else, and a name that
is bound to a cell is, as a source, the variable that always has the value of this cell.
-/
namespace Reckoner

open Lexeme

/-- The text is read as one lexeme, which has all of the text and still has to be looked up. -/
def ReadsAsName (text : String) : Prop :=
  ∃ lexeme, tokenize text = .ok [lexeme] ∧ lexeme.kind = .unresolved ∧ lexeme.text = text

variable {registry bound : Registry} {name : String} {cell : Cell} {function : HostFunction}

section Reading

/-- An identifier is one piece, and nothing of it is left out. -/
private theorem tokenize_word (isWord : Identifier.isIdentifier name = true) :
    tokenize name = .ok [⟨name, ⟨0, Span.bytes name.toList⟩, 0, kindOf name.toList⟩] := by
  have munches : Munches (name.toList ++ []) name.toList := munches_word isWord rfl
  rw [List.append_nil] at munches
  refine tokenize_piece munches (Word.not_tooLarge isWord) fun nul => ?_
  cases Word.isContinue isWord _ nul

/-- The validator of names and the scanner of sources agree on what a name is. -/
theorem readsAsName_iff :
    ReadsAsName name ↔ Identifier.isIdentifier name = true ∧ name ≠ "true" ∧ name ≠ "false" := by
  have isName (lexeme : Lexeme) (read : tokenize name = .ok [lexeme]) :
      lexeme.kind = .unresolved ↔ lexeme.isName = true :=
    unresolved_iff_isName read lexeme List.mem_cons_self
  constructor
  · rintro ⟨lexeme, read, unresolved, rfl⟩
    simpa [Lexeme.isName, and_assoc] using (isName lexeme read).mp unresolved
  · rintro ⟨isWord, notTrue, notFalse⟩
    have read := tokenize_word isWord
    exact ⟨_, read, (isName _ read).mpr (by simp [Lexeme.isName, isWord, notTrue, notFalse]), rfl⟩

/-- The one lexeme of a name. -/
private theorem tokenize_name (reads : ReadsAsName name) :
    tokenize name = .ok [⟨name, ⟨0, Span.bytes name.toList⟩, 0, .unresolved⟩] := by
  have read := tokenize_word (readsAsName_iff.mp reads).1
  obtain ⟨lexeme, same, unresolved, -⟩ := reads
  rw [same] at read
  cases read
  change kindOf name.toList = .unresolved at unresolved
  rw [same, unresolved]

end Reading

section Registering

theorem Registry.checkName_ok_iff : checkName name = .ok () ↔ ReadsAsName name := by
  rw [readsAsName_iff]
  unfold checkName
  cases Identifier.isIdentifier name <;> simp [throw, throwThe, MonadExceptOf.throw, pure, Except.pure]

theorem Registry.addVariable_ok_iff :
    registry.addVariable name cell = .ok bound ↔
      ReadsAsName name ∧ bound = { registry with cells := registry.cells.insert name cell } := by
  rw [← checkName_ok_iff, addVariable]
  cases checkName name <;> simp [bind, Except.bind, pure, Except.pure, eq_comm]

theorem Registry.addFunction_ok_iff :
    registry.addFunction name function = .ok bound ↔
      ReadsAsName name ∧ bound = { registry with functions := registry.functions.insert name function } := by
  rw [← checkName_ok_iff, addFunction]
  cases checkName name <;> simp [bind, Except.bind, pure, Except.pure, eq_comm]

/-- Binding a name to a cell changes the registry only, and that only if the name is accepted. -/
theorem Engine.run_addVariable (engine : Engine) :
    engine.run (addVariable name cell) =
      match engine.registry.addVariable name cell with
      | .ok registry => (.ok (), { engine with registry := registry })
      | .error error => (.error (.ofNameError error), engine) := by
  simp only [addVariable, run_bind, run_get]
  cases engine.registry.addVariable name cell <;> rfl

/-- Binding a name to a function changes the registry only, and that only if the name is accepted. -/
theorem Engine.run_addFunction (engine : Engine) :
    engine.run (addFunction name function) =
      match engine.registry.addFunction name function with
      | .ok registry => (.ok (), { engine with registry := registry })
      | .error error => (.error (.ofNameError error), engine) := by
  simp only [addFunction, run_bind, run_get]
  cases engine.registry.addFunction name function <;> rfl

end Registering

section Compiling

/-- The expression that is a variable and nothing else. -/
def Expression.ofVariable (name : String) (cell : Cell) : Expression :=
  let place : Span := ⟨0, Span.bytes name.toList⟩
  let leaf : Node := { Node.alone (.variable name) place (.aliased cell) with parent := some 1 }
  let root : Node := { Node.alone .root place (.owned .void) with children := [0], type := cell.type }
  ⟨name, ⟨#[leaf, root], some 1⟩, [0, 1]⟩

theorem Expression.shape?_ofVariable : (ofVariable name cell).tree.shape? = some (.variable name) :=
  rfl

/-- A name that is bound to a cell is classified as a variable. -/
private theorem classify_name {place : Span} (isWord : Identifier.isIdentifier name = true)
    (held : registry.cellOf? name = some cell) :
    classify registry [⟨name, place, 0, .unresolved⟩] = .ok [⟨name, place, 0, .variable cell⟩] := by
  have noSymbol : Operator.ofSymbol? name = none := by
    rw [← String.ofList_toList (s := name)]
    cases split : name.toList with
    | nil => simp [Identifier.isIdentifier, Identifier.matchesAll, split] at isWord
    | cons c cs =>
      rw [Identifier.isIdentifier, split] at isWord
      exact ofSymbol?_of_isStart (word_cons.mp isWord).1
  have resolved : resolve registry ⟨name, place, 0, .unresolved⟩ false = .ok (.variable cell) := by
    simp only [resolve, noSymbol, held, Bool.false_eq_true, if_false]
  simp only [classify, resolveNames, List.head?_nil, Option.any_none, resolved]
  rfl

/-- With at least one pass a name that is bound to a cell compiles to its variable. -/
theorem compile_name (reads : ReadsAsName name) (held : registry.cellOf? name = some cell) (passes : Nat) :
    Expression.compile registry (passes + 1) name = .ok (.ofVariable name cell) := by
  have isWord := (readsAsName_iff.mp reads).1
  simp only [Expression.compile, Expression.compileTree, Expression.parse, tokenize_name reads,
    classify_name isWord held, bind, Except.bind]
  -- Nothing is left for the second pass, whether or not there may be one.
  cases passes <;> rfl

/-- The variable has the value that its cell holds now, and is the same expression afterwards. -/
theorem evaluate_ofVariable (held : registry.cellOf? name = some cell) (host : Host) :
    (Expression.ofVariable name cell).evaluate registry host =
      (.ok (host.heap.read cell), .ofVariable name cell, host) := by
  have first : (Tree.slotOf registry (Expression.ofVariable name cell).tree 0).on host =
      (.ok (.aliased cell), host) := by
    change (Tree.variableSlot registry name cell.type).on host = _
    simp only [Tree.variableSlot, held, if_true]
    rfl
  simp only [Expression.evaluate, Tree.evaluate, Expression.ofVariable, Tree.fillSlots] at first ⊢
  simp only [first]
  rfl

end Compiling

/-- Given any pass at all, the name alone compiles to its variable, which always has the value that the cell holds
at the time. -/
def Registry.Denotes (registry : Registry) (name : String) (cell : Cell) : Prop :=
  ∀ passes, ∃ expression, Expression.compile registry (passes + 1) name = .ok expression ∧
    expression.tree.shape? = some (.variable name) ∧
    ∀ host, expression.evaluate registry host = (.ok (host.heap.read cell), expression, host)

/-- A name that was bound to a cell is read, built and looked up as the variable with this cell. -/
theorem denotes_of_addVariable (added : registry.addVariable name cell = .ok bound) : bound.Denotes name cell := by
  obtain ⟨reads, rfl⟩ := Registry.addVariable_ok_iff.mp added
  have held : ({ registry with cells := registry.cells.insert name cell } : Registry).cellOf? name = some cell :=
    (Names.find?_insert ..).trans (if_pos rfl)
  exact fun passes => ⟨_, compile_name reads held passes, Expression.shape?_ofVariable, evaluate_ofVariable held⟩

/-- The names that variables and functions can be registered with are the texts that are read as one name. With
any other nothing is changed, and a name that is bound to a cell stands for its variable. -/
theorem registrable_names_are_read (engine : Engine) (name : String) (cell : Cell) (function : HostFunction) :
    ((∃ bound, engine.registry.addVariable name cell = .ok bound) ↔ ReadsAsName name) ∧
    ((∃ bound, engine.registry.addFunction name function = .ok bound) ↔ ReadsAsName name) ∧
    (¬ ReadsAsName name →
      (∃ failure, engine.run (Engine.addVariable name cell) = (.error failure, engine)) ∧
      ∃ failure, engine.run (Engine.addFunction name function) = (.error failure, engine)) ∧
    ∀ bound, engine.registry.addVariable name cell = .ok bound →
      engine.run (Engine.addVariable name cell) = (.ok (), { engine with registry := bound }) ∧
      bound.Denotes name cell := by
  refine ⟨by simp [Registry.addVariable_ok_iff], by simp [Registry.addFunction_ok_iff], fun refused => ⟨?_, ?_⟩,
    fun bound added => ⟨by rw [Engine.run_addVariable, added], denotes_of_addVariable added⟩⟩
  · rw [Engine.run_addVariable]
    cases added : engine.registry.addVariable name cell with
    | ok bound => exact absurd (Registry.addVariable_ok_iff.mp added).1 refused
    | error error => exact ⟨_, rfl⟩
  · rw [Engine.run_addFunction]
    cases added : engine.registry.addFunction name function with
    | ok bound => exact absurd (Registry.addFunction_ok_iff.mp added).1 refused
    | error error => exact ⟨_, rfl⟩

/-- One name that can be registered, and one text that only begins with it. -/
theorem registrable_names_are_read_x :
    (∃ bound, Registry.empty.addVariable "x" (.int 0) = .ok bound ∧ bound.Denotes "x" (.int 0)) ∧
      ¬ ReadsAsName "x\x00" ∧
      ∃ failure, Engine.run default (Engine.addVariable "x\x00" (.int 0)) = (.error failure, default) := by
  have function : HostFunction := ⟨.void, [], fun _ => return .void⟩
  obtain ⟨added, -, -, known⟩ := registrable_names_are_read default "x" (.int 0) function
  obtain ⟨-, -, refused, -⟩ := registrable_names_are_read default "x\x00" (.int 0) function
  obtain ⟨bound, isBound⟩ := added.mpr (readsAsName_iff.mpr (by decide))
  have unread : ¬ ReadsAsName "x\x00" := fun reads => absurd (readsAsName_iff.mp reads) (by decide)
  exact ⟨⟨bound, isBound, (known bound isBound).2⟩, unread, (refused unread).1⟩

end Reckoner
