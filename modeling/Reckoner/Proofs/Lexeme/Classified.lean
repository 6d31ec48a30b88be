import Reckoner.Proofs.Lexeme.Balance
import Reckoner.Proofs.Lexeme.Kind
import Reckoner.Proofs.Lexeme.Picks
import Reckoner.Proofs.Operator.Families
import Reckoner.Proofs.Strict.Classifying

/-!
What classifying makes of the lexemes of a source, and when it goes through. Its three sweeps depend on each other:
a step operator looks for the variables among the names, and a sign looks for the step operators that have got the
side behind their variable. Here the lexemes that come out are told from those that go in.
-/
namespace Reckoner.Lexeme

/-- An identifier that is no word for a truth value. -/
def isName (lexeme : Lexeme) : Bool :=
  Identifier.isIdentifier lexeme.text && lexeme.text != "true" && lexeme.text != "false"

/-- There is a name that is directly followed by an opening parenthesis. -/
def calledAt (lexemes : List Lexeme) (i : Nat) : Bool :=
  lexemes[i]?.any isName && lexemes[i + 1]?.any opensGroup

/-- There is a name that is not directly followed by an opening parenthesis. -/
def variableAt (lexemes : List Lexeme) (i : Nat) : Bool :=
  lexemes[i]?.any isName && !lexemes[i + 1]?.any opensGroup

/-- The lexeme directly in front of an index, or else the given one. -/
def before (first : Option Lexeme) (lexemes : List Lexeme) : Nat → Option Lexeme
  | 0 => first
  | i + 1 => lexemes[i]?

/-- There is such a name directly in front. -/
def variableBefore (lexemes : List Lexeme) : Nat → Bool
  | 0 => false
  | i + 1 => variableAt lexemes i

/-- A constant, a variable, a closing parenthesis or a step operator behind its variable. -/
def endsValue (lexeme : Lexeme) : Bool :=
  match lexeme.kind with
  | .constant _ | .variable _ => true
  | .operator occurrence =>
    occurrence.operator == .closeGroup || (occurrence.operator.isStep && occurrence.form.trailing)
  | .unresolved | .function => false

/-- The parentheses match, the registry has the functions that are called and the variables, and each step operator
has a variable beside it. -/
structure Classifiable (registry : Registry) (lexemes : List Lexeme) : Prop where
  balanced : Balanced lexemes
  functions : ∀ i lexeme, lexemes[i]? = some lexeme → calledAt lexemes i = true →
    (registry.function? lexeme.text).isSome = true
  cells : ∀ i lexeme, lexemes[i]? = some lexeme → variableAt lexemes i = true →
    (registry.cellOf? lexeme.text).isSome = true
  steps : ∀ i lexeme occurrence, lexemes[i]? = some lexeme → lexeme.kind = .operator occurrence →
    occurrence.operator.isStep = true → variableAt lexemes (i + 1) = true ∨ variableBefore lexemes i = true

/-- What classifying makes of the lexeme `old` at an index. -/
structure ClassifiedAt (registry : Registry) (lexemes classified : List Lexeme) (i : Nat) (old new : Lexeme) :
    Prop where
  /-- The text, the place and the rank stay. -/
  kept : new = { old with kind := new.kind }
  resolved : new.kind ≠ .unresolved
  function : new.kind = .function ↔ calledAt lexemes i = true
  isVariable : new.isLvalue = true ↔ variableAt lexemes i = true
  /-- This is the cell of the registry, also if a function has the same name. -/
  cell : ∀ cell, new.kind = .variable cell → registry.cellOf? old.text = some cell
  /-- A step operator belongs to the variable after it if there is one, and else to the one before it. -/
  step : ∀ occurrence, old.kind = .operator occurrence → occurrence.operator.isStep = true →
    new.kind = .operator ⟨occurrence.operator,
      if variableAt lexemes (i + 1) then ⟨false, true, false, true⟩ else ⟨false, false, true, true⟩, 15, .right⟩
  /-- A sign is binary just behind something with a value. -/
  sign : ∀ occurrence, old.kind = .operator occurrence → occurrence.operator.isSign = true →
    new.kind = .operator (if (before none classified i).any endsValue then .ofOperator occurrence.operator
      else ⟨occurrence.operator, ⟨false, true, false, false⟩, 15, .right⟩)
  other : old.isName = false → (∀ occurrence, old.kind = .operator occurrence →
    occurrence.operator.isStep = false ∧ occurrence.operator.isSign = false) → new = old

/-- What classifying makes of lexemes. -/
structure Classification (registry : Registry) (lexemes classified : List Lexeme) : Prop where
  length : classified.length = lexemes.length
  each : ∀ i old new, lexemes[i]? = some old → classified[i]? = some new →
    ClassifiedAt registry lexemes classified i old new

variable {registry : Registry} {source : String} {lexeme new : Lexeme} {previous next : Option Lexeme}
  {lexemes changed classified : List Lexeme}

section Names

/-- What is read is a name just if it still has to be looked up. -/
private theorem unresolved_iff_of_front {c : Char} {cs : List Char} {found : Front}
    (isFront : front c cs = .ok found) :
    found.kind = .unresolved ↔ Identifier.matchesAll (c :: cs.take found.more) = true ∧
      String.ofList (c :: cs.take found.more) ≠ "true" ∧ String.ofList (c :: cs.take found.more) ≠ "false" := by
  have noWord (notStart : ¬ Identifier.isStart c = true) (more : List Char) :
      ¬ Identifier.matchesAll (c :: more) = true := fun word => notStart (word_cons.mp word).1
  have kind := kind_of_front isFront
  cases finds_of_front isFront with
  | @symbol op longest =>
    have isSymbol := symbol_of_kindOf kind.symm
    refine ⟨nofun, fun name => ?_⟩
    have none := @ofSymbol?_of_isStart c (cs.take (op.symbol.length - 1)) (word_cons.mp name.1).1
    rw [isSymbol, Operator.ofSymbol?_symbol] at none
    cases none
  | identifier _ start =>
    have tail : cs.take (cs.takeWhile Identifier.isContinue).length = cs.takeWhile Identifier.isContinue :=
      (List.prefix_iff_eq_take.mp (List.takeWhile_prefix _)).symm
    have word : Identifier.matchesAll (c :: cs.takeWhile Identifier.isContinue) = true :=
      word_cons.mpr ⟨start, fun d mem => List.mem_takeWhile_imp mem⟩
    simp only [identifierAtFront, wordKind, tail, word, true_and, beq_iff_eq]
    split
    · simp_all
    · split <;> simp_all
  | text _ notStart | numeral _ notStart =>
    refine ⟨fun unresolved => ?_, fun name => absurd name.1 (noWord notStart _)⟩
    cases unresolved

theorem unresolved_iff_isName {offset position : Nat} {cs : List Char} (h : scan offset position cs = .ok lexemes) :
    ∀ lexeme ∈ lexemes, lexeme.kind = .unresolved ↔ lexeme.isName = true := by
  fun_induction scan offset position cs generalizing lexemes with
  | case1 =>
    cases h
    simp
  | case2 _ _ _ _ _ ih => exact ih h
  | case3 | case5 => cases h
  | case4 offset position c cs _ found isFront text stop lexeme rest ran =>
    rename_i ih
    cases h
    refine List.forall_mem_cons.mpr ⟨(unresolved_iff_of_front isFront).trans ?_, ih ran⟩
    simp [isName, Identifier.isIdentifier, lexeme, text, and_assoc]

end Names

section Sweeps

variable {change : Option Lexeme → Lexeme → Option Lexeme → Except CompileError Lexeme}

theorem length_of_sweep (h : sweep change previous lexemes = .ok changed) : changed.length = lexemes.length := by
  induction lexemes generalizing previous changed with
  | nil =>
    cases h
    rfl
  | cons first rest ih =>
    obtain ⟨new, -, h⟩ := bind_eq_ok.mp h
    obtain ⟨others, later, h⟩ := bind_eq_ok.mp h
    cases h
    exact congrArg (· + 1) (ih later)

/-- A sweep changes each lexeme, given the one in front as changed and the next one. -/
theorem change_of_sweep (h : sweep change previous lexemes = .ok changed) {i : Nat}
    (here : lexemes[i]? = some lexeme) (there : changed[i]? = some new) :
    change (before previous changed i) lexeme lexemes[i + 1]? = .ok new := by
  induction lexemes generalizing previous changed i with
  | nil => cases here
  | cons first rest ih =>
    obtain ⟨first', ran, h⟩ := bind_eq_ok.mp h
    obtain ⟨others, later, h⟩ := bind_eq_ok.mp h
    cases h
    cases i with
    | zero =>
      cases here
      cases there
      rwa [List.head?_eq_getElem?] at ran
    | succ i =>
      have kept := ih later here there
      cases i <;> exact kept

/-- A lexeme that comes out of a sweep has one that went in. -/
theorem exists_of_sweep (h : sweep change previous lexemes = .ok changed) {i : Nat} (there : changed[i]? = some new) :
    ∃ lexeme, lexemes[i]? = some lexeme ∧ change (before previous changed i) lexeme lexemes[i + 1]? = .ok new := by
  obtain ⟨inside, -⟩ := List.getElem?_eq_some_iff.mp there
  rw [length_of_sweep h] at inside
  have here := List.getElem?_eq_getElem inside
  exact ⟨lexemes[i], here, change_of_sweep h here there⟩

/-- A lexeme that goes into a sweep comes out of it. -/
theorem exists_in_sweep (h : sweep change previous lexemes = .ok changed) {i : Nat}
    (here : lexemes[i]? = some lexeme) :
    ∃ new, changed[i]? = some new ∧ change (before previous changed i) lexeme lexemes[i + 1]? = .ok new := by
  obtain ⟨inside, -⟩ := List.getElem?_eq_some_iff.mp here
  rw [← length_of_sweep h] at inside
  have there := List.getElem?_eq_getElem inside
  exact ⟨changed[i], there, change_of_sweep h here there⟩

/-- A sweep goes through if each change does, whatever the one in front has become. -/
theorem exists_sweep (agrees : Option Lexeme → Option Lexeme → Prop) (start : agrees previous next)
    (each : ∀ i lexeme previous, lexemes[i]? = some lexeme → agrees previous (before next lexemes i) →
      ∃ new, change previous lexeme lexemes[i + 1]? = .ok new ∧ agrees (some new) (some lexeme)) :
    ∃ changed, sweep change previous lexemes = .ok changed := by
  induction lexemes generalizing previous next with
  | nil => exact ⟨[], rfl⟩
  | cons first rest ih =>
    obtain ⟨new, here, agree⟩ := each 0 first previous rfl start
    obtain ⟨others, later⟩ := @ih (some new) (some first) agree fun i lexeme previous isLexeme front =>
      each (i + 1) lexeme previous isLexeme (by cases i <;> exact front)
    rw [List.getElem?_cons_succ, ← List.head?_eq_getElem?] at here
    exact ⟨new :: others, bind_eq_ok.mpr ⟨new, here, bind_eq_ok.mpr ⟨others, later, rfl⟩⟩⟩

end Sweeps

section Changes

/-- What a lexeme is when it is read. -/
structure IsRead (lexeme : Lexeme) : Prop where
  raw : Raw lexeme.kind
  unresolved : lexeme.kind = .unresolved ↔ lexeme.isName = true
  symbol : lexeme.kind = .unresolved → Operator.ofSymbol? lexeme.text = none

theorem isRead_of_tokenize (read : tokenize source = .ok lexemes) : ∀ lexeme ∈ lexemes, lexeme.IsRead :=
  fun lexeme mem => ⟨raw_of_scan read lexeme mem, unresolved_iff_isName read lexeme mem,
    (scan_ranked read).2.2 lexeme mem⟩

/-- What looking up the names makes of a lexeme in front of `next`. -/
inductive TakesName (registry : Registry) (lexeme : Lexeme) (next : Option Lexeme) : Lexeme → Prop where
  | called (name : lexeme.isName = true) (called : next.any opensGroup = true)
      (known : (registry.function? lexeme.text).isSome = true) :
      TakesName registry lexeme next { lexeme with kind := .function }
  | cell {cell : Cell} (name : lexeme.isName = true) (alone : next.any opensGroup = false)
      (known : registry.cellOf? lexeme.text = some cell) :
      TakesName registry lexeme next { lexeme with kind := .variable cell }
  | other (other : lexeme.isName = false) : TakesName registry lexeme next lexeme

/-- What giving the step operators their sides makes of a lexeme between two others. -/
inductive TakesSide (previous : Option Lexeme) (lexeme : Lexeme) (next : Option Lexeme) : Lexeme → Prop where
  | leads {occurrence : Occurrence} (kind : lexeme.kind = .operator occurrence)
      (isStep : occurrence.operator.isStep = true) (lvalue : next.any isLvalue = true) :
      TakesSide previous lexeme next
        { lexeme with kind := .operator ⟨occurrence.operator, ⟨false, true, false, true⟩, 15, .right⟩ }
  | trails {occurrence : Occurrence} (kind : lexeme.kind = .operator occurrence)
      (isStep : occurrence.operator.isStep = true) (noLvalue : next.any isLvalue = false)
      (lvalue : previous.any isLvalue = true) :
      TakesSide previous lexeme next
        { lexeme with kind := .operator ⟨occurrence.operator, ⟨false, false, true, true⟩, 15, .right⟩ }
  | other (other : ∀ occurrence, lexeme.kind = .operator occurrence → occurrence.operator.isStep = false) :
      TakesSide previous lexeme next lexeme

/-- What settling the signs makes of a lexeme behind `previous`. -/
inductive TakesSign (previous : Option Lexeme) (lexeme : Lexeme) : Lexeme → Prop where
  | binary {op : Operator} (kind : lexeme.kind = .operator (.ofOperator op)) (isSign : op.isSign = true)
      (operand : previous.any endsOperand = true) : TakesSign previous lexeme lexeme
  | unary {op : Operator} (kind : lexeme.kind = .operator (.ofOperator op)) (isSign : op.isSign = true)
      (noOperand : previous.any endsOperand = false) :
      TakesSign previous lexeme { lexeme with kind := .operator ⟨op, ⟨false, true, false, false⟩, 15, .right⟩ }
  | other (other : ∀ occurrence, lexeme.kind = .operator occurrence → occurrence.operator.isSign = false) :
      TakesSign previous lexeme lexeme

theorem resolveName_iff (read : lexeme.IsRead) :
    resolveName registry previous lexeme next = .ok new ↔ TakesName registry lexeme next new := by
  constructor
  · intro h
    unfold resolveName at h
    split at h
    · next unresolved =>
      have name := read.unresolved.mp unresolved
      simp only [resolve, read.symbol unresolved, bind, Except.bind] at h
      split at h
      · cases h
      next kind looked =>
      cases h
      split at looked
      · next called =>
        split at looked
        · next known =>
          cases looked
          exact .called name called known
        · split at looked <;> cases looked
      · next alone =>
        split at looked
        · next cell known =>
          cases looked
          exact .cell name (Bool.eq_false_iff.mpr alone) known
        · split at looked <;> cases looked
    · next resolved =>
      cases h
      exact .other (Bool.eq_false_iff.mpr fun name => resolved (read.unresolved.mpr name))
  · intro h
    cases h with
    | called name called known =>
      have unresolved := read.unresolved.mpr name
      simp [resolveName, resolve, unresolved, read.symbol unresolved, called, known, bind, Except.bind, pure,
        Except.pure]
    | cell name alone known =>
      have unresolved := read.unresolved.mpr name
      simp [resolveName, resolve, unresolved, read.symbol unresolved, alone, known, bind, Except.bind, pure,
        Except.pure]
    | other other =>
      unfold resolveName
      split
      · next unresolved => cases other.symm.trans (read.unresolved.mp unresolved)
      · rfl

/-- The lexeme is no operator, or one as the table has it. -/
def AsInTable (lexeme : Lexeme) : Prop :=
  ∀ occurrence, lexeme.kind = .operator occurrence → occurrence = .ofOperator occurrence.operator

theorem AsInTable.needsSide_eq (plain : lexeme.AsInTable) {occurrence : Occurrence}
    (kind : lexeme.kind = .operator occurrence) : occurrence.form.needsSide = occurrence.operator.isStep := by
  rw [plain occurrence kind]
  exact Operator.needsSide_eq _

theorem resolveSide_iff (plain : lexeme.AsInTable) :
    resolveSide previous lexeme next = .ok new ↔ TakesSide previous lexeme next new := by
  constructor
  · intro h
    unfold resolveSide at h
    split at h
    · next occurrence kind =>
      rw [plain.needsSide_eq kind] at h
      split at h
      · next other =>
        cases h
        refine .other fun _ same => ?_
        cases kind.symm.trans same
        simpa using other
      next isStep =>
      have isStep : occurrence.operator.isStep = true := by simpa using isStep
      split at h
      · next lvalue =>
        cases h
        exact .leads kind isStep lvalue
      next noLvalue =>
      split at h
      · next lvalue =>
        cases h
        exact .trails kind isStep (Bool.eq_false_iff.mpr noLvalue) lvalue
      · cases h
    · next noOperator =>
      cases h
      exact .other fun occurrence kind => absurd kind (noOperator occurrence)
  · intro h
    cases h with
    | leads kind isStep lvalue =>
      simp [resolveSide, kind, plain.needsSide_eq kind, isStep, lvalue, Occurrence.asUnary, Operator.unaryPrecedence]
    | trails kind isStep noLvalue lvalue =>
      simp [resolveSide, kind, plain.needsSide_eq kind, isStep, noLvalue, lvalue, Occurrence.asUnary,
        Operator.unaryPrecedence]
    | other other =>
      unfold resolveSide
      split
      · next occurrence kind =>
        rw [plain.needsSide_eq kind, other occurrence kind]
        rfl
      · rfl

theorem TakesName.asInTable (h : TakesName registry lexeme next new) (read : lexeme.IsRead) : new.AsInTable := by
  cases h with
  | called | cell => nofun
  | other =>
    intro occurrence kind
    have raw := read.raw
    rwa [kind] at raw

/-- A name that is not followed by an opening parenthesis becomes a variable, and nothing else does. -/
theorem TakesName.isLvalue (h : TakesName registry lexeme next new) (read : lexeme.IsRead) :
    new.isLvalue = (lexeme.isName && !next.any opensGroup) := by
  cases h with
  | called name called => simp [Lexeme.isLvalue, called]
  | cell name alone => simp [Lexeme.isLvalue, name, alone]
  | other other =>
    rw [other, Bool.false_and]
    have raw := read.raw
    unfold Lexeme.isLvalue
    split
    · next kind => rw [kind] at raw; cases raw
    · rfl

theorem TakesName.eq_of_not_isName (h : TakesName registry lexeme next new) (other : lexeme.isName = false) :
    new = lexeme := by
  cases h with
  | called name | cell name => cases other.symm.trans name
  | other => rfl

/-- Looking up the names leaves the operators alone. -/
theorem TakesName.eq_of_operator (h : TakesName registry lexeme next new) (read : lexeme.IsRead)
    {occurrence : Occurrence} (kind : lexeme.kind = .operator occurrence) : new = lexeme := by
  refine h.eq_of_not_isName (Bool.eq_false_iff.mpr fun name => ?_)
  cases kind.symm.trans (read.unresolved.mpr name)

theorem TakesName.eq_of_becomes_operator (h : TakesName registry lexeme next new) {occurrence : Occurrence}
    (kind : new.kind = .operator occurrence) : new = lexeme := by
  cases h with
  | called | cell => cases kind
  | other => rfl

theorem TakesSide.isLvalue (h : TakesSide previous lexeme next new) : new.isLvalue = lexeme.isLvalue := by
  cases h with
  | leads kind | trails kind => simp [Lexeme.isLvalue, kind]
  | other => rfl

private theorem takesSign_of_asInTable (plain : lexeme.AsInTable)
    (h : resolveSign previous lexeme next = .ok new) : TakesSign previous lexeme new := by
  unfold resolveSign at h
  split at h
  · next occurrence kind =>
    have inTable := plain occurrence kind
    have indefinite : occurrence.form.isIndefinite = occurrence.operator.isSign := by
      rw [inTable]
      exact Operator.isIndefinite_eq _
    rw [indefinite] at h
    cases isSign : occurrence.operator.isSign with
    | false =>
      rw [isSign, Bool.false_and, if_neg Bool.false_ne_true] at h
      cases h
      refine .other fun _ same => ?_
      cases kind.symm.trans same
      exact isSign
    | true =>
      rw [inTable] at kind
      rw [isSign, Bool.true_and] at h
      split at h
      · next noOperand =>
        cases h
        have form : { occurrence.form with binary := false } = (⟨false, true, false, false⟩ : Form) := by
          rw [inTable]
          exact Operator.unary_form_of_isSign isSign
        rw [form]
        exact .unary kind isSign (by simpa using noOperand)
      · next operand =>
        cases h
        exact .binary kind isSign (by simpa using operand)
  · next noOperator =>
    cases h
    exact .other fun occurrence kind => absurd kind (noOperator occurrence)

private theorem takesSign_of_isStep {op : Operator} {form : Form} (isStep : op.isStep = true)
    (settled : form.isIndefinite = false)
    (h : resolveSign previous { lexeme with kind := .operator ⟨op, form, 15, .right⟩ } next = .ok new) :
    TakesSign previous { lexeme with kind := .operator ⟨op, form, 15, .right⟩ } new := by
  simp only [resolveSign, settled, Bool.false_and, Bool.false_eq_true, if_false] at h
  cases h
  refine .other fun _ same => ?_
  cases same
  exact Operator.isSign_of_isStep isStep

/-- A sign is settled by what is in front of it, also when the step operators have their sides. -/
theorem TakesSide.takesSign {before : Option Lexeme} {sided : Lexeme} (side : TakesSide before lexeme next sided)
    (plain : lexeme.AsInTable) {follow : Option Lexeme} (h : resolveSign previous sided follow = .ok new) :
    TakesSign previous sided new := by
  cases side with
  | leads kind isStep | trails kind isStep => exact takesSign_of_isStep isStep rfl h
  | other => exact takesSign_of_asInTable plain h

/-- A called name becomes a function, and nothing else does. -/
theorem TakesName.function_iff (h : TakesName registry lexeme next new) (read : lexeme.IsRead) :
    new.kind = .function ↔ (lexeme.isName && next.any opensGroup) = true := by
  cases h with
  | called name called => simp [name, called]
  | cell name alone => simp [alone]
  | other other =>
    have raw := read.raw
    rw [other, Bool.false_and]
    refine ⟨fun kind => ?_, nofun⟩
    rw [kind] at raw
    cases raw

theorem TakesName.kept (h : TakesName registry lexeme next new) : new = { lexeme with kind := new.kind } := by
  cases h <;> rfl

theorem TakesSide.kept (h : TakesSide previous lexeme next new) : new = { lexeme with kind := new.kind } := by
  cases h <;> rfl

theorem TakesSign.kept (h : TakesSign previous lexeme new) : new = { lexeme with kind := new.kind } := by
  cases h <;> rfl

theorem TakesSide.plain_eq (h : TakesSide previous lexeme next new) : new.plain = lexeme.plain := by
  cases h with
  | leads kind | trails kind => exact plain_eq_of_operator kind rfl
  | other => rfl

theorem TakesSign.plain_eq (h : TakesSign previous lexeme new) : new.plain = lexeme.plain := by
  cases h with
  | unary kind => exact plain_eq_of_operator kind rfl
  | binary | other => rfl

theorem TakesSide.kind_of_isStep (h : TakesSide previous lexeme next new) {occurrence : Occurrence}
    (kind : lexeme.kind = .operator occurrence) (isStep : occurrence.operator.isStep = true) :
    new.kind = .operator ⟨occurrence.operator,
      if next.any Lexeme.isLvalue then ⟨false, true, false, true⟩ else ⟨false, false, true, true⟩, 15, .right⟩ := by
  cases h with
  | leads same _ lvalue =>
    cases kind.symm.trans same
    rw [if_pos lvalue]
  | trails same _ noLvalue =>
    cases kind.symm.trans same
    rw [noLvalue, if_neg Bool.false_ne_true]
  | other other => cases isStep.symm.trans (other occurrence kind)

theorem TakesSign.kind_of_isSign (h : TakesSign previous lexeme new) {occurrence : Occurrence}
    (kind : lexeme.kind = .operator occurrence) (isSign : occurrence.operator.isSign = true) :
    new.kind = .operator (if previous.any endsOperand then .ofOperator occurrence.operator
      else ⟨occurrence.operator, ⟨false, true, false, false⟩, 15, .right⟩) := by
  cases h with
  | binary same _ operand =>
    cases kind.symm.trans same
    rw [if_pos operand]
    exact kind
  | unary same _ noOperand =>
    cases kind.symm.trans same
    rw [noOperand, if_neg Bool.false_ne_true]
    rfl
  | other other => cases isSign.symm.trans (other occurrence kind)

theorem TakesSide.eq_of_not_isStep (h : TakesSide previous lexeme next new)
    (other : ∀ occurrence, lexeme.kind = .operator occurrence → occurrence.operator.isStep = false) :
    new = lexeme := by
  cases h with
  | leads kind isStep | trails kind isStep => cases isStep.symm.trans (other _ kind)
  | other => rfl

theorem TakesSign.eq_of_not_isSign (h : TakesSign previous lexeme new)
    (other : ∀ occurrence, lexeme.kind = .operator occurrence → occurrence.operator.isSign = false) :
    new = lexeme := by
  cases h with
  | unary kind isSign => cases isSign.symm.trans (other _ kind)
  | binary | other => rfl

end Changes

section Stages

variable {resolved sided : List Lexeme}

/-- The variables are the names without an opening parenthesis behind them. -/
private theorem isLvalue_of_names (read : ∀ lexeme ∈ lexemes, lexeme.IsRead)
    (names : sweep (resolveName registry) none lexemes = .ok resolved) (i : Nat) :
    resolved[i]?.any Lexeme.isLvalue = variableAt lexemes i := by
  cases here : lexemes[i]? with
  | none =>
    have outside : resolved[i]? = none := by
      rw [List.getElem?_eq_none_iff] at here ⊢
      rwa [length_of_sweep names]
    simp [outside, variableAt, here]
  | some old =>
    obtain ⟨named, there, looked⟩ := exists_in_sweep names here
    have isRead := read old (List.mem_of_getElem? here)
    simp [there, ((resolveName_iff isRead).mp looked).isLvalue isRead, variableAt, here]

private theorem asInTable_of_names (read : ∀ lexeme ∈ lexemes, lexeme.IsRead)
    (names : sweep (resolveName registry) none lexemes = .ok resolved) : ∀ lexeme ∈ resolved, lexeme.AsInTable := by
  intro named mem
  obtain ⟨i, there⟩ := List.mem_iff_getElem?.mp mem
  obtain ⟨old, here, looked⟩ := exists_of_sweep names there
  have isRead := read old (List.mem_of_getElem? here)
  exact ((resolveName_iff isRead).mp looked).asInTable isRead

/-- Giving the step operators their sides changes no variable. -/
private theorem isLvalue_of_sides (plain : ∀ lexeme ∈ resolved, lexeme.AsInTable)
    (sides : sweep resolveSide none resolved = .ok sided) (i : Nat) :
    sided[i]?.any Lexeme.isLvalue = resolved[i]?.any Lexeme.isLvalue := by
  cases here : resolved[i]? with
  | none =>
    have outside : sided[i]? = none := by
      rw [List.getElem?_eq_none_iff] at here ⊢
      rwa [length_of_sweep sides]
    simp [outside]
  | some named =>
    obtain ⟨sided, there, changed⟩ := exists_in_sweep sides here
    simp [there, ((resolveSide_iff (plain named (List.mem_of_getElem? here))).mp changed).isLvalue]

/-- The names can be looked up just if the registry has them. -/
private theorem names_iff (read : ∀ lexeme ∈ lexemes, lexeme.IsRead) :
    (∃ resolved, sweep (resolveName registry) none lexemes = .ok resolved) ↔
      ∀ i lexeme, lexemes[i]? = some lexeme → ∃ new, TakesName registry lexeme lexemes[i + 1]? new := by
  constructor
  · rintro ⟨resolved, names⟩ i lexeme here
    obtain ⟨new, -, looked⟩ := exists_in_sweep names here
    exact ⟨new, (resolveName_iff (read lexeme (List.mem_of_getElem? here))).mp looked⟩
  · intro each
    refine @exists_sweep none none lexemes _ (fun _ _ => True) trivial fun i lexeme _ here _ => ?_
    obtain ⟨new, named⟩ := each i lexeme here
    exact ⟨new, (resolveName_iff (read lexeme (List.mem_of_getElem? here))).mpr named, trivial⟩

private theorem isLvalue_before (same : ∀ i, changed[i]?.any Lexeme.isLvalue = variableAt lexemes i) (i : Nat) :
    (before none changed i).any Lexeme.isLvalue = variableBefore lexemes i := by
  cases i with
  | zero => rfl
  | succ i => exact same i

/-- The step operators get their sides just if each has a variable beside it. -/
private theorem sides_iff (read : ∀ lexeme ∈ lexemes, lexeme.IsRead)
    (names : sweep (resolveName registry) none lexemes = .ok resolved) :
    (∃ sided, sweep resolveSide none resolved = .ok sided) ↔
      ∀ i lexeme occurrence, lexemes[i]? = some lexeme → lexeme.kind = .operator occurrence →
        occurrence.operator.isStep = true → variableAt lexemes (i + 1) = true ∨ variableBefore lexemes i = true := by
  have plain := asInTable_of_names read names
  have lvalues := isLvalue_of_names read names
  constructor
  · rintro ⟨sided, sides⟩ i lexeme occurrence here kind isStep
    obtain ⟨named, there, looked⟩ := exists_in_sweep names here
    have isRead := read lexeme (List.mem_of_getElem? here)
    obtain rfl := ((resolveName_iff isRead).mp looked).eq_of_operator isRead kind
    obtain ⟨new, -, changed⟩ := exists_in_sweep sides there
    cases (resolveSide_iff (plain named (List.mem_of_getElem? there))).mp changed with
    | leads _ _ lvalue => exact .inl (lvalues (i + 1) ▸ lvalue)
    | trails _ _ _ lvalue =>
      rw [isLvalue_before fun i => (isLvalue_of_sides plain sides i).trans (lvalues i)] at lvalue
      exact .inr lvalue
    | other other => cases isStep.symm.trans (other occurrence kind)
  · intro steps
    have start : (none : Option Lexeme).any Lexeme.isLvalue = (none : Option Lexeme).any Lexeme.isLvalue := rfl
    refine exists_sweep (fun new old => new.any Lexeme.isLvalue = old.any Lexeme.isLvalue) start ?_
    intro i named previous there same
    obtain ⟨old, here, looked⟩ := exists_of_sweep names there
    have isRead := read old (List.mem_of_getElem? here)
    have inTable := plain named (List.mem_of_getElem? there)
    suffices ∃ new, TakesSide previous named resolved[i + 1]? new by
      obtain ⟨new, side⟩ := this
      exact ⟨new, (resolveSide_iff inTable).mpr side, side.isLvalue⟩
    by_cases step : ∃ occurrence, named.kind = .operator occurrence ∧ occurrence.operator.isStep = true
    · obtain ⟨occurrence, kind, isStep⟩ := step
      obtain rfl := ((resolveName_iff isRead).mp looked).eq_of_becomes_operator kind
      have beside := steps i named occurrence here kind isStep
      rw [← lvalues, ← isLvalue_before lvalues, ← same] at beside
      by_cases lvalue : resolved[i + 1]?.any Lexeme.isLvalue = true
      · exact ⟨_, .leads kind isStep lvalue⟩
      · exact ⟨_, .trails kind isStep (Bool.eq_false_iff.mpr lvalue) (beside.resolve_left lvalue)⟩
    · exact ⟨named, .other fun occurrence kind => Bool.eq_false_iff.mpr fun isStep => step ⟨occurrence, kind, isStep⟩⟩

/-- The three sweeps. -/
private theorem classify_ok_iff : classify registry lexemes = .ok classified ↔ checkBrackets lexemes = .ok () ∧
    ∃ resolved sided, sweep (resolveName registry) none lexemes = .ok resolved ∧
      sweep resolveSide none resolved = .ok sided ∧ sweep resolveSign none sided = .ok classified := by
  rw [classify_eq_sweeps, bind_eq_ok]
  constructor
  · rintro ⟨_, balanced, h⟩
    obtain ⟨resolved, names, h⟩ := bind_eq_ok.mp h
    obtain ⟨sided, sides, signs⟩ := bind_eq_ok.mp h
    exact ⟨balanced, resolved, sided, names, sides, signs⟩
  · rintro ⟨balanced, resolved, sided, names, sides, signs⟩
    exact ⟨(), balanced, bind_eq_ok.mpr ⟨resolved, names, bind_eq_ok.mpr ⟨sided, sides, signs⟩⟩⟩

private theorem classifiable_iff (read : ∀ lexeme ∈ lexemes, lexeme.IsRead) :
    (∃ classified, classify registry lexemes = .ok classified) ↔ Classifiable registry lexemes := by
  constructor
  · rintro ⟨classified, h⟩
    obtain ⟨balanced, resolved, sided, names, sides, -⟩ := classify_ok_iff.mp h
    have named := (names_iff read).mp ⟨resolved, names⟩
    refine ⟨(checkBrackets_ok_iff).mp balanced, fun i lexeme here called => ?_, fun i lexeme here plain => ?_,
      (sides_iff read names).mp ⟨sided, sides⟩⟩
    · obtain ⟨name, opens⟩ : lexeme.isName = true ∧ lexemes[i + 1]?.any opensGroup = true := by
        simpa [calledAt, here] using called
      obtain ⟨new, takes⟩ := named i lexeme here
      cases takes with
      | called _ _ known => exact known
      | cell _ alone => cases alone.symm.trans opens
      | other other => cases other.symm.trans name
    · obtain ⟨name, alone⟩ : lexeme.isName = true ∧ lexemes[i + 1]?.any opensGroup = false := by
        simpa [variableAt, here] using plain
      obtain ⟨new, takes⟩ := named i lexeme here
      cases takes with
      | called _ called => cases alone.symm.trans called
      | cell _ _ known => exact Option.isSome_iff_exists.mpr ⟨_, known⟩
      | other other => cases other.symm.trans name
  · intro h
    have named : ∀ i lexeme, lexemes[i]? = some lexeme →
        ∃ new, TakesName registry lexeme lexemes[i + 1]? new := by
      intro i lexeme here
      cases name : lexeme.isName with
      | false => exact ⟨_, .other name⟩
      | true =>
        cases opens : lexemes[i + 1]?.any opensGroup with
        | true => exact ⟨_, .called name opens (h.functions i lexeme here (by simp [calledAt, here, name, opens]))⟩
        | false =>
          obtain ⟨cell, known⟩ := Option.isSome_iff_exists.mp
            (h.cells i lexeme here (by simp [variableAt, here, name, opens]))
          exact ⟨_, .cell name opens known⟩
    obtain ⟨resolved, names⟩ := (names_iff read).mpr named
    obtain ⟨sided, sides⟩ := (sides_iff read names).mpr h.steps
    exact ⟨_, classify_ok_iff.mpr ⟨checkBrackets_ok_iff.mpr h.balanced, resolved, sided, names, sides,
      (resolveSigns_eq none sided).symm⟩⟩

/-- What becomes of a lexeme at an index in the three sweeps. -/
private structure Through (registry : Registry) (lexemes classified : List Lexeme) (i : Nat)
    (old named sided new : Lexeme) (previous next : Option Lexeme) : Prop where
  read : old.IsRead
  name : TakesName registry old lexemes[i + 1]? named
  side : TakesSide previous named next sided
  lvalue : next.any Lexeme.isLvalue = variableAt lexemes (i + 1)
  sign : TakesSign (before none classified i) sided new

private theorem through_of_classify (read : ∀ lexeme ∈ lexemes, lexeme.IsRead)
    (h : classify registry lexemes = .ok classified) {i : Nat} (there : classified[i]? = some new) :
    ∃ old named sided previous next, lexemes[i]? = some old ∧
      Through registry lexemes classified i old named sided new previous next := by
  obtain ⟨-, resolved, sidedAll, names, sides, signs⟩ := classify_ok_iff.mp h
  obtain ⟨sided, isSided, signed⟩ := exists_of_sweep signs there
  obtain ⟨named, isNamed, changed⟩ := exists_of_sweep sides isSided
  obtain ⟨old, here, looked⟩ := exists_of_sweep names isNamed
  have isRead := read old (List.mem_of_getElem? here)
  have inTable := asInTable_of_names read names named (List.mem_of_getElem? isNamed)
  have side := (resolveSide_iff inTable).mp changed
  exact ⟨old, named, sided, _, _, here, isRead, (resolveName_iff isRead).mp looked, side,
    isLvalue_of_names read names (i + 1), side.takesSign inTable signed⟩

section Through

variable {i : Nat} {old named sided : Lexeme}

private theorem Through.kept (h : Through registry lexemes classified i old named sided new previous next) :
    new = { old with kind := new.kind } := by
  have kept := h.sign.kept
  rwa [h.side.kept, h.name.kept] at kept

private theorem Through.plain_eq (h : Through registry lexemes classified i old named sided new previous next) :
    new.plain = named.plain :=
  h.sign.plain_eq.trans h.side.plain_eq

private theorem Through.function_iff (here : lexemes[i]? = some old)
    (h : Through registry lexemes classified i old named sided new previous next) :
    new.kind = .function ↔ calledAt lexemes i = true := by
  rw [function_iff_of_plain_eq h.plain_eq, h.name.function_iff h.read, calledAt, here, Option.any_some]

private theorem Through.isLvalue_eq (here : lexemes[i]? = some old)
    (h : Through registry lexemes classified i old named sided new previous next) :
    new.isLvalue = variableAt lexemes i := by
  rw [← isLvalue_plain, h.plain_eq, isLvalue_plain, h.name.isLvalue h.read, variableAt, here, Option.any_some]

private theorem Through.eq_named (h : Through registry lexemes classified i old named sided new previous next)
    (noOperator : ∀ occurrence, new.kind ≠ .operator occurrence) : new = named := by
  have unsigned : new = sided := by
    cases h.sign with
    | binary | other => rfl
    | unary => exact absurd rfl (noOperator _)
  subst unsigned
  cases h.side with
  | leads | trails => exact absurd rfl (noOperator _)
  | other => rfl

end Through

/-- A constant was one from the start. -/
theorem mem_of_constant (read : tokenize source = .ok lexemes) (h : classify registry lexemes = .ok classified)
    (mem : new ∈ classified) {value : Value} (kind : new.kind = .constant value) : new ∈ lexemes := by
  obtain ⟨i, there⟩ := List.mem_iff_getElem?.mp mem
  obtain ⟨old, named, sided, _, _, here, through⟩ := through_of_classify (isRead_of_tokenize read) h there
  obtain rfl := through.eq_named fun occurrence same => by cases kind.symm.trans same
  cases through.name with
  | called | cell => cases kind
  | other => exact List.mem_of_getElem? here

/-- What is called or has a cell was read as a name. -/
theorem exists_name_of_classify (read : tokenize source = .ok lexemes)
    (h : classify registry lexemes = .ok classified) (mem : new ∈ classified)
    (kind : new.kind = .function ∨ ∃ cell, new.kind = .variable cell) :
    ∃ old ∈ lexemes, old.kind = .unresolved ∧ old.isName = true ∧ old.text = new.text := by
  obtain ⟨i, there⟩ := List.mem_iff_getElem?.mp mem
  obtain ⟨old, named, sided, _, _, here, through⟩ := through_of_classify (isRead_of_tokenize read) h there
  obtain rfl := through.eq_named fun occurrence same => by
    rcases kind with kind | ⟨_, kind⟩ <;> cases kind.symm.trans same
  cases through.name with
  | called name | cell name =>
    exact ⟨old, List.mem_of_getElem? here, through.read.unresolved.mpr name, name, rfl⟩
  | other =>
    have raw := through.read.raw
    rcases kind with kind | ⟨_, kind⟩ <;> rw [kind] at raw <;> exact raw.elim

/-- What the check for an operand accepts is what ends a value, but for the names of functions. -/
private theorem endsOperand_of_settled (settled : lexeme.Settled registry) (noFunction : lexeme.kind ≠ .function) :
    lexeme.endsOperand = lexeme.endsValue := by
  unfold Lexeme.Settled at settled
  unfold endsOperand endsValue occurrence?
  split at settled
  · cases settled
  · next occurrence kind =>
    simp only [kind]
    cases trails : occurrence.form.trailing with
    | false => simp
    | true =>
      have isStep := (settled.of_trailing trails).1
      rw [Operator.needsSide_eq] at isStep
      simp [isStep]
  · next kind => exact absurd kind noFunction
  · next kind => simp [kind]
  · next kind => simp [kind]

/-- No sign has the name of a function in front, since an opening parenthesis would be there instead. -/
private theorem endsOperand_before (read : ∀ lexeme ∈ lexemes, lexeme.IsRead)
    (settled : ∀ lexeme ∈ classified, lexeme.Settled registry) (h : classify registry lexemes = .ok classified)
    {i : Nat} {old : Lexeme} (here : lexemes[i]? = some old) (noOpening : old.opensGroup = false) :
    (before none classified i).any endsOperand = (before none classified i).any endsValue := by
  cases i with
  | zero => rfl
  | succ i =>
    simp only [before]
    cases front : classified[i]? with
    | none => rfl
    | some lexeme =>
      refine endsOperand_of_settled (settled lexeme (List.mem_of_getElem? front)) fun kind => ?_
      obtain ⟨_, _, _, _, _, ahead, through⟩ := through_of_classify read h front
      have called := (through.function_iff ahead).mp kind
      simp [calledAt, here, noOpening] at called

private theorem classifiedAt_of_classify (read : ∀ lexeme ∈ lexemes, lexeme.IsRead)
    (settled : ∀ lexeme ∈ classified, lexeme.Settled registry) (h : classify registry lexemes = .ok classified)
    {i : Nat} {old : Lexeme} (here : lexemes[i]? = some old) (there : classified[i]? = some new) :
    ClassifiedAt registry lexemes classified i old new := by
  obtain ⟨old', named, sided, previous, next, same, through⟩ := through_of_classify read h there
  cases here.symm.trans same
  have isSettled := settled new (List.mem_of_getElem? there)
  constructor
  case kept => exact through.kept
  case resolved =>
    intro kind
    simp only [Lexeme.Settled, kind] at isSettled
  case function => exact through.function_iff here
  case isVariable => rw [through.isLvalue_eq here]
  case cell =>
    intro cell kind
    have text : new.text = old.text := by rw [through.kept]
    simpa only [Lexeme.Settled, kind, text] using isSettled
  case step =>
    intro occurrence kind isStep
    obtain rfl := through.name.eq_of_operator through.read kind
    have side := through.side.kind_of_isStep kind isStep
    rw [through.lvalue] at side
    rw [through.sign.eq_of_not_isSign fun other same => ?_]
    · exact side
    · cases side.symm.trans same
      exact Operator.isSign_of_isStep isStep
  case sign =>
    intro occurrence kind isSign
    obtain rfl := through.name.eq_of_operator through.read kind
    obtain rfl := through.side.eq_of_not_isStep fun other same => by
      cases kind.symm.trans same
      refine Bool.eq_false_iff.mpr fun isStep => ?_
      exact Bool.false_ne_true ((Operator.isSign_of_isStep isStep).symm.trans isSign)
    have noOpening : sided.opensGroup = false := by
      simp only [Lexeme.opensGroup, isOperatorOf, occurrence?, kind, Option.any_some, beq_eq_false_iff_ne]
      intro opens
      rw [opens] at isSign
      cases isSign
    rw [← endsOperand_before read settled h here noOpening]
    exact through.sign.kind_of_isSign kind isSign
  case other =>
    intro noName other
    obtain rfl := through.name.eq_of_not_isName noName
    obtain rfl := through.side.eq_of_not_isStep fun occurrence kind => (other occurrence kind).1
    exact through.sign.eq_of_not_isSign fun occurrence kind => (other occurrence kind).2

end Stages

/-- Classifying a source goes through just if its parentheses match and its names and step operators are as they
have to be, and then each lexeme becomes what it stands for beside the others. -/
theorem classify_exact (read : tokenize source = .ok lexemes) (registry : Registry) :
    ((∃ classified, classify registry lexemes = .ok classified) ↔ Classifiable registry lexemes) ∧
      ∀ classified, classify registry lexemes = .ok classified → Classification registry lexemes classified := by
  have isRead := isRead_of_tokenize read
  refine ⟨classifiable_iff isRead, fun classified h => ?_⟩
  obtain ⟨-, resolved, sided, names, sides, signs⟩ := classify_ok_iff.mp h
  refine ⟨?_, fun i old new => classifiedAt_of_classify isRead (settled_of_classify read h) h⟩
  rw [length_of_sweep signs, length_of_sweep sides, length_of_sweep names]

/-- In `x++ - --y + x(y)` both step operators find their variables first, so the minus is binary. The name `x` stands
for a variable and for a function. -/
theorem classify_exact_steps :
    ∃ registry lexemes classified, tokenize "x++ - --y + x(y)" = .ok lexemes ∧
      classify registry lexemes = .ok classified ∧ Classifiable registry lexemes ∧
      Classification registry lexemes classified := by
  have stages : ∃ lexemes classified, tokenize "x++ - --y + x(y)" = .ok lexemes ∧
      classify ⟨.insert (.insert .empty "x" (.int 0)) "y" (.int 1), .insert .empty "x" ⟨.int, [.int], fun _ =>
        Action.readCell (.int 1)⟩⟩ lexemes = .ok classified :=
    ⟨_, _, by cbv, by cbv⟩
  obtain ⟨lexemes, classified, read, known⟩ := stages
  obtain ⟨possible, whole⟩ := classify_exact read _
  exact ⟨_, lexemes, classified, read, known, possible.mp ⟨classified, known⟩, whole classified known⟩

end Reckoner.Lexeme
