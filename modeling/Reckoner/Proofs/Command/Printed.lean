import Reckoner.Command.Evaluate
import Reckoner.Proofs.Engine.History
import Reckoner.Proofs.Lexeme.Front

/-!
Values as they are printed. What is printed for a truth value, an integer or a text is an expression that
evaluates to this value, except for the least integer: its digits are read before its sign, and without the sign
they are too large.
-/
namespace Reckoner.Command

open Lexeme

/-- An engine without names takes the text that is printed for the value as an expression, and finds the value
again. -/
def ReadsBack (value : Value) : Prop :=
  ∃ text, printed? value = some text ∧
    ((Engine.new Engine.defaultPassLimit).run (interpret text false)).1 = .ok value

/-- Truth values, integers, and the texts that can stand between double quotes in a source. -/
def HasLiteral : Value → Prop
  | .bool _ | .int _ => True
  | .string s => '"' ∉ s.toList ∧ '\x00' ∉ s.toList
  | .void | .float _ => False

variable {text written : String} {value : Value} {place place' : Span} {i j : Int64}

/-- Interpreting a source is evaluating the expression that it compiles to. -/
private theorem run_interpret (passLimit : Nat) (source : String) :
    ((Engine.new passLimit).run (interpret source false)).1 =
      match Expression.compile .empty passLimit source with
      | .ok expression => (expression.evaluate .empty .empty).1
      | .error failure => .error failure := by
  simp only [interpret, Engine.compile, Engine.run_bind, Engine.run_compileWithin, Engine.new, Option.getD_none]
  cases Expression.compile .empty passLimit source with
  | ok expression => simp [Engine.run_evaluate]
  | error failure => rfl

/-- A constant evaluates to what it holds. -/
private theorem run_constant (read : tokenize text = .ok [⟨written, place, 0, .constant value⟩]) :
    ((Engine.new Engine.defaultPassLimit).run (interpret text false)).1 = .ok value := by
  let leaf : Node := { Node.alone .constant place (.owned value) with parent := some 1 }
  let root : Node := { Node.alone .root place (.owned .void) with children := [0], type := value.type }
  have compiled : Expression.compile .empty Engine.defaultPassLimit text =
      .ok ⟨text, ⟨#[leaf, root], some 1⟩, [0, 1]⟩ := by
    simp only [Expression.compile, Expression.compileTree, Expression.parse, read]
    rfl
  rw [run_interpret, compiled]
  rfl

/-- A minus in front of an integer turns its sign. -/
private theorem run_negated (fits : inRange (-i.toInt) = .ok j)
    (read : tokenize text =
      .ok [⟨"-", place, 0, .operator (.ofOperator .subtraction)⟩, ⟨written, place', 1, .constant (.int i)⟩]) :
    ((Engine.new Engine.defaultPassLimit).run (interpret text false)).1 = .ok (.int j) := by
  let number : Node := { Node.alone .constant place' (.owned (.int i)) with parent := some 1 }
  let sign (type : ValueType) : Node :=
    { Node.alone (.operator .subtraction .leading) (place.cover place') (.owned .void) with
      children := [0], parent := some 2, type := type }
  let root (type : ValueType) : Node :=
    { Node.alone .root (place.cover place') (.owned .void) with children := [1], type := type }
  let checked : Tree := ⟨#[number, sign .int, root .int], some 2⟩
  have known : classify .empty
      [⟨"-", place, 0, .operator (.ofOperator .subtraction)⟩, ⟨written, place', 1, .constant (.int i)⟩] =
      .ok [⟨"-", place, 0, .operator ⟨.subtraction, ⟨false, true, false, false⟩, Operator.unaryPrecedence, .right⟩⟩,
        ⟨written, place', 1, .constant (.int i)⟩] := rfl
  have built : Tree.build text
      [⟨"-", place, 0, .operator ⟨.subtraction, ⟨false, true, false, false⟩, Operator.unaryPrecedence, .right⟩⟩,
        ⟨written, place', 1, .constant (.int i)⟩] Engine.defaultPassLimit =
      .ok ⟨#[number, sign .void, root .void], some 2⟩ := rfl
  have compiled : Expression.compile .empty Engine.defaultPassLimit text = .ok ⟨text, checked, [0, 1, 2]⟩ := by
    simp only [Expression.compile, Expression.compileTree, Expression.parse, read, bind, Except.bind, known, built]
    rfl
  have first : (Tree.slotOf .empty checked 0).on .empty = (.ok (.owned (.int i)), .empty) := rfl
  have turned : (Tree.slotOf .empty (checked.setSlot 0 (.owned (.int i))) 1).on .empty =
      (.ok (.owned (.int j)), .empty) := by
    change (Tree.operatorSlot .subtraction .leading .int [.owned (.int i)]).on .empty = _
    rw [Tree.operatorSlot_on rfl rfl fun target => by cases target]
    simp only [Operator.perform, Operator.compute, Operator.computeUnary, List.map_cons, List.map_nil, Slot.read,
      fits]
    rfl
  rw [run_interpret, compiled]
  simp only [Expression.evaluate, Tree.evaluate, Tree.fillSlots, first, turned]
  rfl

/-- The digits of a number that fits into 64 bits are a piece that can be read. -/
private theorem fits_ofNat {n : Nat} (value : i.toInt = n) : ¬ TooLarge (Decimal.ofNat n) := by
  rintro ⟨-, large⟩
  rw [Decimal.digitsValue_ofNat, ← value] at large
  exact absurd i.toInt_le (Int.not_le.mpr large)

private theorem kindOf_ofNat {n : Nat} (value : i.toInt = n) : kindOf (Decimal.ofNat n) = .constant (.int i) := by
  apply kindOf_digits (Decimal.digits_ofNat n)
  rw [Decimal.digitsValue_ofNat, value]

private theorem nul_notMem_ofNat (n : Nat) : '\x00' ∉ Decimal.ofNat n := by
  intro mem
  cases (Decimal.digits_ofNat n).2 _ mem

/-- An integer that is not negative is printed as its digits. -/
private theorem readsBack_natural {n : Nat} (value : i.toInt = n) : ReadsBack (.int i) := by
  have text : Decimal.ofInt64 i = String.ofList (Decimal.ofNat n) := by
    rw [Decimal.ofInt64, value]
    rfl
  have read := @tokenize_piece (Decimal.ofInt64 i)
  rw [text, String.toList_ofList, kindOf_ofNat value] at read
  refine ⟨_, rfl, ?_⟩
  rw [Value.text, text]
  exact run_constant (read (munches_digits (Decimal.digits_ofNat n)) (fits_ofNat value) (nul_notMem_ofNat n))

/-- A negative integer is printed as a minus and the digits of its opposite, which has to be an integer, too. -/
private theorem readsBack_negative {n : Nat} (value : i.toInt = .negSucc n) (opposite : j.toInt = ↑(n + 1)) :
    ReadsBack (.int i) := by
  have text : Decimal.ofInt64 i = String.ofList ('-' :: Decimal.ofNat (n + 1)) := by
    rw [Decimal.ofInt64, value]
    rfl
  have read : tokenize (Decimal.ofInt64 i) = .ok
      [⟨"-", ⟨0, 1⟩, 0, .operator (.ofOperator .subtraction)⟩,
        ⟨String.ofList (Decimal.ofNat (n + 1)), ⟨1, 1 + Span.bytes (Decimal.ofNat (n + 1))⟩, 1,
          .constant (.int j)⟩] := by
    have free : '\x00' ∉ (String.ofList ('-' :: Decimal.ofNat (n + 1))).toList := by
      simpa using nul_notMem_ofNat (n + 1)
    have sign : Munches (['-'] ++ Decimal.ofNat (n + 1)) ['-'] := by
      obtain ⟨nonempty, all⟩ := Decimal.digits_ofNat (n + 1)
      obtain ⟨c, cs, split⟩ := List.exists_cons_of_ne_nil nonempty
      rw [split]
      exact munches_symbol_digit .subtraction (all c (by simp [split]))
    have fits : ¬ TooLarge ['-'] := fun large => by cases large.1.2 '-' List.mem_cons_self
    have number := munches_digits (Decimal.digits_ofNat (n + 1))
    rw [text, tokenize, sourceChars_eq free, String.toList_ofList, ← List.singleton_append, scan_piece sign fits,
      scan_last number (fits_ofNat opposite), kindOf_ofNat opposite]
    rfl
  have turned : inRange (-j.toInt) = .ok i := by
    rw [inRange, opposite, ← Int.neg_negSucc, Int.neg_neg, ← value, Decimal.toInt64?_toInt]
  refine ⟨_, rfl, ?_⟩
  rw [Value.text]
  exact run_negated turned read

/-- A text is printed between double quotes, which end it if there are no others. -/
private theorem readsBack_string {s : String} (unquoted : '"' ∉ s.toList) (free : '\x00' ∉ s.toList) :
    ReadsBack (.string s) := by
  have text : (s!"\"{s}\"").toList = '"' :: (s.toList ++ ['"']) := by
    simp only [String.toList_append]
    rfl
  have fits : ¬ TooLarge ('"' :: (s.toList ++ ['"'])) := fun large => by cases large.1.2 '"' List.mem_cons_self
  have read := @tokenize_piece s!"\"{s}\""
  rw [text, kindOf_quoted, String.ofList_toList] at read
  exact ⟨_, rfl, run_constant (read (munches_quote unquoted) fits (by simpa using free))⟩

private theorem printed_least : printed? (.int Int64.minValue) = some "-9223372036854775808" := by
  decide

/-- The digits of the least integer are too large without its sign. -/
private theorem tokenize_least :
    tokenize "-9223372036854775808" =
      .error (CompileError.Cause.atSpan (.literalOutOfRange "9223372036854775808") ⟨1, 20⟩) := by
  cbv

/-- What is printed for the least integer is no expression. -/
private theorem run_least :
    ((Engine.new Engine.defaultPassLimit).run (interpret "-9223372036854775808" false)).1 =
      .error (.ofCompileError "-9223372036854775808"
        (CompileError.Cause.atSpan (.literalOutOfRange "9223372036854775808") ⟨1, 20⟩)) := by
  rw [run_interpret]
  simp only [Expression.compile, Expression.compileTree, Expression.parse, tokenize_least]
  rfl

private theorem not_readsBack_least : ¬ ReadsBack (.int Int64.minValue) := by
  rintro ⟨text, printed, back⟩
  rw [printed_least] at printed
  cases printed
  rw [run_least] at back
  cases back

private theorem readsBack_int (notLeast : i ≠ Int64.minValue) : ReadsBack (.int i) := by
  cases value : i.toInt with
  | ofNat n => exact readsBack_natural value
  | negSucc n =>
    have least := i.minValue_le_toInt
    have differs : i.toInt ≠ Int64.minValue.toInt := fun same => notLeast (Int64.toInt_inj.mp same)
    have bound : Int64.minValue.toInt = -2 ^ 63 := rfl
    rw [value] at least differs
    exact readsBack_negative (j := Int64.ofInt ↑(n + 1)) value
      (Int64.toInt_ofInt_of_le (by omega) (by omega))

/-- Printed truth values, integers and texts without double quotes and NUL read back, except for the least
integer. -/
theorem readsBack_printed (value : Value) (literal : HasLiteral value) :
    ReadsBack value ↔ value ≠ .int Int64.minValue := by
  constructor
  · rintro back rfl
    exact not_readsBack_least back
  intro notLeast
  cases value with
  | bool b =>
    cases b with
    | false => exact ⟨"false", rfl, run_constant (by cbv)⟩
    | true => exact ⟨"true", rfl, run_constant (by cbv)⟩
  | int i => exact readsBack_int fun least => notLeast (congrArg Value.int least)
  | string s => exact readsBack_string literal.1 literal.2
  | void | float => exact literal.elim

/-- A text with a parenthesis and a line break in it. -/
theorem readsBack_printed_string : HasLiteral (.string "(a\n") ∧ ReadsBack (.string "(a\n") := by
  have literal : HasLiteral (.string "(a\n") := ⟨by decide, by decide⟩
  exact ⟨literal, (readsBack_printed _ literal).mpr nofun⟩

/-- The least integer is printed, but what is printed for it has a numeral that is too large. -/
theorem least_integer_unread :
    printed? (.int Int64.minValue) = some "-9223372036854775808" ∧
      ((Engine.new Engine.defaultPassLimit).run (interpret "-9223372036854775808" false)).1 =
        .error (.ofCompileError "-9223372036854775808"
          (CompileError.Cause.atSpan (.literalOutOfRange "9223372036854775808") ⟨1, 20⟩)) ∧
      ¬ ReadsBack (.int Int64.minValue) :=
  ⟨printed_least, run_least, not_readsBack_least⟩

end Reckoner.Command
