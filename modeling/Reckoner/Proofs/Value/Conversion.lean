import Mathlib
import Reckoner.Proofs.Decimal.Integer
import Reckoner.Proofs.Operator.Perform
import Reckoner.Proofs.Text.Blank

/-!
Conversions from and to texts. A text is read as an integer if it is one, with white space around it or without,
and so what is written for an integer or a truth value is read as that again.
-/
namespace Reckoner

/-- The cast operator that converts to the type. -/
def Operator.castTo? : ValueType → Option Operator
  | .bool => some castBool
  | .int => some castInt
  | .float => some castFloat
  | .string => some castString
  | .void => none

namespace Value

/-- Converting the value comes to the result, and so does the cast operator wherever its operand keeps the value. -/
structure Converts (value : Value) (target : ValueType) (result : Except RuntimeError Value) : Prop where
  converts : value.convert target = result
  casts : ∀ op, Operator.castTo? target = some op → ∀ type slot host, slot.read host.heap = value →
    (Tree.operatorSlot op .leading type [slot]).on host = (result.map .owned, host)

/-- The text is that of an integer, with white space around it or without. -/
def Spells (text : String) (i : Int) : Prop :=
  ∃ body, Text.Trims text.toList body ∧ Decimal.Denotes body i

variable {value : Value} {target : ValueType} {result : Except RuntimeError Value} {text : String}
  {before body after digits : List Char} {i : Int}

/-- Casting is converting. -/
theorem converts_iff : Converts value target result ↔ value.convert target = result := by
  refine ⟨Converts.converts, fun converts => ⟨converts, ?_⟩⟩
  rintro op isCast type slot host rfl
  have casts : op.form.allows .leading = true ∧ op.form.lvalueOnly = false ∧ op.result = .fixed target ∧
      ∀ value, op.computeUnary target value = value.convert target := by
    cases target <;> cases isCast <;> exact ⟨rfl, rfl, rfl, fun value => by cases value <;> rfl⟩
  obtain ⟨allowed, reads, fixed, computes⟩ := casts
  rw [Tree.operatorSlot_on allowed rfl (by simp [reads])]
  simp only [Operator.perform, Operator.compute, Operator.typeFrom, fixed, reads, List.map_cons, List.map_nil,
    computes, converts]
  cases result <;> rfl

section Integers

private theorem isBlank_digit {c : Char} (digit : c.isDigit = true) : Text.isBlank c = false := by
  simp only [Char.isDigit, Bool.and_eq_true, decide_eq_true_eq] at digit
  obtain ⟨low, high⟩ := digit
  have low : 48 ≤ c.toNat := low
  have high : c.toNat ≤ 57 := high
  simp [Text.isBlank]
  omega

/-- The text of an integer is not touched by trimming. -/
private theorem trims_denotes (denotes : Decimal.Denotes body i) (blank : Text.Blank before)
    (blank' : Text.Blank after) : Text.Trims (before ++ body ++ after) body := by
  have last (front : List Char) {digits : List Char} (isDigits : Numeral.Digits digits) :
      ∀ c ∈ (front ++ digits).getLast?, Text.isBlank c = false := by
    obtain ⟨nonempty, all⟩ := isDigits
    intro c isLast
    rw [List.getLast?_append_of_ne_nil _ nonempty] at isLast
    exact isBlank_digit (all c (List.mem_of_getLast? isLast))
  refine ⟨⟨before, after, blank, blank', rfl⟩, ?_, ?_⟩
  · rintro c first
    cases denotes with
    | bare isDigits => exact isBlank_digit (isDigits.2 c (List.mem_of_head? first))
    | plus | minus =>
      cases first
      decide
  · cases denotes with
    | bare isDigits => exact last [] isDigits
    | plus isDigits => exact last ['+'] isDigits
    | minus isDigits => exact last ['-'] isDigits

/-- What a text spells is what is read when the white space around it is gone. -/
theorem spells_iff : Spells text i ↔ Decimal.toInt? (Text.trimChars text.toList) = some i := by
  rw [Decimal.toInt?_eq_some_iff]
  constructor
  · rintro ⟨body, trims, denotes⟩
    rwa [Text.trimChars_of_trims trims]
  · intro denotes
    exact ⟨_, Text.trims_trimChars _, denotes⟩

/-- A text converts to the integer that it spells. -/
theorem convert_int_iff {i : Int64} : (string text).convert .int = .ok (.int i) ↔ Spells text i.toInt := by
  have read : (string text).convert .int = .ok (.int i) ↔
      Decimal.readInt64? (Text.trimChars text.toList) = some i := by
    simp only [convert, toInt]
    cases Decimal.readInt64? (Text.trimChars text.toList) <;>
      simp [Functor.map, Except.map, throw, throwThe, MonadExceptOf.throw, pure, Except.pure]
  rw [read, Decimal.readInt64?_eq_some_iff, spells_iff, Decimal.toInt?_eq_some_iff]

/-- A text that spells no integer, or one that is too large, is refused as it is. -/
theorem convert_int_refused (refused : ∀ i : Int64, ¬ Spells text i.toInt) :
    (string text).convert .int = .error (.invalidCast text .int) := by
  have unread (i : Int64) := mt convert_int_iff.mp (refused i)
  simp only [convert, toInt] at unread ⊢
  cases read : Decimal.readInt64? (Text.trimChars text.toList) with
  | none => rfl
  | some i =>
    simp only [read] at unread
    exact absurd rfl (unread i)

end Integers

/-- What is written for integers and truth values is read as these again, for an integer with any white space
around it as well. A text is read as the integer that it spells if this has 64 bits, and otherwise the conversion
fails with the text as it is. -/
theorem text_conversions_agree :
    (∀ i : Int64, ∃ text, Converts (.int i) .string (.ok (.string text)) ∧
      ∀ before after : String, Text.Blank before.toList → Text.Blank after.toList →
        Converts (.string (before ++ text ++ after)) .int (.ok (.int i))) ∧
    (∀ b : Bool, ∃ text, Converts (.bool b) .string (.ok (.string text)) ∧
      Converts (.string text) .bool (.ok (.bool b))) ∧
    ∀ text : String,
      (∀ i : Int64, Converts (.string text) .int (.ok (.int i)) ↔ Spells text i.toInt) ∧
      ((∀ i, Spells text i → i < -2 ^ 63 ∨ 2 ^ 63 ≤ i) →
        Converts (.string text) .int (.error (.invalidCast text .int))) := by
  simp only [converts_iff]
  refine ⟨fun i => ⟨_, rfl, fun before after blank blank' => ?_⟩, fun b => ?_, fun text => ⟨fun i => ?_, ?_⟩⟩
  · have denotes := Decimal.denotes_ofInt i.toInt
    refine convert_int_iff.mpr ⟨_, ?_, denotes⟩
    simpa [Value.text, Decimal.ofInt64] using trims_denotes denotes blank blank'
  · cases b with
    | false => exact ⟨"false", rfl, rfl⟩
    | true => exact ⟨"true", rfl, rfl⟩
  · exact convert_int_iff
  · intro outside
    refine convert_int_refused fun i spells => ?_
    have least : -2 ^ 63 ≤ i.toInt := i.minValue_le_toInt
    have most : i.toInt < 2 ^ 63 := i.toInt_lt
    have := outside _ spells
    omega

/-- The least integer between other white space than blanks, and the first integer that is too large. -/
theorem text_conversions_agree_ends :
    (∃ text, Converts (.int Int64.minValue) .string (.ok (.string text)) ∧
      Converts (.string ("\u2003" ++ text ++ "\u00a0\n")) .int (.ok (.int Int64.minValue))) ∧
    Spells " +9223372036854775808" (2 ^ 63) ∧
    Converts (.string " +9223372036854775808") .int (.error (.invalidCast " +9223372036854775808" .int)) := by
  obtain ⟨integers, -, texts⟩ := text_conversions_agree
  obtain ⟨text, written, read⟩ := integers Int64.minValue
  have spells : Spells " +9223372036854775808" (2 ^ 63) := spells_iff.mpr (by cbv)
  refine ⟨⟨text, written, read _ _ ?_ ?_⟩, spells, (texts _).2 fun i other => ?_⟩
  · simp [Text.Blank, Text.isBlank]
  · simp [Text.Blank, Text.isBlank]
  · have same := Option.some.inj ((spells_iff.mp spells).symm.trans (spells_iff.mp other))
    omega

end Value

end Reckoner
