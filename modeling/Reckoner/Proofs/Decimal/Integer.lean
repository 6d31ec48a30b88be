import Mathlib.Algebra.Group.Nat.Defs
import Reckoner.Proofs.Numeral.Literal

/-!
Written integers. The digits of a natural number are digits and stand for it, and an integer that fits into
64 bits is found again from its value. Reading accepts digits with a sign or without and nothing else, and so
it reads what was written.
-/
namespace Reckoner.Decimal

open Numeral

/-- The number that digits stand for, where each place is worth ten times the one behind it. -/
def placeValue : List Char → Nat
  | [] => 0
  | digit :: behind => (digit.toNat - '0'.toNat) * 10 ^ behind.length + placeValue behind

/-- The characters are digits, with a sign in front of them or none, that stand for the integer. -/
inductive Denotes : List Char → Int → Prop where
  | bare {digits : List Char} : Digits digits → Denotes digits (placeValue digits)
  | plus {digits : List Char} : Digits digits → Denotes ('+' :: digits) (placeValue digits)
  | minus {digits : List Char} : Digits digits → Denotes ('-' :: digits) (-placeValue digits)

variable {cs digits : List Char} {i : Int}

theorem digits_ofNat (n : Nat) : Numeral.Digits (ofNat n) :=
  ⟨Nat.toDigits_ne_nil, fun _ mem => Nat.isDigit_of_mem_toDigits (by decide) (by decide) mem⟩

theorem digitsValue_ofNat (n : Nat) : digitsValue (ofNat n) = n :=
  Nat.ofDigitChars_ten_toDigits

theorem toInt64?_of_le {i : Int} (least : Int64.minValue.toInt ≤ i) (most : i ≤ Int64.maxValue.toInt) :
    toInt64? i = some (Int64.ofInt i) :=
  if_pos ⟨least, most⟩

/-- An integer of 64 bits is the one of its value. -/
theorem toInt64?_toInt (i : Int64) : toInt64? i.toInt = some i := by
  rw [toInt64?_of_le (Int64.minValue_le_toInt i) (Int64.toInt_le i), Int64.ofInt_toInt]

/-- Adding up digit by digit gives each its place. -/
private theorem foldl_digits (digits : List Char) (n : Nat) :
    digits.foldl (fun n c => 10 * n + (c.toNat - '0'.toNat)) n = n * 10 ^ digits.length + placeValue digits := by
  induction digits generalizing n with
  | nil => simp [placeValue]
  | cons c digits ih =>
    rw [List.foldl_cons, ih, placeValue, List.length_cons, Nat.pow_succ', Nat.add_mul, Nat.mul_left_comm,
      Nat.mul_assoc, Nat.add_assoc]

theorem digitsValue_eq (digits : List Char) : digitsValue digits = placeValue digits := by
  rw [digitsValue, foldl_digits, Nat.zero_mul, Nat.zero_add]

private theorem splitSign_cases (cs : List Char) :
    (∃ digits, cs = '-' :: digits ∧ splitSign cs = (true, digits)) ∨
      (∃ digits, cs = '+' :: digits ∧ splitSign cs = (false, digits)) ∨ splitSign cs = (false, cs) := by
  unfold splitSign
  split
  · exact .inl ⟨_, rfl, rfl⟩
  · exact .inr (.inl ⟨_, rfl, rfl⟩)
  · exact .inr (.inr rfl)

/-- Behind the sign there have to be digits. -/
private theorem toInt?_of_splitSign {negative : Bool} (split : splitSign cs = (negative, digits)) :
    toInt? cs = some i ↔ Digits digits ∧ (if negative then -(placeValue digits : Int) else placeValue digits) = i := by
  simp [toInt?, split, Digits, digitsValue_eq]

/-- Reading gives the integer that is denoted, and fails on everything else. -/
theorem toInt?_eq_some_iff : toInt? cs = some i ↔ Denotes cs i := by
  constructor
  · intro read
    rcases splitSign_cases cs with ⟨digits, rfl, split⟩ | ⟨digits, rfl, split⟩ | split <;>
      obtain ⟨isDigits, rfl⟩ := (toInt?_of_splitSign split).mp read
    · exact .minus isDigits
    · exact .plus isDigits
    · exact .bare isDigits
  · rintro (isDigits | isDigits | isDigits)
    · rw [toInt?_of_digits isDigits, digitsValue_eq]
      rfl
    · exact (toInt?_of_splitSign rfl).mpr ⟨isDigits, rfl⟩
    · exact (toInt?_of_splitSign rfl).mpr ⟨isDigits, rfl⟩

/-- What is written for an integer denotes it. -/
theorem denotes_ofInt (i : Int) : Denotes (ofInt i) i := by
  have value (n : Nat) : placeValue (ofNat n) = n := by rw [← digitsValue_eq, digitsValue_ofNat]
  cases i with
  | ofNat n =>
    have denotes := Denotes.bare (digits_ofNat n)
    rwa [value] at denotes
  | negSucc n =>
    have denotes := Denotes.minus (digits_ofNat (n + 1))
    rwa [value] at denotes

/-- The integer that a text denotes, if it has 64 bits. -/
theorem readInt64?_eq_some_iff {read : Int64} : readInt64? cs = some read ↔ Denotes cs read.toInt := by
  rw [← toInt?_eq_some_iff]
  constructor
  · intro found
    obtain ⟨i, isInt, fits⟩ := Option.bind_eq_some_iff.mp found
    unfold toInt64? at fits
    split at fits
    · next bounds =>
      cases fits
      rw [isInt, Int64.toInt_ofInt_of_le bounds.1 (Int.lt_add_one_of_le bounds.2)]
    · cases fits
  · intro isInt
    rw [readInt64?, isInt]
    exact toInt64?_toInt read

end Reckoner.Decimal
