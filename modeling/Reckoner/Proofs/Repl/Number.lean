import Reckoner.Proofs.Numeral.Literal
import Reckoner.Repl.Token

/-!
Numbers of a line and numerals of an expression. Both are digits, a point with digits behind it and a power of ten,
and both take as much as they can. They differ in one thing only: a number goes on with a power of ten behind a
bare point, where a numeral ends.
-/
namespace Reckoner.Repl.Token

open Numeral

/-- A power of ten, or nothing. -/
inductive Power : List Char → Prop where
  | none : Power []
  | mark {mark : Char} {sign digits : List Char} : Mark mark → Sign sign → Digits digits →
      Power (mark :: (sign ++ digits))

/-- What can stand behind the first digits of a number. -/
inductive Tail : List Char → Prop where
  | power {cs : List Char} : Power cs → Tail cs
  | point {digits power : List Char} : (∀ c ∈ digits, c.isDigit = true) → Power power →
      Tail ('.' :: (digits ++ power))

/-- A number of a line. -/
inductive Number : List Char → Prop where
  | mk {digits tail : List Char} : Digits digits → Tail tail → Number (digits ++ tail)

variable {cs digits rest : List Char} {c : Char}

section Power

/-- Digits up to where no more follow. -/
private theorem exists_digits (cs : List Char) : ∃ digits rest, cs = digits ++ rest ∧
    (∀ c ∈ digits, c.isDigit = true) ∧ rest.head?.all (fun c => !c.isDigit) = true := by
  refine ⟨_, _, (List.takeWhile_append_dropWhile (p := Char.isDigit)).symm, fun c => List.mem_takeWhile_imp, ?_⟩
  have stops := List.head?_dropWhile_not Char.isDigit cs
  cases left : (cs.dropWhile Char.isDigit).head? with
  | none => rfl
  | some c => simpa [left] using stops

/-- Behind its mark a power goes on with a sign or without and ends where no more digits follow. -/
private theorem power_split {mark : Char} (isMark : Mark mark) (cs : List Char) :
    ∃ sign digits rest, cs = sign ++ (digits ++ rest) ∧ Sign sign ∧
      (sign = [] → ∀ c ∈ (digits ++ rest).head?, ¬ Sign [c]) ∧ (∀ c ∈ digits, c.isDigit = true) ∧
      rest.head?.all (fun c => !c.isDigit) = true ∧
      powerLength (mark :: cs) = if digits.length = 0 then 0 else 1 + sign.length + digits.length := by
  have marked : (mark == 'e' || mark == 'E') = true := isMark.isMark
  simp only [powerLength, marked, if_true]
  split
  · next after =>
    obtain ⟨digits, rest, rfl, all, stops⟩ := exists_digits after
    refine ⟨['+'], digits, rest, rfl, .plus, nofun, all, stops, ?_⟩
    rw [List.drop_one, List.tail_cons, (span_digits all stops).1]
    rfl
  · next after =>
    obtain ⟨digits, rest, rfl, all, stops⟩ := exists_digits after
    refine ⟨['-'], digits, rest, rfl, .minus, nofun, all, stops, ?_⟩
    rw [List.drop_one, List.tail_cons, (span_digits all stops).1]
    rfl
  · next noPlus noMinus =>
    obtain ⟨digits, rest, rfl, all, stops⟩ := exists_digits cs
    refine ⟨[], digits, rest, rfl, .none, fun _ c head sign => ?_, all, stops, ?_⟩
    · obtain ⟨after, same⟩ := List.head?_eq_some_iff.mp head
      cases sign with
      | plus => exact noPlus after same
      | minus => exact noMinus after same
    · rw [List.drop_zero, (span_digits all stops).1]
      rfl

/-- A power with this mark in front has this sign and some of these digits. -/
private theorem digits_of_power {sign sign' digits' : List Char} (isSign : Sign sign)
    (noSign : sign = [] → ∀ c ∈ rest.head?, ¬ Sign [c]) (isSign' : Sign sign') (isDigits : Digits digits')
    (front : sign' ++ digits' <+: sign ++ rest) : sign' = sign ∧ digits' <+: rest := by
  obtain ⟨first, more, rfl⟩ := List.exists_cons_of_ne_nil isDigits.1
  have digit := not_sign_of_digit (isDigits.2 first List.mem_cons_self)
  cases isSign with
  | none =>
    cases rest with
    | nil => simp at front
    | cons c rest =>
      cases isSign' with
      | none => exact ⟨rfl, front⟩
      | plus | minus =>
        obtain ⟨rfl, -⟩ := List.cons_prefix_cons.mp front
        exact absurd (by constructor) (noSign rfl _ rfl)
  | plus =>
    cases isSign' with
    | none =>
      obtain ⟨rfl, -⟩ := List.cons_prefix_cons.mp front
      cases digit
    | plus => exact ⟨rfl, (List.cons_prefix_cons.mp front).2⟩
    | minus => cases (List.cons_prefix_cons.mp front).1
  | minus =>
    cases isSign' with
    | none =>
      obtain ⟨rfl, -⟩ := List.cons_prefix_cons.mp front
      cases digit
    | plus => cases (List.cons_prefix_cons.mp front).1
    | minus => exact ⟨rfl, (List.cons_prefix_cons.mp front).2⟩

/-- A power at the front has no more than this sign and these digits behind its mark. -/
private theorem Power.inside {mark : Char} {sign other : List Char} (isSign : Sign sign)
    (noSign : sign = [] → ∀ c ∈ (digits ++ rest).head?, ¬ Sign [c]) (all : ∀ c ∈ digits, c.isDigit = true)
    (stops : rest.head?.all (fun c => !c.isDigit) = true) (power : Power other)
    (front : other <+: mark :: (sign ++ (digits ++ rest))) :
    other = [] ∨ Digits digits ∧ other.length ≤ (mark :: (sign ++ digits)).length := by
  cases power with
  | none => exact .inl rfl
  | mark _ isSign' isDigits =>
    obtain ⟨rfl, behind⟩ := List.cons_prefix_cons.mp front
    obtain ⟨rfl, behindSign⟩ := digits_of_power isSign noSign isSign' isDigits behind
    have inside := prefix_of_prefix_append stops (fun d mem => by simp [isDigits.2 d mem]) behindSign
    refine .inr ⟨⟨?_, all⟩, ?_⟩
    · rintro rfl
      exact isDigits.1 (List.prefix_nil.mp inside)
    · simpa using inside.length_le

private theorem powerLength_of_not_mark (other : ¬ Mark c) : powerLength (c :: cs) = 0 := by
  have differs : c ≠ 'e' ∧ c ≠ 'E' := by
    constructor <;> rintro rfl <;> exact other (by constructor)
  simp [powerLength, differs]

/-- Where no power begins none is the longest. -/
private theorem longest_none (none : ∀ other, other <+: cs → Power other → other = []) : Longest Power cs [] :=
  ⟨List.nil_prefix, .none, fun other front power => by rw [none other front power]⟩

private theorem longest_mark {mark : Char} {sign : List Char} (isMark : Mark mark) (isSign : Sign sign)
    (noSign : sign = [] → ∀ c ∈ (digits ++ rest).head?, ¬ Sign [c]) (isDigits : Digits digits)
    (stops : rest.head?.all (fun c => !c.isDigit) = true) :
    Longest Power (mark :: (sign ++ (digits ++ rest))) (mark :: (sign ++ digits)) := by
  refine ⟨⟨rest, by simp⟩, .mark isMark isSign isDigits, fun other front power => ?_⟩
  rcases power.inside isSign noSign isDigits.2 stops front with rfl | ⟨-, shorter⟩
  · exact Nat.zero_le _
  · exact shorter

/-- A power of ten at the front is as long as its mark, its sign and its digits. -/
theorem longest_power (cs : List Char) : Longest Power cs (cs.take (powerLength cs)) := by
  cases cs with
  | nil => exact longest_none fun other front _ => List.prefix_nil.mp front
  | cons c cs =>
    by_cases isMark : Mark c
    · obtain ⟨sign, digits, rest, rfl, isSign, noSign, all, stops, length⟩ := power_split isMark cs
      rw [length]
      by_cases none : digits.length = 0
      · rw [if_pos none, List.take_zero]
        refine longest_none fun other front power => ?_
        rcases power.inside isSign noSign all stops front with same | ⟨isDigits, -⟩
        · exact same
        · exact absurd (List.length_eq_zero_iff.mp none) isDigits.1
      · have longest := longest_mark isMark isSign noSign ⟨mt List.length_eq_zero_iff.mpr none, all⟩ stops
        have count : (c :: (sign ++ digits)).length = 1 + sign.length + digits.length := by
          rw [List.length_cons, List.length_append, Nat.add_comm 1, Nat.add_right_comm]
        rw [if_neg none, ← count, ← List.prefix_iff_eq_take.mp longest.front]
        exact longest
    · rw [powerLength_of_not_mark isMark, List.take_zero]
      refine longest_none ?_
      rintro _ front (_ | ⟨isMark', -, -⟩)
      · rfl
      · obtain ⟨rfl, -⟩ := List.cons_prefix_cons.mp front
        exact absurd isMark' isMark

end Power

section Number

/-- What can stand behind the first digits of a number does not begin with a digit. -/
private theorem Power.head (h : Power cs) : cs.head?.all (fun c => !c.isDigit) = true := by
  cases h with
  | none => rfl
  | mark isMark _ _ => cases isMark <;> rfl

/-- No digits have to stand behind a point. -/
private theorem Tail.bare (h : Power cs) : Tail ('.' :: cs) :=
  @Tail.point [] cs (by simp) h

private theorem Tail.head (h : Tail cs) : cs.head?.all (fun c => !c.isDigit) = true := by
  cases h with
  | power power => exact power.head
  | point _ _ => rfl

/-- Digits behind a point belong to it. -/
private theorem longest_point {fraction behind : List Char} (all : ∀ c ∈ fraction, c.isDigit = true)
    (stops : behind.head?.all (fun c => !c.isDigit) = true) :
    Longest Tail ('.' :: (fraction ++ behind)) ('.' :: (fraction ++ behind.take (powerLength behind))) := by
  have longest := Longest.run all stops (longest_power behind) fun _ power => power.head
  refine ⟨List.cons_prefix_cons.mpr ⟨rfl, longest.front⟩, .point all (longest_power behind).here, ?_⟩
  rintro _ front (power | ⟨all', power⟩)
  · cases power with
    | none => exact Nat.zero_le _
    | mark isMark _ _ =>
      obtain ⟨rfl, -⟩ := List.cons_prefix_cons.mp front
      cases isMark
  · have shorter := longest.most _ (List.cons_prefix_cons.mp front).2 ⟨_, _, all', power, rfl⟩
    exact Nat.succ_le_succ shorter

/-- Without a point only a power of ten can stand behind the first digits. -/
private theorem longest_tail (noPoint : ∀ after, rest ≠ '.' :: after) :
    Longest Tail rest (rest.take (powerLength rest)) := by
  have longest := longest_power rest
  refine ⟨longest.front, .power longest.here, ?_⟩
  rintro _ front (power | ⟨_, _⟩)
  · exact longest.most _ front power
  · obtain ⟨after, rfl⟩ := front
    exact absurd rfl (noPoint _)

private theorem numberLength_whole (all : ∀ c ∈ digits, c.isDigit = true)
    (stops : rest.head?.all (fun c => !c.isDigit) = true) (noPoint : ∀ after, rest ≠ '.' :: after) :
    numberLength (digits ++ rest) = digits.length + powerLength rest := by
  simp only [numberLength, (span_digits all stops).1, List.drop_left]
  rw [Nat.add_zero, List.drop_left]

private theorem numberLength_point {fraction behind : List Char} (all : ∀ c ∈ digits, c.isDigit = true)
    (all' : ∀ c ∈ fraction, c.isDigit = true) (stops : behind.head?.all (fun c => !c.isDigit) = true) :
    numberLength (digits ++ '.' :: (fraction ++ behind)) =
      digits.length + (1 + fraction.length + powerLength behind) := by
  have taken := (@span_digits digits ('.' :: (fraction ++ behind)) all rfl).1
  have behindAll : (digits ++ '.' :: (fraction ++ behind)).drop (digits.length + (1 + fraction.length)) = behind := by
    rw [← List.drop_drop, List.drop_left, Nat.add_comm, List.drop_succ_cons, List.drop_left]
  simp only [numberLength, taken, List.drop_left, (span_digits all' stops).1, behindAll, Nat.add_assoc]

/-- What a number takes is the longest one there. -/
theorem longest_number (digit : c.isDigit = true) (cs : List Char) :
    Longest Number (c :: cs) ((c :: cs).take (numberLength (c :: cs))) := by
  obtain ⟨digits, rest, split, all, stops⟩ := exists_digits (c :: cs)
  have isDigits : Digits digits := by
    refine ⟨?_, all⟩
    rintro rfl
    rw [← List.nil_append rest, ← split] at stops
    simp [digit] at stops
  have ofTail {tail : List Char} (longest : Longest Tail rest tail) : Longest Number (digits ++ rest) (digits ++ tail) := by
    refine (Longest.run all stops longest fun _ isTail => isTail.head).mono (.mk isDigits longest.here) ?_
    rintro _ ⟨isDigits', isTail⟩
    exact ⟨_, _, isDigits'.2, isTail, rfl⟩
  rw [split]
  by_cases point : ∃ after, rest = '.' :: after
  · obtain ⟨after, rfl⟩ := point
    obtain ⟨fraction, behind, rfl, all', stops'⟩ := exists_digits after
    have taken : (digits ++ '.' :: (fraction ++ behind)).take (numberLength (digits ++ '.' :: (fraction ++ behind))) =
        digits ++ '.' :: (fraction ++ behind.take (powerLength behind)) := by
      rw [numberLength_point all all' stops', List.take_length_add_append, Nat.add_assoc, Nat.add_comm 1,
        List.take_succ_cons, List.take_length_add_append]
    rw [taken]
    exact ofTail (longest_point all' stops')
  · have noPoint : ∀ after, rest ≠ '.' :: after := fun after same => point ⟨after, same⟩
    rw [numberLength_whole all stops noPoint, List.take_length_add_append]
    exact ofTail (longest_tail noPoint)

theorem Number.ne_nil (h : Number cs) : cs ≠ [] := by
  obtain ⟨isDigits, -⟩ := h
  simp [isDigits.1]

theorem numberLength_pos (digit : c.isDigit = true) (cs : List Char) : 0 < numberLength (c :: cs) := by
  refine Nat.pos_of_ne_zero fun none => ?_
  have here := (longest_number digit cs).here
  rw [none, List.take_zero] at here
  exact here.ne_nil rfl

end Number

section Numeral

private theorem digits_of_whole {whole : List Char} (isWhole : Whole whole) (split : whole ++ rest = c :: cs)
    (digit : c.isDigit = true) : Digits whole := by
  obtain ⟨isSign, isDigits⟩ := isWhole
  cases isSign with
  | none => exact isDigits
  | plus | minus =>
    cases split
    cases digit

/-- A numeral without a sign is a number. -/
private theorem number_of_literal (digit : c.isDigit = true) (literal : Literal (c :: cs)) : Number (c :: cs) := by
  generalize whole : c :: cs = text at literal
  have ofMantissa {number power : List Char} (isNumber : Mantissa number) (isPower : Power power)
      (split : number ++ power = c :: cs) : Number (number ++ power) := by
    cases isNumber with
    | whole isWhole => exact .mk (digits_of_whole isWhole split digit) (.power isPower)
    | fraction isWhole isDigits =>
      rw [List.append_assoc, List.cons_append] at split ⊢
      exact .mk (digits_of_whole isWhole split digit) (.point isDigits.2 isPower)
  cases literal with
  | mantissa isNumber => simpa using ofMantissa isNumber .none (by simp [whole])
  | point isWhole => exact .mk (digits_of_whole isWhole whole.symm digit) (.bare .none)
  | power isNumber isMark isWhole =>
    obtain ⟨isSign, isDigits⟩ := isWhole
    exact ofMantissa isNumber (.mark isMark isSign isDigits) whole.symm

/-- No numeral goes on with a power of ten behind a bare point. -/
private theorem not_literal_of_power {mark : Char} (isDigits : Digits digits) (isMark : Mark mark) (text : List Char)
    (front : digits ++ ['.'] ++ [mark] <+: text) : ¬ Literal text := by
  obtain ⟨more, rfl⟩ := front
  intro literal
  have whole : Whole digits := .mk .none isDigits
  have beginning : isBeginning (digits ++ ['.'] ++ [mark]) = true := isBeginning_iff.mpr ⟨more, literal⟩
  rw [isBeginning_eq, List.append_assoc, State.run_append, State.run_whole whole] at beginning
  cases isMark <;> cases beginning

/-- A number is a numeral, or a power of ten stands in it behind a bare point. -/
private theorem literal_or_power (number : Number cs) : Literal cs ∨ ∃ whole mark sign power,
    cs = whole ++ ['.'] ++ mark :: (sign ++ power) ∧ Digits whole ∧ Mark mark ∧ Sign sign ∧ Digits power := by
  obtain ⟨isDigits, isTail⟩ := number
  have whole : Whole _ := .mk .none isDigits
  rw [List.nil_append] at whole
  cases isTail with
  | power isPower =>
    cases isPower with
    | none =>
      rw [List.append_nil]
      exact .inl (.mantissa (.whole whole))
    | mark isMark isSign isPower => exact .inl (.power (.whole whole) isMark (.mk isSign isPower))
  | @point fraction _ all isPower =>
    by_cases bare : fraction = []
    · subst bare
      cases isPower with
      | none => exact .inl (.point whole)
      | mark isMark isSign isPower => exact .inr ⟨_, _, _, _, by simp, isDigits, isMark, isSign, isPower⟩
    · have isNumber : Mantissa _ := .fraction whole ⟨bare, all⟩
      cases isPower with
      | none =>
        rw [List.append_nil]
        exact .inl (.mantissa isNumber)
      | mark isMark isSign isPower =>
        rw [← List.cons_append, ← List.append_assoc]
        exact .inl (.power isNumber isMark (.mk isSign isPower))

/-- The longest number has all digits of its power. -/
private theorem stops_of_longest {whole sign power : List Char} {mark : Char} (isWhole : Digits whole)
    (isMark : Mark mark) (isSign : Sign sign) (isPower : Digits power)
    (longest : Longest Number (whole ++ ['.'] ++ mark :: (sign ++ power) ++ rest)
      (whole ++ ['.'] ++ mark :: (sign ++ power))) : rest.head?.all (fun c => !c.isDigit) = true := by
  cases rest with
  | nil => rfl
  | cons d rest =>
    by_contra more
    have isDigit : d.isDigit = true := by simpa using more
    have number := Number.mk isWhole (.bare (.mark isMark isSign (isPower.concat isDigit)))
    have longer := longest.most _ ⟨rest, by simp⟩ number
    simp only [List.length_append, List.length_cons, List.length_nil] at longer
    omega

/-- A number takes what a numeral takes, or it goes on with the power of ten behind a bare point. -/
theorem number_cases (digit : c.isDigit = true) :
    (c :: cs).take (numberLength (c :: cs)) = (c :: cs).take (lengthAtFront (c :: cs)) ∨
      ∃ whole mark sign power rest, c :: cs = whole ++ ['.'] ++ (mark :: (sign ++ power) ++ rest) ∧
        Digits whole ∧ Mark mark ∧ Sign sign ∧ Digits power ∧ rest.head?.all (fun c => !c.isDigit) = true ∧
        (c :: cs).take (lengthAtFront (c :: cs)) = whole ++ ['.'] ∧
        (c :: cs).take (numberLength (c :: cs)) = whole ++ ['.'] ++ mark :: (sign ++ power) := by
  have number := longest_number digit cs
  obtain ⟨-, numeral⟩ := longest_digit digit cs
  -- a numeral here has no sign
  have shorter : ∀ other, other <+: c :: cs → Literal other →
      other.length ≤ ((c :: cs).take (numberLength (c :: cs))).length := by
    intro other front literal
    obtain ⟨first, more, rfl⟩ := List.exists_cons_of_ne_nil literal.ne_nil
    obtain ⟨rfl, -⟩ := List.cons_prefix_cons.mp front
    exact number.most _ front (number_of_literal digit literal)
  rcases literal_or_power number.here with literal | ⟨whole, mark, sign, power, text, isWhole, isMark, isSign, isPower⟩
  · exact .inl (Longest.unique ⟨number.front, literal, shorter⟩ numeral)
  · obtain ⟨rest, split⟩ := number.front
    rw [text] at split number
    have parts : c :: cs = whole ++ ['.'] ++ (mark :: (sign ++ power) ++ rest) := by simp [← split]
    have bare : Longest Literal (whole ++ ['.']) (whole ++ ['.']) :=
      ⟨List.prefix_refl _, .point (.mk .none isWhole), fun _ front _ => front.length_le⟩
    refine .inr ⟨whole, mark, sign, power, rest, parts, isWhole, isMark, isSign, isPower, ?_, numeral.unique ?_, text⟩
    · rw [← split] at number
      exact stops_of_longest isWhole isMark isSign isPower number
    · rw [parts]
      exact bare.stop (not_literal_of_power isWhole isMark)

end Numeral

end Reckoner.Repl.Token
