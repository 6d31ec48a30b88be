import Mathlib.Data.Option.Basic
import Reckoner.Numeral

/-!
What the characters of a numeral amount to, as the states of an automaton. Each state says what may have been read,
which what is remembered of the characters tells, so the automaton goes on exactly where one more character can follow.
-/
namespace Reckoner.Numeral

/-- What the characters read so far amount to. -/
inductive State where
  /-- Nothing yet. -/
  | start
  /-- A sign only. -/
  | sign
  /-- Digits, after a sign or not. -/
  | whole
  /-- Digits and a point. -/
  | point
  /-- Digits after the point. -/
  | fraction
  /-- The mark of a power of ten. -/
  | mark
  /-- The sign of the power. -/
  | powerSign
  /-- Digits of the power. -/
  | power
deriving DecidableEq

namespace State

/-- The state after one more character, if the text can still become a numeral. -/
def step (state : State) (c : Char) : Option State :=
  if c.isDigit then
    match state with
    | start | sign | whole => some whole
    | point | fraction => some fraction
    | mark | powerSign | power => some power
  else if isSign c then
    match state with
    | start => some sign
    | mark => some powerSign
    | _ => none
  else if c == '.' then
    match state with
    | whole => some point
    | _ => none
  else if isMark c then
    match state with
    | whole | fraction => some mark
    | _ => none
  else none

/-- Whether what has been read is a numeral. -/
def accepts : State → Bool
  | whole | point | fraction | power => true
  | start | sign | mark | powerSign => false

/-- The state after all characters. -/
def run (state : State) (cs : List Char) : Option State :=
  cs.foldlM step state

/-- What is remembered of characters that lead to the state. -/
inductive Remembers : State → Trace → Prop where
  | start : Remembers .start .start
  | sign {c : Char} : isSign c = true → Remembers .sign ⟨false, false, some c⟩
  | whole {c : Char} : c.isDigit = true → Remembers .whole ⟨false, false, some c⟩
  | point : Remembers .point ⟨true, false, some '.'⟩
  | fraction {c : Char} : c.isDigit = true → Remembers .fraction ⟨true, false, some c⟩
  | mark {point : Bool} {c : Char} : isMark c = true → Remembers .mark ⟨point, true, some c⟩
  | powerSign {point : Bool} {c : Char} : isSign c = true → Remembers .powerSign ⟨point, true, some c⟩
  | power {point : Bool} {c : Char} : c.isDigit = true → Remembers .power ⟨point, true, some c⟩

end State

variable {c : Char} {cs : List Char} {state : State} {trace : Trace}

theorem isSign_iff : isSign c = true ↔ c = '+' ∨ c = '-' := by
  simp [isSign]

theorem isMark_iff : isMark c = true ↔ c = 'e' ∨ c = 'E' := by
  simp [isMark]

theorem not_sign_of_digit (digit : c.isDigit = true) : isSign c = false := by
  rw [← Bool.not_eq_true, isSign_iff]
  rintro (rfl | rfl) <;> cases digit

theorem not_mark_of_digit (digit : c.isDigit = true) : isMark c = false := by
  rw [← Bool.not_eq_true, isMark_iff]
  rintro (rfl | rfl) <;> cases digit

theorem not_point_of_digit (digit : c.isDigit = true) : (c == '.') = false := by
  rw [beq_eq_false_iff_ne]
  rintro rfl
  cases digit

namespace State.Remembers

/-- A digit can always follow. -/
private theorem step_digit (h : Remembers state trace) (digit : c.isDigit = true) :
    Option.Rel Remembers (state.step c) (trace.step? c) := by
  simp only [State.step, Trace.step?, Trace.admits, digit, if_true, not_mark_of_digit digit, not_point_of_digit digit,
    Bool.or_false]
  cases h with
  | start | sign | whole => exact .some (.whole digit)
  | point | fraction => exact .some (.fraction digit)
  | mark | powerSign | power => exact .some (.power digit)

/-- A sign can follow at the beginning and behind the letter of a power. -/
private theorem step_sign (h : Remembers state trace) (sign : isSign c = true) :
    Option.Rel Remembers (state.step c) (trace.step? c) := by
  have digit : c.isDigit = false := by
    rcases isSign_iff.mp sign with rfl | rfl <;> rfl
  have mark : isMark c = false := by
    rcases isSign_iff.mp sign with rfl | rfl <;> rfl
  have point : (c == '.') = false := by
    rcases isSign_iff.mp sign with rfl | rfl <;> rfl
  simp only [State.step, Trace.step?, Trace.admits, digit, sign, mark, point, Bool.false_eq_true, if_false, if_true,
    Bool.or_false]
  cases h with
  | start => exact .some (.sign sign)
  | mark isMark =>
    simp only [Option.all_some, isMark, if_true]
    exact .some (.powerSign sign)
  | sign isSign | powerSign isSign =>
    rcases isSign_iff.mp isSign with rfl | rfl <;> exact .none
  | point => exact .none
  | whole digit | fraction digit | power digit =>
    simp only [Option.all_some, not_mark_of_digit digit, Bool.false_eq_true, if_false]
    exact .none

/-- A point can follow behind the first digits. -/
private theorem step_point (h : Remembers state trace) : Option.Rel Remembers (state.step '.') (trace.step? '.') := by
  cases h with
  | start => exact .none
  | point => exact .none
  | sign isSign | powerSign isSign => rcases isSign_iff.mp isSign with rfl | rfl <;> exact .none
  | mark isMark => rcases isMark_iff.mp isMark with rfl | rfl <;> exact .none
  | whole digit =>
    simp only [Trace.step?, Trace.admits, Option.any_some, digit]
    exact .some .point
  | fraction digit =>
    simp only [Trace.step?, Trace.admits, Option.any_some, digit]
    exact .none
  | @power point _ digit =>
    simp only [Trace.step?, Trace.admits, Option.any_some, digit]
    cases point <;> exact .none

/-- The letter of a power can follow behind the digits of a number. -/
private theorem step_mark (h : Remembers state trace) (isMark : isMark c = true) :
    Option.Rel Remembers (state.step c) (trace.step? c) := by
  have digit : c.isDigit = false := by
    rcases isMark_iff.mp isMark with rfl | rfl <;> rfl
  have sign : isSign c = false := by
    rcases isMark_iff.mp isMark with rfl | rfl <;> rfl
  have point : (c == '.') = false := by
    rcases isMark_iff.mp isMark with rfl | rfl <;> rfl
  simp only [State.step, Trace.step?, Trace.admits, digit, sign, isMark, point, Bool.false_eq_true, if_false, if_true,
    Bool.or_false, Bool.or_true]
  cases h with
  | start => exact .none
  | point => exact .none
  | sign isSign | powerSign isSign => rcases isSign_iff.mp isSign with rfl | rfl <;> exact .none
  | mark isMark' => rcases isMark_iff.mp isMark' with rfl | rfl <;> exact .none
  | whole digit | fraction digit =>
    simp only [Option.any_some, digit]
    exact .some (.mark isMark)
  | power digit =>
    simp only [Option.any_some, digit]
    exact .none

/-- After one more character the state says what is remembered then, or the character cannot follow. -/
theorem step (h : Remembers state trace) (c : Char) : Option.Rel Remembers (state.step c) (trace.step? c) := by
  by_cases digit : c.isDigit = true
  · exact h.step_digit digit
  by_cases sign : isSign c = true
  · exact h.step_sign sign
  by_cases point : (c == '.') = true
  · obtain rfl := eq_of_beq point
    exact h.step_point
  by_cases mark : isMark c = true
  · exact h.step_mark mark
  · simp only [State.step, Trace.step?, Trace.admits, digit, sign, point, mark, Bool.false_eq_true, if_false]
    exact .none

theorem run (h : Remembers state trace) (cs : List Char) :
    Option.Rel Remembers (state.run cs) (cs.foldlM Trace.step? trace) := by
  induction cs generalizing state trace with
  | nil => exact .some h
  | cons c cs ih =>
    simp only [State.run, List.foldlM_cons]
    have stepped := h.step c
    generalize state.step c = next at stepped
    generalize trace.step? c = next' at stepped
    cases stepped with
    | none => exact .none
    | some h => exact ih h

end State.Remembers

/-- A text can become a numeral as long as the automaton goes on. -/
theorem isBeginning_eq (cs : List Char) : isBeginning cs = (State.start.run cs).isSome := by
  have ran := State.Remembers.start.run cs
  rw [isBeginning]
  generalize State.start.run cs = state at ran
  generalize cs.foldlM Trace.step? .start = trace at ran
  cases ran <;> rfl

end Reckoner.Numeral
