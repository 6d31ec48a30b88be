import Reckoner.Proofs.Grammar.Parser

/-!
The parser as a machine with a stack. What is open around the place that has been reached is kept in
frames, and an operator is applied as soon as the next token shows that nothing more belongs to its right
operand. Which frames are open depends only on what stands to the left, so that a part of an expression
can be replaced by one operand as long as it leaves the machine in the same state.
-/
namespace Reckoner

/-- Something that has been begun and needs an operand to its right. -/
inductive Frame where
  | leading (occurrence : Occurrence)
  | binary (left : Term) (occurrence : Occurrence)
  | group
  | call (name : String) (arguments : List Term)

namespace Frame

/-- The least precedence of the operators that belong to the operand of an operator. -/
def level? : Frame → Option Nat
  | leading occurrence => some occurrence.precedence
  | binary _ occurrence => some occurrence.rightLevel
  | group | call .. => none

/-- An operator with its last operand. -/
def apply : Frame → Term → Term
  | leading occurrence, term => .operation occurrence.operator .leading [term]
  | binary left occurrence, term => .operation occurrence.operator .binary [left, term]
  | group, term | call .., term => term

end Frame

/-- How far an expression has been read, with the frames that are open, the innermost first. -/
inductive Machine where
  /-- An operand has to follow. -/
  | before (frames : List Frame)
  /-- The opening parenthesis of a call has to follow. -/
  | named (frames : List Frame) (name : String)
  /-- An operand has been read, which operators may still follow. -/
  | after (frames : List Frame) (term : Term)

namespace Machine

/-- Applies the innermost operators whose operands no operator below `bound` belongs to. -/
def close (bound : Nat) : List Frame → Term → List Frame × Term
  | [], term => ([], term)
  | frame :: frames, term =>
    match frame.level? with
    | none => (frame :: frames, term)
    | some level =>
      if bound ≤ level then close bound frames (frame.apply term) else (frame :: frames, term)

/-- Reads one token. -/
def step : Machine → Token → Option Machine
  | before frames, .operand term => some (after frames term)
  | before frames, .operator occurrence =>
    if occurrence.form.leading then some (before (.leading occurrence :: frames)) else none
  | before frames, .function name => some (named frames name)
  | before frames, .opening => some (before (.group :: frames))
  | before (.call name [] :: frames), .closing => some (after frames (.call name []))
  | named frames name, .opening => some (before (.call name [] :: frames))
  | after frames term, .operator occurrence =>
    match close (occurrence.precedence + 1) frames term with
    | (frames, term) =>
      if occurrence.form.trailing then
        some (after frames (.operation occurrence.operator .trailing [term]))
      else if occurrence.form.binary then some (before (.binary term occurrence :: frames))
      else none
  | after frames term, .closing =>
    match close 0 frames term with
    | (.group :: frames, term) => some (after frames term)
    | (.call name arguments :: frames, term) =>
      some (after frames (.call name (arguments ++ [term])))
    | _ => none
  | after frames term, .comma =>
    match close 0 frames term with
    | (.call name arguments :: frames, term) =>
      some (before (.call name (arguments ++ [term]) :: frames))
    | _ => none
  | _, _ => none

/-- Reads several tokens. -/
def steps (machine : Machine) (tokens : List Token) : Option Machine :=
  tokens.foldlM step machine

/-- What has been read, if it is an expression as a whole. -/
def finish : Machine → Option Term
  | after frames term =>
    match close 0 frames term with
    | ([], term) => some term
    | _ => none
  | _ => none

/-- Reads tokens to the end. -/
def run (machine : Machine) (tokens : List Token) : Option Term :=
  (machine.steps tokens).bind finish

@[simp] theorem steps_nil (machine : Machine) : machine.steps [] = some machine := rfl

@[simp] theorem steps_cons (machine : Machine) (token : Token) (tokens : List Token) :
    machine.steps (token :: tokens) = (machine.step token).bind fun next => next.steps tokens := by
  simp [steps, List.foldlM_cons]

theorem steps_append (machine : Machine) (first second : List Token) :
    machine.steps (first ++ second) = (machine.steps first).bind fun next => next.steps second := by
  simp [steps, List.foldlM_append]

theorem run_nil (machine : Machine) : machine.run [] = machine.finish := rfl

theorem run_cons (machine : Machine) (token : Token) (tokens : List Token) :
    machine.run (token :: tokens) = (machine.step token).bind fun next => next.run tokens := by
  simp [run, Option.bind_assoc]

theorem run_append (machine : Machine) (first second : List Token) :
    machine.run (first ++ second) = (machine.steps first).bind fun next => next.run second := by
  simp [run, steps_append, Option.bind_assoc]

/-- What reading one token comes to. -/
inductive Stepped : Machine → Token → Machine → Prop where
  | operand (frames : List Frame) (term : Term) :
      Stepped (before frames) (.operand term) (after frames term)
  | leading (frames : List Frame) {occurrence : Occurrence} : occurrence.form.leading = true →
      Stepped (before frames) (.operator occurrence) (before (.leading occurrence :: frames))
  | function (frames : List Frame) (name : String) :
      Stepped (before frames) (.function name) (named frames name)
  | group (frames : List Frame) : Stepped (before frames) .opening (before (.group :: frames))
  | call (frames : List Frame) (name : String) :
      Stepped (named frames name) .opening (before (.call name [] :: frames))
  | callWithout (frames : List Frame) (name : String) :
      Stepped (before (.call name [] :: frames)) .closing (after frames (.call name []))
  | trailing {frames frames' : List Frame} {term term' : Term} {occurrence : Occurrence} :
      close (occurrence.precedence + 1) frames term = (frames', term') →
      occurrence.form.trailing = true → Stepped (after frames term) (.operator occurrence)
        (after frames' (.operation occurrence.operator .trailing [term']))
  | binary {frames frames' : List Frame} {term term' : Term} {occurrence : Occurrence} :
      close (occurrence.precedence + 1) frames term = (frames', term') →
      occurrence.form.binary = true → Stepped (after frames term) (.operator occurrence)
        (before (.binary term' occurrence :: frames'))
  | groupEnd {frames frames' : List Frame} {term term' : Term} :
      close 0 frames term = (.group :: frames', term') →
      Stepped (after frames term) .closing (after frames' term')
  | callEnd {frames frames' : List Frame} {term term' : Term} {name : String} {terms : List Term} :
      close 0 frames term = (.call name terms :: frames', term') →
      Stepped (after frames term) .closing (after frames' (.call name (terms ++ [term'])))
  | argument {frames frames' : List Frame} {term term' : Term} {name : String} {terms : List Term} :
      close 0 frames term = (.call name terms :: frames', term') →
      Stepped (after frames term) .comma (before (.call name (terms ++ [term']) :: frames'))

theorem step_some {machine next : Machine} {token : Token} (h : machine.step token = some next) :
    Stepped machine token next := by
  rcases machine with frames | ⟨frames, name⟩ | ⟨frames, term⟩
  · cases token with
    | operand term => cases h; exact .operand ..
    | function name => cases h; exact .function ..
    | opening => cases h; exact .group _
    | comma | unknown => cases h
    | operator occurrence =>
      simp only [step] at h
      split at h
      · next leads =>
        cases h
        exact .leading _ leads
      · cases h
    | closing =>
      rcases frames with _ | ⟨_ | _ | _ | ⟨_, _ | _⟩, _⟩ <;> cases h
      exact .callWithout ..
  · cases token with
    | opening => cases h; exact .call ..
    | operand | operator | function | closing | comma | unknown => cases h
  · cases token with
    | operand | function | opening | unknown => cases h
    | operator occurrence =>
      simp only [step] at h
      split at h
      · next trails =>
        cases h
        exact .trailing rfl trails
      split at h
      · next between =>
        cases h
        exact .binary rfl between
      · cases h
    | closing =>
      simp only [step] at h
      split at h
      · next closed =>
        cases h
        exact .groupEnd closed
      · next closed =>
        cases h
        exact .callEnd closed
      · cases h
    | comma =>
      simp only [step] at h
      split at h
      · next closed =>
        cases h
        exact .argument closed
      · cases h

/-- The level of the innermost frame, with nothing below which an operator can end its operand. -/
def levelOf (frames : List Frame) : Nat :=
  (frames.head?.bind Frame.level?).getD 0

/-- An operator that does not belong to the operand of the innermost one leaves the frames alone. -/
theorem close_eq_self {bound : Nat} {frames : List Frame} (low : levelOf frames < bound)
    (term : Term) : close bound frames term = (frames, term) := by
  cases frames with
  | nil => rfl
  | cons frame frames =>
    simp only [levelOf, List.head?_cons, Option.bind_some] at low
    unfold close
    cases level : frame.level? with
    | none => rfl
    | some level =>
      rw [level, Option.getD_some] at low
      simp only
      rw [if_neg (by omega)]

theorem close_cons {bound level : Nat} {frame : Frame} (found : frame.level? = some level)
    (le : bound ≤ level) (frames : List Frame) (term : Term) :
    close bound (frame :: frames) term = close bound frames (frame.apply term) := by
  rw [close, found]
  exact if_pos le

/-- The frames from the innermost bracket on. -/
def brackets (frames : List Frame) : List Frame :=
  frames.dropWhile fun frame => frame.level?.isSome

theorem brackets_close (bound : Nat) (frames : List Frame) (term : Term) :
    brackets (close bound frames term).1 = brackets frames := by
  induction frames generalizing term with
  | nil => rfl
  | cons frame frames ih =>
    unfold close
    cases level : frame.level? with
    | none => rfl
    | some level =>
      simp only
      split
      · rw [ih]
        simp [brackets, level]
      · rfl

/-- Everything up to the innermost bracket is applied when the bracket is closed. -/
theorem close_zero (frames : List Frame) (term : Term) :
    (close 0 frames term).1 = brackets frames := by
  induction frames generalizing term with
  | nil => rfl
  | cons frame frames ih =>
    cases level : frame.level? with
    | none => simp [close, brackets, level]
    | some level =>
      rw [close_cons level (Nat.zero_le _), ih]
      simp [brackets, level]

/-- The next token is no operator that could still belong to an operand of this level. -/
def Stops (level : Nat) (tokens : List Token) : Prop :=
  ∀ occurrence, tokens.head? = some (.operator occurrence) →
    occurrence.form.trailing = true ∨ occurrence.form.binary = true → occurrence.precedence < level

/-- An operator is applied once its operand has ended. -/
theorem run_apply {frame : Frame} {level : Nat} (found : frame.level? = some level)
    {tokens : List Token} (stops : Stops level tokens) (frames : List Frame) (term : Term) :
    (after (frame :: frames) term).run tokens = (after frames (frame.apply term)).run tokens := by
  have all := close_cons found (Nat.zero_le _) frames term
  cases tokens with
  | nil => simp only [run_nil, finish, all]
  | cons token rest =>
    rw [run_cons, run_cons]
    congr 1
    cases token with
    | operand | function | opening | unknown => rfl
    | closing | comma => simp only [step, all]
    | operator occurrence =>
      by_cases follows : occurrence.form.trailing = true ∨ occurrence.form.binary = true
      · have lower : occurrence.precedence + 1 ≤ level := stops occurrence rfl follows
        simp only [step, close_cons found lower]
      · have none : occurrence.form.trailing = false ∧ occurrence.form.binary = false := by
          simpa using follows
        simp [step, none]

end Machine

end Reckoner
