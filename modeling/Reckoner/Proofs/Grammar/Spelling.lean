import Reckoner.Proofs.Grammar.Machine

/-!
What a term has at its nodes, in the order in which the lexemes stand that the nodes were made from. An
operator stands between its operands, before its operand or after it, and the name of a call before the
arguments. Reading an expression keeps this order: every token adds its labels at the end.
-/
namespace Reckoner

/-- How many of the operands stand before the operator or the name. -/
def Node.Kind.before : Node.Kind → Nat
  | operator _ .binary | operator _ .trailing => 1
  | operator _ .leading | root | call _ | .variable _ | constant => 0

namespace Term

/-- The labels of the nodes from left to right. -/
def spelling (term : Term) : List Label :=
  term.inorder fun label => label.kind.before

@[simp] theorem spelling_call (name : String) (arguments : List Term) :
    (call name arguments).spelling = ⟨.call name, none⟩ :: arguments.flatMap spelling := by
  simp only [spelling, call, Rose.inorder_node, Node.Kind.before]
  rfl

@[simp] theorem spelling_leading (op : Operator) (operand : Term) :
    (operation op .leading [operand]).spelling = ⟨.operator op .leading, none⟩ :: operand.spelling := by
  simp [spelling, operation, Node.Kind.before]

@[simp] theorem spelling_trailing (op : Operator) (operand : Term) :
    (operation op .trailing [operand]).spelling =
      operand.spelling ++ [⟨.operator op .trailing, none⟩] := by
  simp [spelling, operation, Node.Kind.before]

@[simp] theorem spelling_binary (op : Operator) (left right : Term) :
    (operation op .binary [left, right]).spelling =
      left.spelling ++ ⟨.operator op .binary, none⟩ :: right.spelling := by
  simp [spelling, operation, Node.Kind.before]

end Term

/-- The labels that come from a token; brackets and commas have none. -/
inductive Token.Spells : Token → List Label → Prop where
  | operand (term : Term) : Spells (.operand term) term.spelling
  | leading {occurrence : Occurrence} : occurrence.form.leading = true →
      Spells (.operator occurrence) [⟨.operator occurrence.operator .leading, none⟩]
  | trailing {occurrence : Occurrence} : occurrence.form.trailing = true →
      Spells (.operator occurrence) [⟨.operator occurrence.operator .trailing, none⟩]
  | binary {occurrence : Occurrence} : occurrence.form.binary = true →
      Spells (.operator occurrence) [⟨.operator occurrence.operator .binary, none⟩]
  | function (name : String) : Spells (.function name) [⟨.call name, none⟩]
  | opening : Spells .opening []
  | closing : Spells .closing []
  | comma : Spells .comma []

/-- The labels of what has been begun. -/
def Frame.spelling : Frame → List Label
  | leading occurrence => [⟨.operator occurrence.operator .leading, none⟩]
  | binary left occurrence => left.spelling ++ [⟨.operator occurrence.operator .binary, none⟩]
  | group => []
  | call name arguments => ⟨.call name, none⟩ :: arguments.flatMap Term.spelling

/-- The labels of all open frames, the outermost first. -/
def Frame.spellings (frames : List Frame) : List Label :=
  frames.reverse.flatMap spelling

@[simp] theorem Frame.spellings_cons (frame : Frame) (frames : List Frame) :
    spellings (frame :: frames) = spellings frames ++ frame.spelling := by
  simp [spellings]

namespace Machine

/-- The labels of what has been read. -/
def spelling : Machine → List Label
  | before frames => Frame.spellings frames
  | named frames name => Frame.spellings frames ++ [⟨.call name, none⟩]
  | after frames term => Frame.spellings frames ++ term.spelling

/-- An operator that is applied stands where it stood. -/
theorem spelling_apply {frame : Frame} {level : Nat} (found : frame.level? = some level) (term : Term) :
    (frame.apply term).spelling = frame.spelling ++ term.spelling := by
  cases frame with
  | leading occurrence => simp [Frame.apply, Frame.spelling]
  | binary left occurrence => simp [Frame.apply, Frame.spelling]
  | group | call => cases found

theorem spelling_close {bound : Nat} {frames frames' : List Frame} {term term' : Term}
    (h : close bound frames term = (frames', term')) :
    Frame.spellings frames' ++ term'.spelling = Frame.spellings frames ++ term.spelling := by
  induction frames generalizing term with
  | nil =>
    cases h
    rfl
  | cons frame frames ih =>
    rw [close] at h
    split at h
    · cases h
      rfl
    · next level found =>
      split at h
      · rw [ih h, spelling_apply found, Frame.spellings_cons, List.append_assoc]
      · cases h
        rfl

/-- Reading a token adds its labels after those of what has been read before. -/
theorem Stepped.spelling {machine next : Machine} {token : Token} (h : Stepped machine token next) :
    ∃ labels, token.Spells labels ∧ next.spelling = machine.spelling ++ labels := by
  cases h with
  | operand frames term => exact ⟨_, .operand term, rfl⟩
  | leading frames leads => exact ⟨_, .leading leads, by simp [Machine.spelling, Frame.spelling]⟩
  | function frames name => exact ⟨_, .function name, rfl⟩
  | group frames => exact ⟨_, .opening, by simp [Machine.spelling, Frame.spelling]⟩
  | call frames name => exact ⟨_, .opening, by simp [Machine.spelling, Frame.spelling]⟩
  | callWithout frames name => exact ⟨_, .closing, by simp [Machine.spelling, Frame.spelling]⟩
  | trailing closed trails =>
    refine ⟨_, .trailing trails, ?_⟩
    simp only [Machine.spelling, Term.spelling_trailing, ← spelling_close closed, List.append_assoc]
  | binary closed between =>
    refine ⟨_, .binary between, ?_⟩
    simp only [Machine.spelling, Frame.spellings_cons, Frame.spelling, ← spelling_close closed,
      List.append_assoc]
  | groupEnd closed =>
    refine ⟨_, .closing, ?_⟩
    simp [Machine.spelling, ← spelling_close closed, Frame.spelling]
  | callEnd closed =>
    refine ⟨_, .closing, ?_⟩
    simp [Machine.spelling, ← spelling_close closed, Frame.spelling]
  | argument closed =>
    refine ⟨_, .comma, ?_⟩
    simp [Machine.spelling, ← spelling_close closed, Frame.spelling]

theorem spelling_steps {machine last : Machine} {tokens : List Token}
    (h : machine.steps tokens = some last) :
    ∃ parts, List.Forall₂ Token.Spells tokens parts ∧
      last.spelling = machine.spelling ++ parts.flatten := by
  induction tokens generalizing machine with
  | nil =>
    cases h
    exact ⟨[], .nil, by simp⟩
  | cons token tokens ih =>
    rw [steps_cons] at h
    obtain ⟨next, step, rest⟩ := Option.bind_eq_some_iff.mp h
    obtain ⟨labels, here, first⟩ := (step_some step).spelling
    obtain ⟨parts, others, spelling⟩ := ih rest
    exact ⟨labels :: parts, .cons here others, by simp [spelling, first]⟩

/-- The term that is read has the labels of the tokens, in the order of the tokens. -/
theorem spelling_run {tokens : List Token} {term : Term} (h : (before []).run tokens = some term) :
    ∃ parts, List.Forall₂ Token.Spells tokens parts ∧ term.spelling = parts.flatten := by
  obtain ⟨last, steps, finish⟩ := Option.bind_eq_some_iff.mp h
  obtain ⟨parts, each, spelling⟩ := spelling_steps steps
  refine ⟨parts, each, ?_⟩
  cases last with
  | before | named => cases finish
  | after frames term' =>
    simp only [Machine.finish] at finish
    split at finish
    · next closed =>
      cases finish
      have same : term.spelling = Frame.spellings frames ++ term'.spelling := spelling_close closed
      rw [same]
      exact spelling
    · cases finish

end Machine

end Reckoner
