import Mathlib.Data.List.TakeWhile
import Reckoner.Proofs.Grammar.Machine

/-!
What stands between brackets is read on its own. The machine reads it above the frame of the bracket, and
as long as it closes no bracket that it did not open, it does not touch the frames from there on.
-/
namespace Reckoner

namespace Token

/-- Below `depth` open brackets, every closing bracket has one to close, and none stays open. -/
def Balanced : Nat → List Token → Prop
  | depth, [] => depth = 0
  | depth, .opening :: rest => Balanced (depth + 1) rest
  | 0, .closing :: _ => False
  | depth + 1, .closing :: rest => Balanced depth rest
  | depth, _ :: rest => Balanced depth rest

/-- Brackets are balanced, and every comma stands between some of them. -/
def Enclosed : Nat → List Token → Prop
  | depth, [] => depth = 0
  | depth, .opening :: rest => Enclosed (depth + 1) rest
  | 0, .closing :: _ => False
  | depth + 1, .closing :: rest => Enclosed depth rest
  | 0, .comma :: _ => False
  | depth, _ :: rest => Enclosed depth rest

/-- Where brackets are balanced, either no comma stands outside of them, or one does that is the first. -/
theorem Balanced.cases {depth : Nat} {tokens : List Token} (h : Balanced depth tokens) :
    Enclosed depth tokens ∨
      ∃ front back, tokens = front ++ .comma :: back ∧ Enclosed depth front := by
  induction tokens generalizing depth with
  | nil => exact .inl h
  | cons token rest ih =>
    have keep : ∀ depth', (∀ tokens, Enclosed depth' tokens → Enclosed depth (token :: tokens)) →
        Balanced depth' rest → Enclosed depth (token :: rest) ∨
          ∃ front back, token :: rest = front ++ .comma :: back ∧ Enclosed depth front := by
      intro depth' same balanced
      rcases ih balanced with enclosed | ⟨front, back, rfl, enclosed⟩
      · exact .inl (same rest enclosed)
      · exact .inr ⟨token :: front, back, rfl, same front enclosed⟩
    cases token with
    | opening => exact keep (depth + 1) (fun _ h => h) h
    | closing =>
      cases depth with
      | zero => exact h.elim
      | succ depth => exact keep depth (fun _ h => h) h
    | comma =>
      cases depth with
      | zero => exact .inr ⟨[], rest, rfl, rfl⟩
      | succ depth => exact keep (depth + 1) (fun _ h => h) h
    | operand | operator | function | unknown => cases depth <;> exact keep _ (fun _ h => h) h

theorem Enclosed.balanced {depth : Nat} {tokens : List Token} (h : Enclosed depth tokens) :
    Balanced depth tokens := by
  induction tokens generalizing depth with
  | nil => exact h
  | cons token rest ih =>
    cases token <;> cases depth <;> first | exact ih h | exact h.elim

/-- What follows a balanced part stands below the same brackets as that part. -/
theorem Balanced.append_iff {depth : Nat} (outer : Nat) {front back : List Token}
    (h : Balanced depth front) : Balanced (depth + outer) (front ++ back) ↔ Balanced outer back := by
  induction front generalizing depth with
  | nil =>
    obtain rfl : depth = 0 := h
    rw [Nat.zero_add, List.nil_append]
  | cons token rest ih =>
    rw [List.cons_append]
    cases token with
    | opening =>
      have := @ih (depth + 1) h
      rwa [Nat.add_right_comm] at this
    | closing =>
      cases depth with
      | zero => exact h.elim
      | succ depth =>
        rw [Nat.add_right_comm]
        exact @ih depth h
    | comma | operand | operator | function | unknown =>
      cases depth <;> cases outer <;> exact ih h

end Token

namespace Machine

open Token

/-- The number of open brackets. -/
def depth : Machine → Nat
  | before frames | named frames _ | after frames _ => frames.countP fun frame => frame.level?.isNone

/-- The machine with more frames below its own. -/
def above (outer : List Frame) : Machine → Machine
  | before frames => before (frames ++ outer)
  | named frames name => named (frames ++ outer) name
  | after frames term => after (frames ++ outer) term

/-- The number of open brackets after a token. -/
def depthAfter (depth : Nat) : Token → Nat
  | .opening => depth + 1
  | .closing => depth - 1
  | _ => depth

private theorem countP_close (bound : Nat) (frames : List Frame) (term : Term) :
    ((close bound frames term).1.countP fun frame => frame.level?.isNone) =
      frames.countP fun frame => frame.level?.isNone := by
  induction frames generalizing term with
  | nil => rfl
  | cons frame frames ih =>
    unfold close
    cases level : frame.level? with
    | none => rfl
    | some level =>
      simp only
      split
      · rw [ih]
        simp [level]
      · rfl

theorem depth_step {machine next : Machine} {token : Token}
    (h : machine.step token = some next) : next.depth = depthAfter machine.depth token := by
  cases step_some h with
  | operand | function => rfl
  | leading | group | call | callWithout => simp [depth, depthAfter, Frame.level?]
  | @trailing frames _ term _ occurrence closed =>
    have count := countP_close (occurrence.precedence + 1) frames term
    rw [closed] at count
    exact count
  | @binary frames _ term _ occurrence closed =>
    have count := countP_close (occurrence.precedence + 1) frames term
    rw [closed] at count
    simpa [depth, depthAfter, Frame.level?] using count
  | @groupEnd frames _ term _ closed | @callEnd frames _ term _ _ _ closed =>
    have count := countP_close 0 frames term
    rw [closed, List.countP_cons_of_pos rfl] at count
    simp only [depth, depthAfter]
    omega
  | @argument frames _ term _ _ _ closed =>
    have count := countP_close 0 frames term
    rw [closed] at count
    simpa [depth, depthAfter, Frame.level?] using count

variable {bracket : Frame} (isBracket : bracket.level? = none) (outer : List Frame)

include isBracket

private theorem close_append (bound : Nat) (frames : List Frame) (term : Term) :
    close bound (frames ++ bracket :: outer) term =
      ((close bound frames term).1 ++ bracket :: outer, (close bound frames term).2) := by
  induction frames generalizing term with
  | nil => simp [close, isBracket]
  | cons frame frames ih =>
    rw [List.cons_append]
    unfold close
    cases frame.level? with
    | none => rfl
    | some level =>
      simp only
      split
      · exact ih _
      · rfl

private theorem step_above {machine : Machine} {token : Token}
    (inside : 0 < machine.depth ∨ token ≠ .closing ∧ token ≠ .comma) :
    (machine.above (bracket :: outer)).step token =
      (machine.step token).map (above (bracket :: outer)) := by
  rcases machine with frames | ⟨frames, name⟩ | ⟨frames, term⟩
  · cases token with
    | operator occurrence =>
      simp only [above, step]
      split <;> rfl
    | closing =>
      rcases frames with _ | ⟨_ | _ | _ | ⟨_, _ | _⟩, _⟩
      case nil => simp [depth] at inside
      all_goals rfl
    | operand | function | opening | comma | unknown => rfl
  · cases token <;> rfl
  · have same := fun bound => close_append isBracket outer bound frames term
    have count := fun bound => countP_close bound frames term
    cases token with
    | operator occurrence =>
      simp only [above, step, same]
      split
      · rfl
      split <;> rfl
    | closing =>
      simp only [above, step, same]
      have := count 0
      generalize close 0 frames term = reply at this ⊢
      rcases reply with ⟨_ | ⟨_ | _ | _ | _, _⟩, _⟩
      case after.closing.nil =>
        rcases inside with open' | ⟨notClosing, notComma⟩
        · simp only [depth, List.countP_nil] at open' this
          omega
        · simp at notClosing notComma
      all_goals rfl
    | comma =>
      simp only [above, step, same]
      have := count 0
      generalize close 0 frames term = reply at this ⊢
      rcases reply with ⟨_ | ⟨_ | _ | _ | _, _⟩, _⟩
      case after.comma.nil =>
        rcases inside with open' | ⟨notClosing, notComma⟩
        · simp only [depth, List.countP_nil] at open' this
          omega
        · simp at notClosing notComma
      all_goals rfl
    | operand | function | opening | unknown => rfl

/-- Enclosed tokens are read in the same way whatever brackets are open around them. -/
private theorem steps_above {machine : Machine} {tokens : List Token}
    (enclosed : Enclosed machine.depth tokens) :
    (machine.above (bracket :: outer)).steps tokens =
        (machine.steps tokens).map (above (bracket :: outer)) ∧
      ∀ next, machine.steps tokens = some next → next.depth = 0 := by
  induction tokens generalizing machine with
  | nil =>
    refine ⟨rfl, ?_⟩
    rintro next ⟨⟩
    exact enclosed
  | cons token rest ih =>
    have inside : 0 < machine.depth ∨ token ≠ .closing ∧ token ≠ .comma := by
      cases depth : machine.depth with
      | succ => exact .inl (Nat.succ_pos _)
      | zero =>
        rw [depth] at enclosed
        refine .inr ⟨?_, ?_⟩ <;> rintro rfl <;> exact enclosed
    rw [steps_cons, steps_cons, step_above isBracket outer inside]
    cases read : machine.step token with
    | none => exact ⟨rfl, by rintro next ⟨⟩⟩
    | some next =>
      refine ih ?_
      rw [depth_step read]
      revert enclosed
      generalize machine.depth = depth
      intro enclosed
      cases token <;> cases depth <;> first | exact enclosed | exact enclosed.elim

omit isBracket

private theorem close_of_depth {frames : List Frame} {term : Term}
    (closed : (after frames term).depth = 0) : (close 0 frames term).1 = [] := by
  rw [close_zero, brackets, List.dropWhile_eq_nil_iff]
  intro frame mem
  have := List.countP_eq_zero.mp closed frame mem
  cases level : frame.level? <;> simp_all

/-- Something is open while an operand has to follow what has been read. -/
private theorem steps_ne_begin {machine : Machine} {token : Token} {rest : List Token} :
    machine.steps (token :: rest) ≠ some (before []) := by
  induction rest generalizing machine token with
  | nil =>
    rw [steps_cons]
    intro h
    obtain ⟨next, read, h⟩ := Option.bind_eq_some_iff.mp h
    cases h
    cases step_some read
  | cons token' rest ih =>
    rw [steps_cons]
    intro h
    obtain ⟨next, -, h⟩ := Option.bind_eq_some_iff.mp h
    exact ih h

/-- What is enclosed is read on its own before the next closing parenthesis or comma. -/
theorem steps_enclosed {bracket : Frame} (isBracket : bracket.level? = none) (outer : List Frame)
    {inner : List Token} (enclosed : Enclosed 0 inner) {mark : Token}
    (isMark : mark = .closing ∨ mark = .comma)
    (begun : mark = .comma ∨ inner ≠ [] ∨ ∀ name, bracket ≠ .call name []) :
    (before (bracket :: outer)).steps (inner ++ [mark]) =
      ((before []).run inner).bind fun term => (after (bracket :: outer) term).step mark := by
  obtain ⟨same, closed⟩ := @steps_above bracket isBracket outer (before []) inner enclosed
  change (before (bracket :: outer)).steps inner = _ at same
  rw [steps_append, same, run]
  cases read : (before []).steps inner with
  | none => rfl
  | some machine =>
    have closed := closed machine read
    have single : ∀ machine : Machine, machine.steps [mark] = machine.step mark := by
      intro machine
      simp
    simp only [Option.map_some, Option.bind_some, single]
    rcases machine with frames | ⟨frames, name⟩ | ⟨frames, term⟩
    · change step (before (frames ++ bracket :: outer)) mark = none
      rcases isMark with rfl | rfl
      · rcases frames with _ | ⟨_ | _ | _ | _, _⟩
        case nil =>
          have empty : inner = [] := by
            cases inner with
            | nil => rfl
            | cons token rest => exact absurd read steps_ne_begin
          subst empty
          rcases bracket with _ | _ | _ | ⟨name, _ | _⟩
          case call.nil => simp at begun
          all_goals rfl
        case cons.call => simp [depth, Frame.level?] at closed
        all_goals rfl
      · rfl
    · rcases isMark with rfl | rfl <;> rfl
    · have emptied := close_of_depth closed
      have outside := close_append isBracket outer 0 frames term
      have kept : close 0 (bracket :: outer) (close 0 frames term).2 =
          (bracket :: outer, (close 0 frames term).2) := by
        rw [close, isBracket]
      rw [emptied, List.nil_append] at outside
      change step (after (frames ++ bracket :: outer) term) mark = (finish (after frames term)).bind _
      have finished : finish (after frames term) = (close 0 frames term).2 := by
        simp only [finish]
        generalize close 0 frames term = reply at emptied ⊢
        obtain ⟨_, last⟩ := reply
        subst emptied
        rfl
      rw [finished]
      rcases isMark with rfl | rfl <;> simp only [step, outside, kept, Option.bind_some]

/-- No comma can follow where no call is open. -/
theorem step_comma {machine : Machine} (closed : machine.depth = 0) :
    machine.step .comma = none := by
  cases read : machine.step .comma with
  | none => rfl
  | some next =>
    cases step_some read with
    | argument open' =>
      have emptied := close_of_depth closed
      rw [open'] at emptied
      cases emptied

theorem run_comma {front : List Token} (enclosed : Enclosed 0 front) (back : List Token) :
    (before []).run (front ++ .comma :: back) = none := by
  obtain ⟨-, closed⟩ := @steps_above .group rfl [] (before []) front enclosed
  rw [run_append]
  cases read : (before []).steps front with
  | none => rfl
  | some machine => rw [Option.bind_some, run_cons, step_comma (closed machine read), Option.bind_none]

/-- A group is an operand if there is an expression in it. -/
theorem steps_group {inner : List Token} (balanced : Balanced 0 inner) (frames : List Frame) :
    (before frames).steps (.opening :: (inner ++ [.closing])) =
      ((before []).run inner).map (after frames) := by
  rw [steps_cons]
  change (before (.group :: frames)).steps (inner ++ [.closing]) = _
  rcases balanced.cases with enclosed | ⟨front, back, rfl, enclosed⟩
  · rw [steps_enclosed rfl frames enclosed (.inl rfl) (.inr (.inr (by rintro name ⟨⟩)))]
    cases (before []).run inner <;> rfl
  · have none : (before (.group :: frames)).steps (front ++ [.comma]) = none := by
      rw [steps_enclosed rfl frames enclosed (.inr rfl) (.inl rfl)]
      cases (before []).run front <;> rfl
    have split : front ++ .comma :: back ++ [.closing] =
        (front ++ [.comma]) ++ (back ++ [.closing]) := by simp
    rw [split, steps_append, none, run_comma enclosed]
    rfl

/-- The rest of a call is an operand if there is an expression in each argument. -/
theorem steps_arguments {arguments : List (List Token)} {inner : List Token}
    (separated : Separated (· = .comma) arguments inner)
    (enclosed : ∀ argument ∈ arguments, Enclosed 0 argument) (name : String) {terms : List Term}
    (begun : inner ≠ [] ∨ terms ≠ []) (frames : List Frame) :
    (before (.call name terms :: frames)).steps (inner ++ [.closing]) =
      (arguments.mapM (before []).run).map fun more =>
        after frames (.call name (terms ++ more)) := by
  induction separated generalizing terms with
  | last run =>
    rw [steps_enclosed rfl frames (enclosed run List.mem_cons_self) (.inl rfl)]
    · cases read : (before []).run run with
      | none => simp [read]
      | some term => simp [read, step, close, Frame.level?]
    · rcases begun with begun | begun
      · exact .inr (.inl begun)
      · refine .inr (.inr ?_)
        rintro name ⟨⟩
        exact begun rfl
  | @next mark runs rest run isComma _ ih =>
    subst isComma
    obtain ⟨here, later⟩ := List.forall_mem_cons.mp enclosed
    have split : run ++ .comma :: rest ++ [.closing] = (run ++ [.comma]) ++ (rest ++ [.closing]) := by
      simp
    rw [split, steps_append, steps_enclosed rfl frames here (.inr rfl) (.inl rfl)]
    cases read : (before []).run run with
    | none => simp [read]
    | some term =>
      have next : (after (.call name terms :: frames) term).step .comma =
          some (before (.call name (terms ++ [term]) :: frames)) := by
        simp [step, close, Frame.level?]
      simp only [Option.bind_some, next]
      rw [ih later (.inr (by simp))]
      cases others : runs.mapM (before []).run <;> simp [read, others]

end Machine

end Reckoner
