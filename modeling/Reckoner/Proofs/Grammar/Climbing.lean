import Reckoner.Proofs.Grammar.Inversion

/-!
The machine and the parser read the same expressions and give them the same trees. Where the parser
calls itself, the machine opens a frame; where the parser returns, the machine stands behind an operand
with the frames that it had at the call.
-/
namespace Reckoner.Machine

open Grammar

/-- The machine goes as the parser says: to a place behind an operand, with these frames open, or
nowhere. -/
private def Follows (machine : Machine) (tokens : List Token) (frames : List Frame) :
    Option (Term × List Token) → Prop
  | none => machine.run tokens = none
  | some (term, rest) =>
    machine.run tokens = (after frames term).run rest ∧ rest.length ≤ tokens.length

/-- The same for the arguments of a call, some of which have been read before. -/
private def FollowsCall (frames : List Frame) (name : String) (before : List Term)
    (tokens : List Token) : Option (List Term × List Token) → Prop
  | none => (Machine.before (.call name before :: frames)).run tokens = none
  | some (terms, rest) =>
    (Machine.before (.call name before :: frames)).run tokens =
      (after frames (.call name (before ++ terms))).run rest ∧ rest.length ≤ tokens.length

/-- What the machine does from the tokens it has come to, it does from where it came. -/
private theorem Follows.of_run {machine later : Machine} {tokens rest : List Token} {frames : List Frame}
    {reply : Option (Term × List Token)} (follows : Follows later rest frames reply)
    (ran : machine.run tokens = later.run rest) (shorter : rest.length ≤ tokens.length) :
    Follows machine tokens frames reply := by
  cases reply with
  | none => exact ran.trans follows
  | some reply => exact ⟨ran.trans follows.1, Nat.le_trans follows.2 shorter⟩

private theorem stops_of_operations {depth least : Nat} {left term : Term}
    {tokens rest : List Token} (h : operations depth least left tokens = some (term, rest)) :
    Stops least rest := by
  induction depth generalizing left tokens with
  | zero => cases h
  | succ depth ih =>
    cases operations_eq_some h with
    | stop stops => exact stops
    | trailing _ _ later => exact ih later
    | binary _ _ _ _ later => exact ih later

private theorem stops_of_expression {depth least : Nat} {term : Term} {tokens rest : List Token}
    (h : expression depth least tokens = some (term, rest)) : Stops least rest := by
  cases depth with
  | zero => cases h
  | succ depth =>
    obtain ⟨left, between, -, later⟩ := expression_eq_some h
    exact stops_of_operations later

/-- The call that may be open does not end without arguments here. -/
private def Expects (frames : List Frame) (tokens : List Token) : Prop :=
  ∀ name rest, frames = .call name [] :: rest → tokens.head? ≠ some .closing

/-- The machine follows the parser wherever the parser has enough levels of recursion left. -/
private structure Simulates (depth : Nat) : Prop where
  expression : ∀ frames tokens, Expects frames tokens → 2 * tokens.length + 2 ≤ depth →
    Follows (before frames) tokens frames (expression depth (levelOf frames) tokens)
  primary : ∀ frames tokens, Expects frames tokens → 2 * tokens.length + 1 ≤ depth →
    Follows (before frames) tokens frames (primary depth tokens)
  operations : ∀ frames left tokens, 2 * tokens.length + 1 ≤ depth →
    Follows (after frames left) tokens frames (operations depth (levelOf frames) left tokens)
  arguments : ∀ frames name terms tokens, Expects (.call name terms :: frames) tokens →
    2 * tokens.length + 3 ≤ depth → FollowsCall frames name terms tokens (arguments depth tokens)

private theorem follows_expression {depth : Nat} (ih : Simulates depth) (frames : List Frame)
    (tokens : List Token) (expects : Expects frames tokens)
    (deep : 2 * tokens.length + 2 ≤ depth + 1) :
    Follows (before frames) tokens frames (expression (depth + 1) (levelOf frames) tokens) := by
  have first := ih.primary frames tokens expects (by omega)
  unfold expression
  cases read : primary depth tokens with
  | none =>
    rw [read] at first
    exact first
  | some reply =>
    obtain ⟨left, rest⟩ := reply
    rw [read] at first
    obtain ⟨ran, shorter⟩ := first
    exact (ih.operations frames left rest (by omega)).of_run ran shorter

/-- Inside of brackets, only a closing parenthesis or a comma can follow an operand to which nothing more
belongs. -/
private theorem run_eq_none {frame : Frame} (bracket : frame.level? = none) {tokens : List Token}
    (stops : Stops 0 tokens) (notClosing : tokens.head? ≠ some .closing)
    (notComma : tokens.head? ≠ some .comma) (frames : List Frame) (term : Term) :
    (after (frame :: frames) term).run tokens = none := by
  have kept : ∀ bound, close bound (frame :: frames) term = (frame :: frames, term) := by
    intro bound
    rw [close, bracket]
  cases tokens with
  | nil => simp only [run_nil, finish, kept]
  | cons token rest =>
    rw [run_cons]
    cases token with
    | closing | comma => simp at notClosing notComma
    | operand | function | opening | unknown => rfl
    | operator occurrence =>
      have none : occurrence.form.trailing = false ∧ occurrence.form.binary = false := by
        simpa using fun follows => Nat.not_lt_zero _ (stops occurrence rfl follows)
      simp [step, none]

private theorem primary_call {depth : Nat} {rest : List Token} (name : String)
    (closes : rest.head? ≠ some .closing) :
    primary (depth + 1) (.function name :: .opening :: rest) =
      match arguments depth rest with
      | some (terms, rest) => some (.call name terms, rest)
      | none => none := by
  rcases rest with _ | ⟨_ | _ | _ | _ | _ | _ | _, rest⟩
  case cons.closing => exact absurd rfl closes
  all_goals rfl

private theorem follows_leading {depth : Nat} (ih : Simulates depth) (frames : List Frame)
    (occurrence : Occurrence) (rest : List Token) (deep : 2 * rest.length + 2 ≤ depth) :
    Follows (before frames) (.operator occurrence :: rest) frames
      (primary (depth + 1) (.operator occurrence :: rest)) := by
  unfold primary
  by_cases leads : occurrence.form.leading = true
  · have opened : (before frames).run (.operator occurrence :: rest) =
        (before (.leading occurrence :: frames)).run rest := by
      simp [run_cons, step, leads]
    have operand := ih.expression (.leading occurrence :: frames) rest (by rintro _ _ ⟨⟩) deep
    simp only [leads, if_true]
    change Follows _ _ _ (expression depth occurrence.precedence rest) at operand
    cases read : expression depth occurrence.precedence rest with
    | none =>
      rw [read] at operand
      exact opened.trans operand
    | some reply =>
      obtain ⟨term, rest'⟩ := reply
      rw [read] at operand
      have stops := stops_of_expression read
      refine ⟨opened.trans (operand.1.trans ?_), Nat.le_succ_of_le operand.2⟩
      exact run_apply rfl stops frames term
  · simp [Follows, leads, run_cons, step]

private theorem follows_group {depth : Nat} (ih : Simulates depth) (frames : List Frame)
    (rest : List Token) (deep : 2 * rest.length + 2 ≤ depth) :
    Follows (before frames) (.opening :: rest) frames (primary (depth + 1) (.opening :: rest)) := by
  unfold primary
  have inner := ih.expression (.group :: frames) rest (by rintro _ _ ⟨⟩) deep
  change Follows _ _ _ (expression depth 0 rest) at inner
  cases read : expression depth 0 rest with
  | none =>
    rw [read] at inner
    exact inner
  | some reply =>
    obtain ⟨term, rest'⟩ := reply
    rw [read] at inner
    have stops := stops_of_expression read
    have opened : (before frames).run (.opening :: rest) = (after (.group :: frames) term).run rest' := inner.1
    have shorter := inner.2
    rcases rest' with _ | ⟨_ | _ | _ | _ | _ | _ | _, rest''⟩
    case cons.closing =>
      refine ⟨opened.trans (run_cons ..), ?_⟩
      simp only [List.length_cons] at shorter ⊢
      omega
    case cons.comma => exact opened.trans rfl
    all_goals
      refine opened.trans (run_eq_none ?_ stops ?_ ?_ frames term)
      · rfl
      · simp
      · simp

private theorem follows_call {depth : Nat} (ih : Simulates depth) (frames : List Frame) (name : String)
    (rest : List Token) (deep : 2 * rest.length + 3 ≤ depth) :
    Follows (before frames) (.function name :: .opening :: rest) frames
      (primary (depth + 1) (.function name :: .opening :: rest)) := by
  have opened : (before frames).run (.function name :: .opening :: rest) =
      (before (.call name [] :: frames)).run rest := rfl
  by_cases closes : rest.head? = some .closing
  · obtain ⟨rest', rfl⟩ := List.head?_eq_some_iff.mp closes
    refine ⟨opened, ?_⟩
    simp only [List.length_cons]
    omega
  · have inner := ih.arguments frames name [] rest (by rintro _ _ ⟨⟩; exact closes) deep
    rw [primary_call name closes]
    generalize arguments depth rest = reply at inner ⊢
    cases reply with
    | none => exact inner
    | some reply =>
      refine ⟨inner.1, ?_⟩
      have := inner.2
      simp only [List.length_cons]
      omega

private theorem follows_primary {depth : Nat} (ih : Simulates depth) (frames : List Frame)
    (tokens : List Token) (expects : Expects frames tokens)
    (deep : 2 * tokens.length + 1 ≤ depth + 1) :
    Follows (before frames) tokens frames (primary (depth + 1) tokens) := by
  cases tokens with
  | nil => rfl
  | cons token rest =>
    simp only [List.length_cons] at deep
    cases token with
    | closing =>
      rcases frames with _ | ⟨_ | _ | _ | ⟨name, _ | _⟩, frames⟩
      case cons.call.nil => exact absurd rfl (expects name frames rfl)
      all_goals rfl
    | comma | unknown => rfl
    | operand term => exact ⟨run_cons .., by simp⟩
    | operator occurrence => exact follows_leading ih frames occurrence rest (by omega)
    | opening => exact follows_group ih frames rest (by omega)
    | function name =>
      rcases rest with _ | ⟨_ | _ | _ | _ | _ | _ | _, rest⟩
      case cons.opening =>
        simp only [List.length_cons] at deep
        exact follows_call ih frames name rest (by omega)
      all_goals rfl

private theorem follows_operations {depth : Nat} (ih : Simulates depth) (frames : List Frame)
    (left : Term) (tokens : List Token) (deep : 2 * tokens.length + 1 ≤ depth + 1) :
    Follows (after frames left) tokens frames
      (operations (depth + 1) (levelOf frames) left tokens) := by
  have stop : Follows (after frames left) tokens frames (some (left, tokens)) :=
    ⟨rfl, Nat.le_refl _⟩
  rcases tokens with _ | ⟨_ | ⟨occurrence⟩ | _, rest⟩
  case cons.operator =>
    simp only [List.length_cons] at deep
    unfold operations
    by_cases lower : occurrence.precedence < levelOf frames
    · simpa only [lower, if_true] using stop
    have kept : close (occurrence.precedence + 1) frames left = (frames, left) :=
      close_eq_self (by omega) left
    by_cases trailing : occurrence.form.trailing = true
    · have ran : (after frames left).run (.operator occurrence :: rest) =
          (after frames (.operation occurrence.operator .trailing [left])).run rest := by
        simp [run_cons, step, kept, trailing]
      simp only [lower, trailing, if_false, if_true]
      exact (ih.operations frames _ rest (by omega)).of_run ran (Nat.le_succ _)
    by_cases binary : occurrence.form.binary = true
    · have ran : (after frames left).run (.operator occurrence :: rest) =
          (before (.binary left occurrence :: frames)).run rest := by
        simp [run_cons, step, kept, trailing, binary]
      have operand := ih.expression (.binary left occurrence :: frames) rest
        (by rintro _ _ ⟨⟩) (by omega)
      change Follows _ _ _ (expression depth occurrence.rightLevel rest) at operand
      simp only [lower, trailing, binary, if_false, if_true, Bool.false_eq_true]
      cases read : expression depth occurrence.rightLevel rest with
      | none =>
        rw [read] at operand
        exact ran.trans operand
      | some reply =>
        obtain ⟨right, rest'⟩ := reply
        rw [read] at operand
        have stops := stops_of_expression read
        have applied : (after (.binary left occurrence :: frames) right).run rest' =
            (after frames (.operation occurrence.operator .binary [left, right])).run rest' :=
          run_apply rfl stops frames right
        have shorter := operand.2
        exact (ih.operations frames _ rest' (by omega)).of_run (ran.trans (operand.1.trans applied))
          (Nat.le_succ_of_le shorter)
    · simpa [lower, trailing, binary] using stop
  all_goals exact stop

private theorem follows_arguments {depth : Nat} (ih : Simulates depth) (frames : List Frame)
    (name : String) (terms : List Term) (tokens : List Token)
    (expects : Expects (.call name terms :: frames) tokens)
    (deep : 2 * tokens.length + 3 ≤ depth + 1) :
    FollowsCall frames name terms tokens (arguments (depth + 1) tokens) := by
  have first := ih.expression (.call name terms :: frames) tokens expects (by omega)
  change Follows _ _ _ (expression depth 0 tokens) at first
  unfold arguments
  cases read : expression depth 0 tokens with
  | none =>
    rw [read] at first
    exact first
  | some reply =>
    obtain ⟨term, rest⟩ := reply
    rw [read] at first
    have stops := stops_of_expression read
    obtain ⟨ran, shorter⟩ := first
    rcases rest with _ | ⟨_ | _ | _ | _ | _ | _ | _, rest⟩
    case cons.closing =>
      simp only [List.length_cons] at shorter
      exact ⟨ran.trans (run_cons ..), by omega⟩
    case cons.comma =>
      simp only [List.length_cons] at shorter
      have later := ih.arguments frames name (terms ++ [term]) rest
        (by rintro _ _ same; simp at same) (by omega)
      have next : (after (.call name terms :: frames) term).run (.comma :: rest) =
          (before (.call name (terms ++ [term]) :: frames)).run rest := run_cons ..
      simp only
      generalize arguments depth rest = reply at later ⊢
      cases reply with
      | none => exact ran.trans (next.trans later)
      | some reply =>
        obtain ⟨others, last⟩ := reply
        refine ⟨ran.trans (next.trans ?_), by have := later.2; omega⟩
        simpa using later.1
    all_goals
      refine ran.trans (run_eq_none ?_ stops ?_ ?_ frames term)
      · rfl
      · simp
      · simp

private theorem simulates (depth : Nat) : Simulates depth := by
  induction depth with
  | zero => constructor <;> (intros; omega)
  | succ depth ih =>
    exact ⟨follows_expression ih, follows_primary ih, follows_operations ih, follows_arguments ih⟩

/-- The parser gives what the machine reads. -/
theorem parse?_eq_run (tokens : List Token) : parse? tokens = (before []).run tokens := by
  have follows := (simulates (2 * tokens.length + 2)).expression [] tokens
    (by rintro _ _ ⟨⟩) (Nat.le_refl _)
  change Follows _ _ _ (expression _ 0 tokens) at follows
  unfold parse?
  cases read : expression (2 * tokens.length + 2) 0 tokens with
  | none =>
    rw [read] at follows
    exact follows.symm
  | some reply =>
    obtain ⟨term, rest⟩ := reply
    rw [read] at follows
    rw [follows.1]
    have stops := stops_of_expression read
    cases rest with
    | nil => rfl
    | cons token rest =>
      rw [run_cons]
      cases token with
      | operand | function | opening | closing | comma | unknown => rfl
      | operator occurrence =>
        have none : occurrence.form.trailing = false ∧ occurrence.form.binary = false := by
          simpa using fun follows => Nat.not_lt_zero _ (stops occurrence rfl follows)
        simp [step, none]

end Reckoner.Machine
