import Reckoner.Proofs.Grammar.Climbing

/-!
Which sequences the parser accepts. Precedence decides how an expression groups, but never whether a
sequence is an expression at all, as long as no operator can follow its operand in two ways.
-/
namespace Reckoner

/-- No operator can stand between two operands as well as behind its only one. -/
def Definite (tokens : List Token) : Prop :=
  ∀ occurrence, .operator occurrence ∈ tokens → occurrence.form.binary = true →
    occurrence.form.trailing = false

theorem Definite.of_subset {tokens other : List Token} (h : Definite tokens) (subset : other ⊆ tokens) :
    Definite other :=
  fun occurrence mem => h occurrence (subset mem)

namespace Machine

/-- The machine reads the tokens as an operand, and nothing below the innermost bracket changes. -/
private def ReadsAs (frames : List Frame) (tokens : List Token) : Prop :=
  ∃ frames' term, (before frames).steps tokens = some (after frames' term) ∧
    brackets frames' = brackets frames

private theorem ReadsAs.group {frames : List Frame} {inner : List Token}
    (h : ReadsAs (.group :: frames) inner) :
    ∃ term, (before frames).steps (.opening :: (inner ++ [.closing])) = some (after frames term) := by
  obtain ⟨frames', term, ran, same⟩ := h
  have closed : (close 0 frames' term).1 = .group :: frames := (close_zero ..).trans same
  refine ⟨(close 0 frames' term).2, ?_⟩
  simp only [steps_cons, step, Option.bind_some, steps_append, ran]
  generalize close 0 frames' term = reply at closed ⊢
  obtain ⟨frames'', last⟩ := reply
  subst closed
  rfl

private theorem readsAs_arguments {frames : List Frame} {name : String} {arguments : List (List Token)}
    {inner : List Token} (separated : Separated (· = .comma) arguments inner)
    (each : ∀ argument ∈ arguments, ∀ frames, ReadsAs frames argument) (terms : List Term) :
    ∃ term, (before (.call name terms :: frames)).steps (inner ++ [.closing]) =
      some (after frames term) := by
  induction separated generalizing terms with
  | last run =>
    obtain ⟨frames', term, ran, same⟩ := each run List.mem_cons_self (.call name terms :: frames)
    have closed : (close 0 frames' term).1 = .call name terms :: frames := (close_zero ..).trans same
    refine ⟨.call name (terms ++ [(close 0 frames' term).2]), ?_⟩
    simp only [steps_cons, step, Option.bind_some, steps_append, ran, steps_nil]
    generalize close 0 frames' term = reply at closed ⊢
    obtain ⟨frames'', last⟩ := reply
    subst closed
    rfl
  | next run isComma _ ih =>
    subst isComma
    obtain ⟨frames', term, ran, same⟩ := each run List.mem_cons_self (.call name terms :: frames)
    have closed : (close 0 frames' term).1 = .call name terms :: frames := (close_zero ..).trans same
    obtain ⟨result, later⟩ := ih (fun argument mem => each argument (List.mem_cons_of_mem _ mem))
      (terms ++ [(close 0 frames' term).2])
    refine ⟨result, ?_⟩
    simp only [List.append_assoc, List.cons_append, steps_cons, step, Option.bind_some,
      steps_append _ run, ran]
    generalize close 0 frames' term = reply at closed later ⊢
    obtain ⟨frames'', last⟩ := reply
    subst closed
    exact later

private theorem readsAs_of_isExpression {tokens : List Token} (h : IsExpression tokens)
    (definite : Definite tokens) (frames : List Frame) : ReadsAs frames tokens := by
  induction h generalizing frames with
  | operand term => exact ⟨frames, term, rfl, rfl⟩
  | group _ ih =>
    obtain ⟨term, ran⟩ := (ih (definite.of_subset (by simp)) (.group :: frames)).group
    exact ⟨frames, term, ran, rfl⟩
  | callWithout name => exact ⟨frames, _, rfl, rfl⟩
  | @call name arguments inner separated _ ih =>
    have inside : ∀ argument ∈ arguments, argument ⊆ inner :=
      fun argument isArgument token mem => separated.mem_of_mem isArgument mem
    obtain ⟨term, ran⟩ := @readsAs_arguments frames name _ _ separated
      (fun argument mem => ih argument mem (definite.of_subset fun token isIn => by
        simp [inside argument mem isIn])) []
    exact ⟨frames, term, by simpa [steps_cons, step] using ran, rfl⟩
  | @leading occurrence operand leads _ ih =>
    obtain ⟨frames', term, ran, same⟩ := ih (definite.of_subset (by simp)) (.leading occurrence :: frames)
    exact ⟨frames', term, by simpa [step, leads] using ran, same⟩
  | @trailing occurrence operand trails _ ih =>
    obtain ⟨frames', term, ran, same⟩ := ih (definite.of_subset (by simp)) frames
    refine ⟨(close (occurrence.precedence + 1) frames' term).1, .operation occurrence.operator .trailing
      [(close (occurrence.precedence + 1) frames' term).2], ?_, (brackets_close ..).trans same⟩
    simp [steps_append, ran, step, trails]
  | @binary occurrence left right between _ _ ih₁ ih₂ =>
    have notTrailing := definite occurrence (by simp) between
    obtain ⟨frames₁, term₁, ran₁, same₁⟩ := ih₁ (definite.of_subset (by simp)) frames
    obtain ⟨frames₂, term₂, ran₂, same₂⟩ := ih₂ (definite.of_subset fun _ mem => by simp [mem])
      (.binary (close (occurrence.precedence + 1) frames₁ term₁).2 occurrence ::
        (close (occurrence.precedence + 1) frames₁ term₁).1)
    refine ⟨frames₂, term₂, ?_, ?_⟩
    · simp [steps_append, ran₁, step, between, notTrailing, ran₂]
    · rw [same₂]
      exact (brackets_close ..).trans same₁

theorem run_isSome {tokens : List Token} (h : IsExpression tokens) (definite : Definite tokens) :
    ((before []).run tokens).isSome = true := by
  obtain ⟨frames, term, ran, same⟩ := readsAs_of_isExpression h definite []
  have closed : (close 0 frames term).1 = [] := (close_zero ..).trans same
  simp only [run, ran, Option.bind_some, finish]
  generalize close 0 frames term = reply at closed ⊢
  obtain ⟨frames', last⟩ := reply
  subst closed
  rfl

end Machine

namespace Grammar

/-- What the parser consumes are expressions, what follows an operand making it a longer one. -/
structure Consumes (depth : Nat) : Prop where
  expression : ∀ {least tokens term rest}, expression depth least tokens = some (term, rest) →
    ∃ front, tokens = front ++ rest ∧ IsExpression front
  primary : ∀ {tokens term rest}, primary depth tokens = some (term, rest) →
    ∃ front, tokens = front ++ rest ∧ IsExpression front
  operations : ∀ {least left tokens term rest}, operations depth least left tokens = some (term, rest) →
    ∃ front, tokens = front ++ rest ∧ ∀ operand, IsExpression operand → IsExpression (operand ++ front)
  arguments : ∀ {tokens terms rest}, arguments depth tokens = some (terms, rest) →
    ∃ inner arguments, tokens = inner ++ .closing :: rest ∧
      Separated (· = .comma) arguments inner ∧ ∀ argument ∈ arguments, IsExpression argument

theorem consumes (depth : Nat) : Consumes depth := by
  induction depth with
  | zero => constructor <;> (intros; simp_all [expression, primary, operations, arguments])
  | succ depth ih =>
    constructor
    · intro least tokens term rest h
      obtain ⟨left, between, read, others⟩ := expression_eq_some h
      obtain ⟨first, rfl, isFirst⟩ := ih.primary read
      obtain ⟨second, rfl, isSecond⟩ := ih.operations others
      exact ⟨first ++ second, by simp, isSecond first isFirst⟩
    · intro tokens term rest h
      cases primary_eq_some h with
      | operand => exact ⟨[_], rfl, .operand _⟩
      | leading leads read =>
        obtain ⟨operand, rfl, isOperand⟩ := ih.expression read
        exact ⟨_ :: operand, rfl, .leading leads isOperand⟩
      | group read =>
        obtain ⟨inner, rfl, isInner⟩ := ih.expression read
        exact ⟨.opening :: (inner ++ [.closing]), by simp, .group isInner⟩
      | callWithout name => exact ⟨[_, _, _], rfl, .callWithout name⟩
      | @call name _ _ _ read =>
        obtain ⟨inner, arguments, rfl, separated, each⟩ := ih.arguments read
        exact ⟨.function name :: .opening :: (inner ++ [.closing]), by simp, .call name separated each⟩
    · intro least left tokens term rest h
      cases operations_eq_some h with
      | stop => exact ⟨[], rfl, fun operand isOperand => by simpa using isOperand⟩
      | @trailing occurrence _ _ _ _ trails others =>
        obtain ⟨front, rfl, extends'⟩ := ih.operations others
        refine ⟨.operator occurrence :: front, rfl, fun operand isOperand => ?_⟩
        simpa using extends' _ (.trailing trails isOperand)
      | @binary occurrence _ _ _ _ _ _ _ between read others =>
        obtain ⟨right, rfl, isRight⟩ := ih.expression read
        obtain ⟨front, rfl, extends'⟩ := ih.operations others
        refine ⟨.operator occurrence :: (right ++ front), by simp, fun operand isOperand => ?_⟩
        simpa using extends' _ (.binary between isOperand isRight)
    · intro tokens terms rest h
      cases arguments_eq_some h with
      | last read =>
        obtain ⟨argument, rfl, isArgument⟩ := ih.expression read
        exact ⟨argument, [argument], rfl, .last _, by simpa using isArgument⟩
      | next read others =>
        obtain ⟨argument, rfl, isArgument⟩ := ih.expression read
        obtain ⟨inner, arguments, rfl, separated, each⟩ := ih.arguments others
        exact ⟨argument ++ .comma :: inner, argument :: arguments, by simp, .next _ rfl separated,
          List.forall_mem_cons.mpr ⟨isArgument, each⟩⟩

/-- The parser accepts exactly the expressions. -/
theorem parse?_isSome_iff {tokens : List Token} (definite : Definite tokens) :
    (parse? tokens).isSome = true ↔ IsExpression tokens := by
  constructor
  · intro accepted
    unfold parse? at accepted
    split at accepted
    · next read =>
      obtain ⟨front, whole, isExpression⟩ := (consumes _).expression read
      rwa [whole, List.append_nil]
    · cases accepted
  · intro isExpression
    rw [Machine.parse?_eq_run]
    exact Machine.run_isSome isExpression definite

end Grammar

end Reckoner
