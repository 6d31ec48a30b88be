import Reckoner.Proofs.Grammar.Language

/-!
Which operand a step operator gets. If every step operator stands next to a variable that no other one stands next
to, and none stands behind the variable of a cast, then the parser gives it that variable: what binds as tightly
cannot take it first, and what binds tighter is a cast.
-/
namespace Reckoner

namespace Term

/-- A variable by itself. -/
def IsCell (term : Term) : Prop :=
  ∃ name cell span, term = .cell name cell span

/-- Wherever a step operator is applied, it is applied to a variable by itself. -/
inductive Stepped : Term → Prop where
  | node {label : Label} {operands : List Term} :
      (∀ op fixity, label.kind = .operator op fixity → op.form.needsSide = true →
        ∃ operand, operands = [operand] ∧ operand.IsCell) →
      (∀ operand ∈ operands, Stepped operand) → Stepped (.node label operands)

theorem stepped_call {name : String} {arguments : List Term} (each : ∀ term ∈ arguments, Stepped term) :
    (call name arguments).Stepped :=
  .node nofun each

theorem stepped_unary {op : Operator} {fixity : Fixity} {operand : Term} (stepped : operand.Stepped)
    (isCell : op.form.needsSide = true → operand.IsCell) : (operation op fixity [operand]).Stepped := by
  refine .node (fun other _ same isStep => ?_) (by simpa using stepped)
  cases same
  exact ⟨operand, rfl, isCell isStep⟩

theorem stepped_binary {op : Operator} {left right : Term} (plain : op.form.needsSide = false)
    (first : left.Stepped) (second : right.Stepped) : (operation op .binary [left, right]).Stepped := by
  refine .node (fun other _ same isStep => ?_) (by simpa using ⟨first, second⟩)
  cases same
  rw [plain] at isStep
  cases isStep

end Term

namespace Grammar

/-- Step operators stand next to variables that nothing else can take. -/
structure Sided (tokens : List Token) : Prop where
  operands : ∀ term, .operand term ∈ tokens → term.Stepped
  binary : ∀ occurrence, .operator occurrence ∈ tokens → occurrence.form.binary = true →
    occurrence.operator.form.needsSide = false ∧ occurrence.precedence < Operator.unaryPrecedence
  /-- Behind a variable, in front of which no operator stands that binds tighter. -/
  behind : ∀ before occurrence rest, tokens = before ++ .operator occurrence :: rest →
    occurrence.form.trailing = true → occurrence.precedence = Operator.unaryPrecedence ∧
      ∃ front term, before = front ++ [.operand term] ∧ term.IsCell ∧
        ∀ other, front.getLast? = some (.operator other) → other.precedence ≤ Operator.unaryPrecedence
  /-- In front of a variable, behind which no operator stands that trails. -/
  ahead : ∀ before occurrence rest, tokens = before ++ .operator occurrence :: rest →
    occurrence.operator.form.needsSide = true → occurrence.form.leading = true →
      occurrence.precedence = Operator.unaryPrecedence ∧ ∃ term after, rest = .operand term :: after ∧
        term.IsCell ∧ ∀ other, after.head? = some (.operator other) → other.form.trailing = false

variable {tokens before rest after : List Token} {token : Token} {term : Term} {occurrence : Occurrence}
  {depth least : Nat}

/-- A trailing operator stands right behind an operand. -/
private theorem isOperand_of_trailing (sided : Sided (before ++ token :: .operator occurrence :: after))
    (trails : occurrence.form.trailing = true) : ∃ term, token = .operand term ∧ term.IsCell := by
  obtain ⟨-, front, term, split, isCell, -⟩ :=
    sided.behind (before ++ [token]) occurrence after (by simp) trails
  have last := congrArg List.getLast? split
  simp only [List.getLast?_append, List.getLast?_singleton, Option.some_or, Option.some.injEq] at last
  exact ⟨term, last, isCell⟩

/-- Behind what is no operand nothing trails. -/
private theorem not_trailing (sided : Sided (before ++ token :: after)) (notOperand : ∀ term, token ≠ .operand term)
    {after' : List Token} (behind : after = .operator occurrence :: after') :
    occurrence.form.trailing = false := by
  subst behind
  by_contra trails
  obtain ⟨term, same, -⟩ := isOperand_of_trailing sided (by simpa using trails)
  exact notOperand term same

private theorem Sided.shift (front : List Token) (sided : Sided (before ++ (front ++ tokens))) :
    Sided (before ++ front ++ tokens) := by
  rwa [List.append_assoc]

/-- Nothing takes an operand before a step operator does, if nothing trails it. -/
private theorem expression_operand (sided : Sided (before ++ .operand term :: after))
    (noTrailing : ∀ other, after.head? = some (.operator other) → other.form.trailing = false) {term' : Term}
    (read : expression depth Operator.unaryPrecedence (.operand term :: after) = some (term', rest)) :
    term' = term := by
  obtain _ | _ | depth := depth
  · cases read
  · cases read
  obtain ⟨left, between, isLeft, others⟩ := expression_eq_some read
  cases primary_eq_some isLeft
  -- Only a trailing operator would bind as tightly.
  cases operations_eq_some others with
  | stop => rfl
  | trailing _ trails => simp [noTrailing _ rfl] at trails
  | @binary occurrence _ _ _ _ _ tight _ binary =>
    have looser := (sided.binary occurrence (by simp) binary).2
    omega

/-- What the parser reads has its step operators at variables, and stops in front of one that trails only behind
the variable of a cast. -/
private structure Steps (depth : Nat) : Prop where
  expression : ∀ {before least tokens term rest}, expression depth least tokens = some (term, rest) →
    Sided (before ++ tokens) → term.Stepped ∧
      ∀ occurrence after, rest = .operator occurrence :: after → occurrence.form.trailing = true →
        occurrence.precedence < least ∧ term.IsCell ∧ tokens = .operand term :: rest
  primary : ∀ {before tokens term rest}, primary depth tokens = some (term, rest) →
    Sided (before ++ tokens) → term.Stepped ∧
      ∀ occurrence after, rest = .operator occurrence :: after → occurrence.form.trailing = true →
        term.IsCell ∧ tokens = .operand term :: rest
  operations : ∀ {before least left tokens term rest}, operations depth least left tokens = some (term, rest) →
    Sided (before ++ tokens) → left.Stepped →
    (∀ occurrence after, tokens = .operator occurrence :: after → occurrence.form.trailing = true →
      left.IsCell) → term.Stepped ∧
      ∀ occurrence after, rest = .operator occurrence :: after → occurrence.form.trailing = true →
        occurrence.precedence < least ∧ term = left ∧ tokens = rest
  arguments : ∀ {before tokens terms rest}, arguments depth tokens = some (terms, rest) →
    Sided (before ++ tokens) → ∀ term ∈ terms, term.Stepped

private theorem Steps.primary_succ (ih : Steps depth) (h : Grammar.primary (depth + 1) tokens = some (term, rest))
    (sided : Sided (before ++ tokens)) : term.Stepped ∧
      ∀ occurrence after, rest = .operator occurrence :: after → occurrence.form.trailing = true →
        term.IsCell ∧ tokens = .operand term :: rest := by
  -- What ends with a parenthesis is followed by no operator that trails.
  have closed (front : List Token) {rest : List Token} (sided : Sided (before ++ (front ++ .closing :: rest)))
      (occurrence : Occurrence) (after : List Token) (behind : rest = .operator occurrence :: after)
      (trails : occurrence.form.trailing = true) : False := by
    simp [not_trailing (sided.shift front) nofun behind] at trails
  cases primary_eq_some h with
  | operand =>
    refine ⟨sided.operands term (by simp), fun occurrence after behind trails => ⟨?_, rfl⟩⟩
    subst behind
    obtain ⟨_, same, isCell⟩ := isOperand_of_trailing sided trails
    cases same
    exact isCell
  | @leading occurrence rest' _ operand leads read =>
    have inside := sided.shift [.operator occurrence]
    obtain ⟨isOperand, stops⟩ := ih.expression read inside
    constructor
    · refine Term.stepped_unary isOperand fun isStep => ?_
      obtain ⟨tight, x, after, rfl, isCell, noTrailing⟩ := sided.ahead before occurrence rest' rfl isStep leads
      rw [tight] at read
      rw [expression_operand inside noTrailing read]
      exact isCell
    · -- Behind the variable of an operator that binds tighter nothing trails.
      intro other after behind trails
      obtain ⟨looser, -, rfl⟩ := stops other after behind trails
      subst behind
      obtain ⟨same, front, x, split, -, tight⟩ :=
        sided.behind (before ++ [.operator occurrence, .operand operand]) other after (by simp) trails
      have front_eq : front = before ++ [.operator occurrence] := by
        have lists := congrArg List.dropLast split
        simpa [List.dropLast_append_cons] using lists.symm
      have bound := tight occurrence (by simp [front_eq])
      omega
  | group read =>
    obtain ⟨front, rfl, -⟩ := (consumes depth).expression read
    refine ⟨(ih.expression read (sided.shift [.opening])).1, fun occurrence after behind trails => ?_⟩
    exact (closed (.opening :: front) sided occurrence after behind trails).elim
  | callWithout name =>
    refine ⟨Term.stepped_call (by simp), fun occurrence after behind trails => ?_⟩
    exact (closed [.function name, .opening] sided occurrence after behind trails).elim
  | @call name _ _ _ read =>
    obtain ⟨inner, _, rfl, -⟩ := (consumes depth).arguments read
    have inside := sided.shift [.function name, .opening]
    refine ⟨Term.stepped_call (ih.arguments read inside), fun occurrence after behind trails => ?_⟩
    exact (closed (.function name :: .opening :: inner) sided occurrence after behind trails).elim

private theorem Steps.operations_succ (ih : Steps depth) {left : Term}
    (h : Grammar.operations (depth + 1) least left tokens = some (term, rest)) (sided : Sided (before ++ tokens))
    (stepped : left.Stepped)
    (isCell : ∀ occurrence after, tokens = .operator occurrence :: after → occurrence.form.trailing = true →
      left.IsCell) : term.Stepped ∧
      ∀ occurrence after, rest = .operator occurrence :: after → occurrence.form.trailing = true →
        occurrence.precedence < least ∧ term = left ∧ tokens = rest := by
  cases operations_eq_some h with
  | stop stops =>
    refine ⟨stepped, fun other after behind trails => ⟨?_, rfl, rfl⟩⟩
    subst behind
    exact stops other rfl (.inl trails)
  | @trailing occurrence rest' _ _ _ trails others =>
    have noMore {other : Occurrence} {after : List Token} (behind : rest' = .operator other :: after) :
        other.form.trailing = false := not_trailing sided nofun behind
    obtain ⟨isTerm, stops⟩ := ih.operations others (sided.shift [.operator occurrence])
      (Term.stepped_unary stepped fun _ => isCell occurrence rest' rfl trails)
      fun other after behind trails => by simp [noMore behind] at trails
    refine ⟨isTerm, fun other after behind trails => ?_⟩
    obtain ⟨-, -, rfl⟩ := stops other after behind trails
    simp [noMore behind] at trails
  | @binary occurrence _ rest'' _ right _ _ _ binary read others =>
    obtain ⟨plain, bound⟩ := sided.binary occurrence (by simp) binary
    obtain ⟨front, rfl, -⟩ := (consumes depth).expression read
    have inside := sided.shift [.operator occurrence]
    obtain ⟨isRight, atRight⟩ := ih.expression read inside
    -- The right operand has taken what binds as tightly as a step operator.
    have noMore (other : Occurrence) (after : List Token) (behind : rest'' = .operator other :: after)
        (trails : other.form.trailing = true) : False := by
      obtain ⟨looser, -, -⟩ := atRight other after behind trails
      subst behind
      have tight := (inside.behind (before ++ [.operator occurrence] ++ front) other after (by simp) trails).1
      have level := occurrence.rightLevel_le_succ
      omega
    obtain ⟨isTerm, stops⟩ := ih.operations others (inside.shift front)
      (Term.stepped_binary plain stepped isRight)
      fun other after behind trails => (noMore other after behind trails).elim
    refine ⟨isTerm, fun other after behind trails => ?_⟩
    obtain ⟨-, -, rfl⟩ := stops other after behind trails
    exact (noMore other after behind trails).elim

private theorem Steps.arguments_succ (ih : Steps depth) {terms : List Term}
    (h : Grammar.arguments (depth + 1) tokens = some (terms, rest)) (sided : Sided (before ++ tokens)) :
    ∀ term ∈ terms, term.Stepped := by
  cases arguments_eq_some h with
  | last read => simpa using (ih.expression read sided).1
  | next read others =>
    obtain ⟨front, rfl, -⟩ := (consumes depth).expression read
    have first := (ih.expression read sided).1
    exact List.forall_mem_cons.mpr ⟨first, ih.arguments others ((sided.shift front).shift [.comma])⟩

private theorem Steps.expression_succ (ih : Steps depth)
    (h : Grammar.expression (depth + 1) least tokens = some (term, rest)) (sided : Sided (before ++ tokens)) :
    term.Stepped ∧ ∀ occurrence after, rest = .operator occurrence :: after → occurrence.form.trailing = true →
      occurrence.precedence < least ∧ term.IsCell ∧ tokens = .operand term :: rest := by
  obtain ⟨left, between, read, others⟩ := expression_eq_some h
  obtain ⟨first, rfl, -⟩ := (consumes depth).primary read
  obtain ⟨isLeft, atLeft⟩ := ih.primary read sided
  obtain ⟨stepped, stops⟩ := ih.operations others (sided.shift first) isLeft
    fun occurrence after behind trails => (atLeft occurrence after behind trails).1
  refine ⟨stepped, fun occurrence after behind trails => ?_⟩
  obtain ⟨looser, rfl, rfl⟩ := stops occurrence after behind trails
  exact ⟨looser, atLeft occurrence after behind trails⟩

private theorem steps (depth : Nat) : Steps depth := by
  induction depth with
  | zero => constructor <;> (intros; simp_all [expression, primary, operations, arguments])
  | succ depth ih => exact ⟨ih.expression_succ, ih.primary_succ, ih.operations_succ, ih.arguments_succ⟩

/-- The step operators of what is parsed are at variables. -/
theorem stepped_of_parse? (sided : Sided tokens) (h : parse? tokens = some term) : term.Stepped := by
  unfold parse? at h
  split at h
  · next read =>
    cases h
    exact ((steps _).expression read (show Sided ([] ++ tokens) from sided)).1
  · cases h

end Grammar

end Reckoner
