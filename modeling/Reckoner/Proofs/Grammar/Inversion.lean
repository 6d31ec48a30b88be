import Reckoner.Proofs.Grammar.Machine

/-!
What each part of the parser has done where it gives an answer: which rule it went by, and what it read for
that with one level of recursion less. What is proved about the answers goes by these rules and does not open
the parser again.
-/
namespace Reckoner.Grammar

/-- How an operand is read without what follows it. -/
inductive ReadsPrimary (depth : Nat) : List Token → Term → List Token → Prop where
  | operand (term : Term) (rest : List Token) : ReadsPrimary depth (.operand term :: rest) term rest
  | leading {occurrence : Occurrence} {tokens rest : List Token} {operand : Term} :
      occurrence.form.leading = true →
      expression depth occurrence.precedence tokens = some (operand, rest) →
      ReadsPrimary depth (.operator occurrence :: tokens)
        (.operation occurrence.operator .leading [operand]) rest
  | group {tokens rest : List Token} {inner : Term} :
      expression depth 0 tokens = some (inner, .closing :: rest) →
      ReadsPrimary depth (.opening :: tokens) inner rest
  | callWithout (name : String) (rest : List Token) :
      ReadsPrimary depth (.function name :: .opening :: .closing :: rest) (.call name []) rest
  | call {name : String} {tokens rest : List Token} {terms : List Term} :
      arguments depth tokens = some (terms, rest) →
      ReadsPrimary depth (.function name :: .opening :: tokens) (.call name terms) rest

/-- How the operators behind an operand are read, up to what does not belong to it. -/
inductive ReadsOperations (depth least : Nat) (left : Term) : List Token → Term → List Token → Prop where
  | stop {tokens : List Token} : Machine.Stops least tokens →
      ReadsOperations depth least left tokens left tokens
  | trailing {occurrence : Occurrence} {tokens rest : List Token} {term : Term} :
      least ≤ occurrence.precedence → occurrence.form.trailing = true →
      operations depth least (.operation occurrence.operator .trailing [left]) tokens = some (term, rest) →
      ReadsOperations depth least left (.operator occurrence :: tokens) term rest
  | binary {occurrence : Occurrence} {tokens between rest : List Token} {right term : Term} :
      least ≤ occurrence.precedence → occurrence.form.trailing = false → occurrence.form.binary = true →
      expression depth occurrence.rightLevel tokens = some (right, between) →
      operations depth least (.operation occurrence.operator .binary [left, right]) between =
        some (term, rest) →
      ReadsOperations depth least left (.operator occurrence :: tokens) term rest

/-- How arguments are read up to the closing parenthesis. -/
inductive ReadsArguments (depth : Nat) : List Token → List Term → List Token → Prop where
  | last {tokens rest : List Token} {term : Term} :
      expression depth 0 tokens = some (term, .closing :: rest) →
      ReadsArguments depth tokens [term] rest
  | next {tokens between rest : List Token} {term : Term} {terms : List Term} :
      expression depth 0 tokens = some (term, .comma :: between) →
      arguments depth between = some (terms, rest) →
      ReadsArguments depth tokens (term :: terms) rest

variable {depth least : Nat} {left term : Term} {terms : List Term} {tokens rest : List Token}

theorem expression_eq_some (h : expression (depth + 1) least tokens = some (term, rest)) :
    ∃ left between, primary depth tokens = some (left, between) ∧
      operations depth least left between = some (term, rest) := by
  unfold expression at h
  split at h
  · next left between read => exact ⟨left, between, read, h⟩
  · cases h

theorem primary_eq_some (h : primary (depth + 1) tokens = some (term, rest)) :
    ReadsPrimary depth tokens term rest := by
  unfold primary at h
  split at h
  · cases h
    exact .operand ..
  · cases ‹depth + 1 = Nat.succ _›
    split at h
    · next leads =>
      split at h <;> cases h
      next read => exact .leading leads read
    · cases h
  · cases ‹depth + 1 = Nat.succ _›
    split at h <;> cases h
    next read => exact .group read
  · cases h
    exact .callWithout ..
  · next same =>
    cases same
    split at h <;> cases h
    next read => exact .call read
  · cases h

theorem operations_eq_some (h : operations (depth + 1) least left tokens = some (term, rest)) :
    ReadsOperations depth least left tokens term rest := by
  unfold operations at h
  split at h
  · cases h
  · next occurrence tokens same =>
    cases same
    split at h
    · next lower =>
      cases h
      exact .stop (by rintro other ⟨⟩ _; exact lower)
    next notLower =>
    split at h
    · next trails => exact .trailing (Nat.le_of_not_lt notLower) trails h
    next notTrailing =>
    split at h
    · next between =>
      split at h
      · next read => exact .binary (Nat.le_of_not_lt notLower) (by simpa using notTrailing) between read h
      · cases h
    · next notBinary =>
      cases h
      refine .stop ?_
      rintro other ⟨⟩ follows
      exact (follows.elim notTrailing notBinary).elim
  · next noOperator =>
    cases h
    refine .stop fun occurrence isOperator _ => ?_
    obtain ⟨after, rfl⟩ := List.head?_eq_some_iff.mp isOperator
    exact absurd rfl (noOperator occurrence after)

theorem arguments_eq_some (h : arguments (depth + 1) tokens = some (terms, rest)) :
    ReadsArguments depth tokens terms rest := by
  unfold arguments at h
  split at h
  · next read =>
    cases h
    exact .last read
  · next read =>
    split at h <;> cases h
    next others => exact .next read others
  · cases h

end Reckoner.Grammar
