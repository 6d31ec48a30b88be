import Reckoner.Proofs.Grammar.Machine

/-!
Replacing an operator and its operands by one operand. Whatever else stands around them, this changes
nothing if the operator to the left does not bind the left operand more tightly, and the operator to the
right does not bind the right one more tightly.
-/
namespace Reckoner.Machine

/-- What is unknown cannot be read. -/
theorem run_eq_none_of_unknown {tokens : List Token} (mem : .unknown ∈ tokens) (machine : Machine) :
    machine.run tokens = none := by
  induction tokens generalizing machine with
  | nil => cases mem
  | cons token rest ih =>
    rw [run_cons]
    cases read : machine.step token with
    | none => rfl
    | some next =>
      rcases List.mem_cons.mp mem with rfl | mem
      · cases step_some read
      · exact ih mem next

/-- The level at a place is that of the operator right before it. -/
theorem levelOf_le {front : List Token} {frames : List Frame} {level : Nat}
    (ran : (before []).steps front = some (before frames))
    (low : ∀ occurrence, front.getLast? = some (.operator occurrence) →
      occurrence.rightLevel ≤ level) : levelOf frames ≤ level := by
  rcases List.eq_nil_or_concat front with rfl | ⟨front, token, rfl⟩
  · cases ran
    exact Nat.zero_le _
  rw [List.concat_eq_append] at ran low
  rw [steps_append] at ran
  cases earlier : (before []).steps front with
  | none => simp [earlier] at ran
  | some machine =>
    simp only [earlier, Option.bind_some, steps_cons, steps_nil] at ran
    cases read : machine.step token with
    | none => simp [read] at ran
    | some next =>
      simp only [read, Option.bind_some, Option.some.injEq] at ran
      subst ran
      cases step_some read with
      | @leading _ occurrence =>
        have := low occurrence (by simp)
        have := occurrence.precedence_le_rightLevel
        simp only [levelOf, List.head?_cons, Option.bind_some, Frame.level?, Option.getD_some]
        omega
      | @binary _ _ _ _ occurrence =>
        simpa [levelOf, Frame.level?] using low occurrence (by simp)
      | group | call | argument => exact Nat.zero_le _

variable {front back : List Token} {occurrence : Occurrence}

theorem run_binary (between : occurrence.form.binary = true)
    (notTrailing : occurrence.form.trailing = false)
    (left : ∀ other, front.getLast? = some (.operator other) →
      other.rightLevel ≤ occurrence.precedence)
    (right : Stops occurrence.rightLevel back) (x y : Term) :
    (before []).run (front ++ .operand x :: .operator occurrence :: .operand y :: back) =
      (before []).run (front ++ .operand (.operation occurrence.operator .binary [x, y]) :: back) := by
  rw [run_append, run_append]
  cases ran : (before []).steps front with
  | none => rfl
  | some machine =>
    cases machine with
    | named | after => rfl
    | before frames =>
      have level := levelOf_le ran left
      have kept := close_eq_self (Nat.lt_succ_of_le level) x
      simp only [Option.bind_some, run_cons, step, kept, notTrailing, between, if_true,
        Bool.false_eq_true, if_false]
      exact run_apply rfl right frames y

theorem run_leading (before' : occurrence.form.leading = true)
    (notTrailing : occurrence.form.trailing = false) (notBinary : occurrence.form.binary = false)
    (right : Stops occurrence.precedence back) (y : Term) :
    (before []).run (front ++ .operator occurrence :: .operand y :: back) =
      (before []).run (front ++ .operand (.operation occurrence.operator .leading [y]) :: back) := by
  rw [run_append, run_append]
  cases ran : (before []).steps front with
  | none => rfl
  | some machine =>
    cases machine with
    | named => rfl
    | after => simp [run_cons, step, notTrailing, notBinary]
    | before frames =>
      simp only [Option.bind_some, run_cons, step, before', if_true]
      exact run_apply rfl right frames y

theorem run_trailing (behind : occurrence.form.trailing = true)
    (left : ∀ other, front.getLast? = some (.operator other) →
      other.rightLevel ≤ occurrence.precedence) (x : Term) :
    (before []).run (front ++ .operand x :: .operator occurrence :: back) =
      (before []).run (front ++ .operand (.operation occurrence.operator .trailing [x]) :: back) := by
  rw [run_append, run_append]
  cases ran : (before []).steps front with
  | none => rfl
  | some machine =>
    cases machine with
    | named | after => rfl
    | before frames =>
      have level := levelOf_le ran left
      have kept := close_eq_self (Nat.lt_succ_of_le level) x
      simp only [Option.bind_some, run_cons, step, kept, behind, if_true]

/-- An operator with its operands and nothing else. -/
theorem run_binary_alone (between : occurrence.form.binary = true)
    (notTrailing : occurrence.form.trailing = false) (x y : Term) :
    (before []).run [.operand x, .operator occurrence, .operand y] =
      some (.operation occurrence.operator .binary [x, y]) :=
  @run_binary [] [] occurrence between notTrailing (by rintro _ ⟨⟩) (by rintro _ ⟨⟩) x y

theorem run_leading_alone (before' : occurrence.form.leading = true)
    (notTrailing : occurrence.form.trailing = false) (notBinary : occurrence.form.binary = false)
    (y : Term) : (before []).run [.operator occurrence, .operand y] =
      some (.operation occurrence.operator .leading [y]) :=
  @run_leading [] [] occurrence before' notTrailing notBinary (by rintro _ ⟨⟩) y

theorem run_trailing_alone (behind : occurrence.form.trailing = true) (x : Term) :
    (before []).run [.operand x, .operator occurrence] =
      some (.operation occurrence.operator .trailing [x]) :=
  @run_trailing [] [] occurrence behind (by rintro _ ⟨⟩) x

end Reckoner.Machine
