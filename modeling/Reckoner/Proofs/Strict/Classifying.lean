import Reckoner.Proofs.Strict.Lexing

/-!
Classification with every index looked at. Each of its sweeps goes through the lexemes by index, changes one
at a time, and looks at the one before it, which it has changed already, and at the one after it.
-/
namespace Reckoner

namespace Lexeme

/-- A sweep over the lexemes that changes each one, given the one before it as changed and the one after it. -/
def sweep (change : Option Lexeme → Lexeme → Option Lexeme → Except CompileError Lexeme)
    (previous : Option Lexeme) : List Lexeme → Except CompileError (List Lexeme)
  | [] => .ok []
  | lexeme :: rest => do
    let changed ← change previous lexeme rest.head?
    let others ← sweep change (some changed) rest
    return changed :: others

/-- Looks a name up. -/
def resolveName (registry : Registry) (_previous : Option Lexeme) (lexeme : Lexeme)
    (next : Option Lexeme) : Except CompileError Lexeme :=
  match lexeme.kind with
  | .unresolved => do
    let kind ← resolve registry lexeme (next.any opensGroup)
    return { lexeme with kind := kind }
  | _ => .ok lexeme

/-- Gives a step operator its side. -/
def resolveSide (previous : Option Lexeme) (lexeme : Lexeme) (next : Option Lexeme) :
    Except CompileError Lexeme :=
  match lexeme.kind with
  | .operator occurrence =>
    if !occurrence.form.needsSide then .ok lexeme
    else if next.any isLvalue then
      .ok { lexeme with kind := .operator (occurrence.asUnary ⟨false, true, false, true⟩) }
    else if previous.any isLvalue then
      .ok { lexeme with kind := .operator (occurrence.asUnary ⟨false, false, true, true⟩) }
    else .error (CompileError.Cause.atSpan (.noLvalue lexeme.text) lexeme.span)
  | _ => .ok lexeme

/-- Makes a sign without an operand before it unary. -/
def resolveSign (previous : Option Lexeme) (lexeme : Lexeme) (_next : Option Lexeme) :
    Except CompileError Lexeme :=
  match lexeme.kind with
  | .operator occurrence =>
    if occurrence.form.isIndefinite && !previous.any endsOperand then
      let form := { occurrence.form with binary := false }
      .ok { lexeme with kind := .operator (occurrence.asUnary form) }
    else .ok lexeme
  | _ => .ok lexeme

theorem resolveNames_eq (registry : Registry) (previous : Option Lexeme) (lexemes : List Lexeme) :
    resolveNames registry lexemes = sweep (resolveName registry) previous lexemes := by
  induction lexemes generalizing previous with
  | nil => rfl
  | cons lexeme rest ih =>
    have named : resolveNames registry (lexeme :: rest) =
        resolveName registry previous lexeme rest.head? >>= fun named =>
          resolveNames registry rest >>= fun others => pure (named :: others) := by
      rw [resolveNames, resolveName]
      cases lexeme.kind with
      | unresolved =>
        simp only
        cases resolve registry lexeme (rest.head?.any opensGroup) with
        | error error => rfl
        | ok kind => cases resolveNames registry rest <;> rfl
      | operator | function | constant | «variable» => cases resolveNames registry rest <;> rfl
    rw [named, sweep]
    cases resolveName registry previous lexeme rest.head? with
    | error error => rfl
    | ok changed =>
      simp only [bind, Except.bind, ← ih]

private theorem resolveSides_cons (previous : Option Lexeme) (lexeme : Lexeme) (rest : List Lexeme) :
    resolveSides previous (lexeme :: rest) =
      match resolveSide previous lexeme rest.head? with
      | .error error => .error error
      | .ok lexeme =>
        match resolveSides (some lexeme) rest with
        | .ok resolved => .ok (lexeme :: resolved)
        | .error error => .error error := rfl

theorem resolveSides_eq (previous : Option Lexeme) (lexemes : List Lexeme) :
    resolveSides previous lexemes = sweep resolveSide previous lexemes := by
  induction lexemes generalizing previous with
  | nil => rfl
  | cons lexeme rest ih =>
    rw [resolveSides_cons, sweep]
    cases resolveSide previous lexeme rest.head? with
    | error error => rfl
    | ok changed =>
      simp only [bind, Except.bind, ← ih]
      cases resolveSides (some changed) rest <;> rfl

theorem resolveSigns_eq (previous : Option Lexeme) (lexemes : List Lexeme) :
    .ok (resolveSigns previous lexemes) = sweep resolveSign previous lexemes := by
  induction lexemes generalizing previous with
  | nil => rfl
  | cons lexeme rest ih =>
    have changed : ∃ signed, resolveSign previous lexeme rest.head? = .ok signed ∧
        resolveSigns previous (lexeme :: rest) = signed :: resolveSigns (some signed) rest := by
      rw [resolveSigns, resolveSign]
      cases lexeme.kind with
      | operator occurrence =>
        simp only
        split
        · exact ⟨_, rfl, rfl⟩
        · exact ⟨_, rfl, rfl⟩
      | unresolved | function | constant | «variable» => exact ⟨_, rfl, rfl⟩
    obtain ⟨signed, here, whole⟩ := changed
    rw [whole, sweep, here]
    simp only [bind, Except.bind, ← ih]
    rfl

/-- Classifying is checking the parentheses and then three sweeps. -/
theorem classify_eq_sweeps (registry : Registry) (lexemes : List Lexeme) :
    classify registry lexemes = (do
      checkBrackets lexemes
      let resolved ← sweep (resolveName registry) none lexemes
      let sided ← sweep resolveSide none resolved
      sweep resolveSign none sided) := by
  simp only [classify, resolveNames_eq registry none, resolveSides_eq, ← resolveSigns_eq]
  rfl

end Lexeme

namespace Strict

open Lexeme

/-- A sweep by index over `left` more lexemes. The lexemes in front of `index` are changed already. -/
def sweep (change : Option Lexeme → Lexeme → Option Lexeme → Except CompileError Lexeme) :
    Nat → Nat → List Lexeme → Strict CompileError (List Lexeme)
  | 0, _, lexemes => return lexemes
  | left + 1, index, lexemes => do
    let lexeme ← need lexemes[index]?
    let previous ← needBefore lexemes index
    let changed ← lift (change previous lexeme lexemes[index + 1]?)
    sweep change left (index + 1) (lexemes.set index changed)

/-- Looks up the names and settles the forms of the operators, sweep by sweep. -/
def classify (registry : Registry) (lexemes : List Lexeme) : Strict CompileError (List Lexeme) := do
  lift (checkBrackets lexemes)
  let resolved ← sweep (resolveName registry) lexemes.length 0 lexemes
  let sided ← sweep resolveSide resolved.length 0 resolved
  sweep resolveSign sided.length 0 sided

variable {change : Option Lexeme → Lexeme → Option Lexeme → Except CompileError Lexeme}

theorem sweep_from (done rest : List Lexeme) :
    sweep change rest.length done.length (done ++ rest) =
      lift (Lexeme.sweep change done.getLast? rest) >>= fun rest => pure (done ++ rest) := by
  induction rest generalizing done with
  | nil => simp [sweep, Lexeme.sweep]
  | cons lexeme rest ih =>
    have here : (done ++ lexeme :: rest)[done.length]? = some lexeme := by simp
    have next : (done ++ lexeme :: rest)[done.length + 1]? = rest.head? := by
      cases rest <;> simp
    have previous : (needBefore (done ++ lexeme :: rest) done.length : Strict CompileError _) =
        pure done.getLast? := by
      rcases List.eq_nil_or_concat done with rfl | ⟨front, last, rfl⟩
      · rfl
      · simp [needBefore]
    rw [List.length_cons, sweep, here, need_some, pure_bind, previous, pure_bind, next, Lexeme.sweep]
    cases change done.getLast? lexeme rest.head? with
    | error error => rfl
    | ok changed =>
      have set : (done ++ lexeme :: rest).set done.length changed = (done ++ [changed]) ++ rest := by
        simp
      have step := ih (done ++ [changed])
      rw [List.length_append, List.length_singleton, List.getLast?_concat] at step
      rw [lift_ok, pure_bind, set, step]
      cases result : Lexeme.sweep change (some changed) rest with
      | error error => simp only [bind, Except.bind, result]; rfl
      | ok others =>
        simp only [bind, Except.bind, result]
        exact congrArg (fun rest => (pure rest : Strict CompileError (List Lexeme)))
          (List.append_assoc done [changed] others)

theorem sweep_eq (lexemes : List Lexeme) :
    sweep change lexemes.length 0 lexemes = lift (Lexeme.sweep change none lexemes) := by
  refine (sweep_from [] lexemes).trans ?_
  rw [List.getLast?_nil]
  cases Lexeme.sweep change none lexemes <;> rfl

/-- Classifying lexemes uses no index that is out of range. -/
theorem classify_eq (registry : Registry) (lexemes : List Lexeme) :
    classify registry lexemes = lift (Lexeme.classify registry lexemes) := by
  rw [classify_eq_sweeps]
  refine lift_bind fun _ _ => ?_
  rw [sweep_eq]
  refine lift_bind fun resolved _ => ?_
  rw [sweep_eq]
  exact lift_bind fun sided _ => sweep_eq sided

end Strict

end Reckoner
