import Reckoner.Proofs.Lexeme.Spacing
import Reckoner.Proofs.Mirrors
import Reckoner.Proofs.Strict.Classifying

/-!
Lexemes as they are seen from elsewhere. Classifying looks at places only to report an error, and it looks neither at
ranks nor at the values of constants. So it runs alike on lexemes that have other places, other ranks and other
constants.
-/
namespace Reckoner

/-- What to put in for a constant, given its place and its value. -/
abbrev Labelling :=
  Span → Value → Value

/-- Leaves the constants as they are. -/
def Labelling.keep : Labelling :=
  fun _ value => value

/-- How a source is seen from elsewhere: as a part of a larger one, or without its places. -/
structure View where
  label : Labelling
  place : Span → Span
  /-- The number of lexemes in front. -/
  rank : Nat
  /-- The number of lists that are there before. -/
  lists : Nat
  /-- The source around. -/
  source : String
  place_cover : ∀ a b, place (a.cover b) = (place a).cover (place b)

/-- The view without places and with other constants. -/
def View.blank (label : Labelling) : View :=
  ⟨label, fun _ => default, 0, 0, "", fun _ _ => by decide⟩

namespace Lexeme

/-- The kind with another constant. -/
def Kind.relabel (label : Value → Value) : Kind → Kind
  | .constant value => .constant (label value)
  | kind => kind

theorem Kind.relabel_keep (kind : Kind) (span : Span) : kind.relabel (Labelling.keep span) = kind := by
  cases kind <;> rfl

/-- The lexeme as it is seen. -/
def viewed (view : View) (lexeme : Lexeme) : Lexeme :=
  ⟨lexeme.text, view.place lexeme.span, lexeme.position + view.rank, lexeme.kind.relabel (view.label lexeme.span)⟩

variable {view : View} {registry : Registry} {lexeme : Lexeme} {lexemes : List Lexeme}
  {previous : Option Lexeme}

/-- Where the constants are left as they are only the place is lost. -/
theorem viewed_blank (lexeme : Lexeme) : lexeme.viewed (.blank .keep) = lexeme.unplaced :=
  congrArg (Lexeme.mk lexeme.text default lexeme.position) (lexeme.kind.relabel_keep lexeme.span)

section Views

variable (view lexeme)

@[simp] theorem occurrence?_viewed : (lexeme.viewed view).occurrence? = lexeme.occurrence? := by
  obtain ⟨text, span, position, kind⟩ := lexeme
  cases kind <;> rfl

@[simp] theorem isOperatorOf_viewed (op : Operator) :
    (lexeme.viewed view).isOperatorOf op = lexeme.isOperatorOf op := by
  simp [isOperatorOf]

@[simp] theorem opensGroup_viewed : (lexeme.viewed view).opensGroup = lexeme.opensGroup :=
  isOperatorOf_viewed ..

@[simp] theorem closesGroup_viewed : (lexeme.viewed view).closesGroup = lexeme.closesGroup :=
  isOperatorOf_viewed ..

@[simp] theorem isComma_viewed : (lexeme.viewed view).isComma = lexeme.isComma :=
  isOperatorOf_viewed ..

@[simp] theorem isOperator_viewed : (lexeme.viewed view).isOperator = lexeme.isOperator := by
  simp [isOperator]

@[simp] theorem isEvaluable_viewed : (lexeme.viewed view).isEvaluable = lexeme.isEvaluable := by
  obtain ⟨text, span, position, kind⟩ := lexeme
  cases kind <;> rfl

@[simp] theorem isLvalue_viewed : (lexeme.viewed view).isLvalue = lexeme.isLvalue := by
  obtain ⟨text, span, position, kind⟩ := lexeme
  cases kind <;> rfl

@[simp] theorem endsOperand_viewed : (lexeme.viewed view).endsOperand = lexeme.endsOperand := by
  simp [endsOperand]

end Views

private theorem checkBracketsFrom_viewed (depth : Nat) (firstOpen firstOpen' : Option Span) :
    Mirrors id (checkBracketsFrom depth firstOpen lexemes)
      (checkBracketsFrom depth firstOpen' (lexemes.map (viewed view))) := by
  induction lexemes generalizing depth firstOpen firstOpen' with
  | nil => exact .ite (fun _ => .ok rfl) (fun _ => .error rfl)
  | cons lexeme rest ih =>
    simp only [List.map_cons, checkBracketsFrom, opensGroup_viewed, closesGroup_viewed]
    refine .ite (fun _ => ih ..) (fun _ => .ite (fun _ => ?_) (fun _ => ih ..))
    cases depth with
    | zero => exact .error rfl
    | succ depth => apply ih

/-- A name stands for no constant. -/
private theorem resolve_viewed (relabel : Value → Value) (beforeGroup : Bool) :
    Mirrors (Kind.relabel relabel) (resolve registry lexeme beforeGroup)
      (resolve registry (lexeme.viewed view) beforeGroup) := by
  simp only [resolve, viewed]
  cases Operator.ofSymbol? lexeme.text with
  | some op => exact .ok rfl
  | none =>
    refine .ite (fun _ => ?_) (fun _ => ?_)
    · exact .ite (fun _ => .ok rfl) (fun _ => .ite (fun _ => .error rfl) (fun _ => .error rfl))
    · cases registry.cellOf? lexeme.text with
      | some cell => exact .ok rfl
      | none => exact .ite (fun _ => .error rfl) (fun _ => .error rfl)

private theorem resolveName_viewed (previous : Option Lexeme) (lexeme : Lexeme) (next : Option Lexeme) :
    Mirrors (viewed view) (resolveName registry previous lexeme next)
      (resolveName registry (previous.map (viewed view)) (lexeme.viewed view)
        (next.map (viewed view))) := by
  have opens : (next.map (viewed view)).any opensGroup = next.any opensGroup := by
    cases next <;> simp
  have resolved := @resolve_viewed view registry lexeme (view.label lexeme.span) (next.any opensGroup)
  obtain ⟨text, span, position, kind⟩ := lexeme
  cases kind with
  | unresolved =>
    simp only [resolveName, viewed, Kind.relabel, opens] at resolved ⊢
    apply resolved.bind
    intro kind
    exact .ok rfl
  | operator | function | constant | «variable» => exact .ok rfl

private theorem resolveSide_viewed (previous : Option Lexeme) (lexeme : Lexeme) (next : Option Lexeme) :
    Mirrors (viewed view) (resolveSide previous lexeme next)
      (resolveSide (previous.map (viewed view)) (lexeme.viewed view) (next.map (viewed view))) := by
  have lvalue : ∀ other : Option Lexeme,
      (other.map (viewed view)).any isLvalue = other.any isLvalue := by
    intro other
    cases other <;> simp
  obtain ⟨text, span, position, kind⟩ := lexeme
  cases kind with
  | operator occurrence =>
    simp only [resolveSide, viewed, Kind.relabel, lvalue]
    refine .ite (fun _ => .ok rfl) (fun _ => .ite (fun _ => .ok rfl) (fun _ => ?_))
    exact .ite (fun _ => .ok rfl) (fun _ => .error rfl)
  | unresolved | function | constant | «variable» => exact .ok rfl

private theorem resolveSign_viewed (previous : Option Lexeme) (lexeme : Lexeme) (next : Option Lexeme) :
    Mirrors (viewed view) (resolveSign previous lexeme next)
      (resolveSign (previous.map (viewed view)) (lexeme.viewed view) (next.map (viewed view))) := by
  have ends : (previous.map (viewed view)).any endsOperand = previous.any endsOperand := by
    cases previous <;> simp
  obtain ⟨text, span, position, kind⟩ := lexeme
  cases kind with
  | operator occurrence =>
    simp only [resolveSign, viewed, Kind.relabel, ends]
    exact .ite (fun _ => .ok rfl) (fun _ => .ok rfl)
  | unresolved | function | constant | «variable» => exact .ok rfl

private theorem sweep_viewed
    {change : Option Lexeme → Lexeme → Option Lexeme → Except CompileError Lexeme}
    (each : ∀ previous lexeme next, Mirrors (viewed view) (change previous lexeme next)
      (change (previous.map (viewed view)) (lexeme.viewed view) (next.map (viewed view)))) :
    Mirrors (List.map (viewed view)) (sweep change previous lexemes)
      (sweep change (previous.map (viewed view)) (lexemes.map (viewed view))) := by
  induction lexemes generalizing previous with
  | nil => exact .ok rfl
  | cons lexeme rest ih =>
    rw [List.map_cons, sweep, sweep, List.head?_map]
    apply (each previous lexeme rest.head?).bind
    intro changed
    apply (@ih (some changed)).bind
    intro others
    exact .ok rfl

/-- Lexemes are classified alike from wherever they are seen. -/
theorem classify_viewed (view : View) (registry : Registry) (lexemes : List Lexeme) :
    Mirrors (List.map (viewed view)) (classify registry lexemes)
      (classify registry (lexemes.map (viewed view))) := by
  rw [classify_eq_sweeps, classify_eq_sweeps]
  apply (checkBracketsFrom_viewed 0 none none).bind
  intro _
  apply (sweep_viewed resolveName_viewed).bind
  intro resolved
  apply (sweep_viewed resolveSide_viewed).bind
  intro sided
  exact sweep_viewed resolveSign_viewed

end Lexeme

end Reckoner
