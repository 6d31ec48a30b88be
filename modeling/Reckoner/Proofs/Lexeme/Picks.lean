import Reckoner.Proofs.Grammar.Steps
import Reckoner.Proofs.Lexeme.Neighbours

/-!
Which variable a step operator picks. Classifying puts it in front of a variable or behind one. If no variable is
picked twice and no cast stands in front of one that is picked from behind, the parser gives it the variable.
-/
namespace Reckoner

/-- The conversions. -/
def Operator.isCast : Operator → Bool
  | castBool | castInt | castFloat | castString => true
  | _ => false

namespace Occurrence.Settled

variable {occurrence : Occurrence}

theorem of_trailing (h : occurrence.Settled) (trails : occurrence.form.trailing = true) :
    occurrence.operator.form.needsSide = true ∧ occurrence.form.leading = false ∧
      occurrence.precedence = Operator.unaryPrecedence := by
  cases h with
  | plain op side => cases op <;> first | cases side; done | cases trails
  | before op side => cases trails
  | after op side => exact ⟨side, rfl, rfl⟩
  | sign op side => cases op <;> first | cases side; done | cases trails

theorem of_step (h : occurrence.Settled) (isStep : occurrence.operator.form.needsSide = true) :
    occurrence.precedence = Operator.unaryPrecedence ∧ occurrence.form.binary = false := by
  cases h with
  | plain op side => exact absurd (side.symm.trans isStep) Bool.false_ne_true
  | before op side | after op side => exact ⟨rfl, rfl⟩
  | sign op side => exact ⟨rfl, rfl⟩

theorem of_binary (h : occurrence.Settled) (binary : occurrence.form.binary = true) :
    occurrence.operator.form.needsSide = false ∧ occurrence.precedence < Operator.unaryPrecedence := by
  cases h with
  | plain op side =>
    refine ⟨side, ?_⟩
    cases op <;> first | (cases binary; done) | (cases side; done) | decide
  | before op side | after op side | sign op side => cases binary

/-- Nothing but a cast binds tighter than a step operator. -/
theorem precedence_le (h : occurrence.Settled) (noCast : occurrence.operator.isCast = false) :
    occurrence.precedence ≤ Operator.unaryPrecedence := by
  cases h with
  | plain op side => cases op <;> first | (cases noCast; done) | decide
  | before op side | after op side | sign op side => exact Nat.le_refl _

end Occurrence.Settled

namespace Lexeme

/-- The step operator of rank `i` picks the variable of rank `k`, the next one if it leads and the one before if it
trails. -/
def Picks (lexemes : List Lexeme) (i k : Nat) : Prop :=
  ∃ lexeme occurrence, lexemes[i]? = some lexeme ∧ lexeme.kind = .operator occurrence ∧
    occurrence.operator.form.needsSide = true ∧
    ((occurrence.form.leading = true ∧ k = i + 1) ∨ (occurrence.form.trailing = true ∧ i = k + 1))

/-- Whether the lexeme is a conversion. -/
def isCast (lexeme : Lexeme) : Bool :=
  lexeme.occurrence?.any (·.operator.isCast)

/-- What is picked depends on the operators alone. -/
theorem picks_iff {lexemes : List Lexeme} {i k : Nat} :
    Picks lexemes i k ↔ ∃ occurrence, (lexemes.map occurrence?)[i]? = some (some occurrence) ∧
      occurrence.operator.form.needsSide = true ∧
      ((occurrence.form.leading = true ∧ k = i + 1) ∨ (occurrence.form.trailing = true ∧ i = k + 1)) := by
  constructor
  · rintro ⟨lexeme, occurrence, found, kind, side⟩
    exact ⟨occurrence, by simp [found, occurrence?, kind], side⟩
  · rintro ⟨occurrence, found, side⟩
    rw [List.getElem?_map, Option.map_eq_some_iff] at found
    obtain ⟨lexeme, found, named⟩ := found
    refine ⟨lexeme, occurrence, found, ?_, side⟩
    unfold occurrence? at named
    split at named
    · next kind => exact kind.trans (congrArg Kind.operator (Option.some.inj named))
    · cases named

variable {before rest : List Lexeme} {lexeme : Lexeme} {occurrence : Occurrence}

private theorem Leads.ahead (leads : Leads (before ++ lexeme :: rest)) (kind : lexeme.kind = .operator occurrence)
    (isStep : occurrence.operator.form.needsSide = true) (leading : occurrence.form.leading = true) :
    ∃ name after, rest = name :: after ∧ name.isLvalue = true := by
  induction before with
  | nil =>
    have found := leads.1 occurrence kind isStep leading
    cases rest with
    | nil => cases found
    | cons name after => exact ⟨name, after, rfl, found⟩
  | cons _ _ ih => exact ih leads.2

private theorem Follows.here {relation : Option Lexeme → Lexeme → Prop} {previous : Option Lexeme}
    (follows : Follows relation previous (before ++ lexeme :: rest)) :
    relation (before.getLast?.or previous) lexeme := by
  induction before generalizing previous with
  | nil => exact follows.1
  | cons first before ih =>
    have later := ih follows.2
    rw [List.getLast?_cons]
    cases last : before.getLast? <;> simpa [last] using later

variable {registry : Registry} {source : String} {lexemes : List Lexeme}

/-- Where a step operator trails, a variable stands in front of it. -/
theorem exists_behind (read : tokenize source = .ok lexemes)
    (known : classify registry lexemes = .ok (before ++ lexeme :: rest)) (kind : lexeme.kind = .operator occurrence)
    (trailing : occurrence.form.trailing = true) :
    ∃ front name, before = front ++ [name] ∧ name.isLvalue = true := by
  have behind := (classify_follows read known).2.2.here.1 occurrence kind trailing
  rcases List.eq_nil_or_concat before with rfl | ⟨front, name, rfl⟩
  · cases behind
  · exact ⟨front, name, List.concat_eq_append, by simpa using behind⟩

/-- Where a step operator leads, a variable stands behind it. -/
theorem exists_ahead (read : tokenize source = .ok lexemes)
    (known : classify registry lexemes = .ok (before ++ lexeme :: rest)) (kind : lexeme.kind = .operator occurrence)
    (isStep : occurrence.operator.form.needsSide = true) (leading : occurrence.form.leading = true) :
    ∃ name after, rest = name :: after ∧ name.isLvalue = true :=
  (classify_leads read known).ahead kind isStep leading

private theorem kind_of_token (h : lexeme.token = .operator occurrence) : lexeme.kind = .operator occurrence := by
  unfold token at h
  split at h
  · cases h
  · cases h
  · cases h
  · cases h
  · next other kind =>
    split at h <;> cases h
    exact kind

private theorem token_of_isLvalue (h : lexeme.isLvalue = true) :
    ∃ term, lexeme.token = .operand term ∧ term.IsCell := by
  unfold isLvalue at h
  split at h
  · next cell kind => exact ⟨.cell lexeme.text cell lexeme.span, by simp [token, kind], _, _, _, rfl⟩
  · cases h

private theorem stepped_of_token {term : Term} (h : lexeme.token = .operand term) : term.Stepped := by
  unfold token at h
  split at h
  · cases h
  · cases h
    exact .node nofun (by simp)
  · cases h
    exact .node nofun (by simp)
  · cases h
  · split at h <;> cases h

/-- If no variable is picked twice and none from behind a cast, nothing else can take one that is picked. -/
theorem sided_of_classify {classified : List Lexeme} (read : tokenize source = .ok lexemes)
    (known : classify registry lexemes = .ok classified)
    (once : ∀ i j k, Picks classified i k → Picks classified j k → i = j)
    (noCast : ∀ k lexeme, Picks classified (k + 2) (k + 1) → classified[k]? = some lexeme →
      lexeme.isCast = false) : Grammar.Sided (classified.map token) := by
  have settled : ∀ lexeme ∈ classified, ∀ occurrence, lexeme.kind = .operator occurrence →
      occurrence.Settled := by
    intro lexeme mem occurrence kind
    have here := settled_of_classify read known lexeme mem
    rwa [Settled, kind] at here
  have split {before rest : List Token} {occurrence : Occurrence}
      (h : classified.map token = before ++ .operator occurrence :: rest) :
      ∃ front lexeme back, classified = front ++ lexeme :: back ∧ front.map token = before ∧
        back.map token = rest ∧ lexeme.kind = .operator occurrence := by
    obtain ⟨front, other, rfl, isBefore, isOther⟩ := List.map_eq_append_iff.mp h
    obtain ⟨lexeme, back, rfl, isOperator, isRest⟩ := List.map_eq_cons_iff.mp isOther
    exact ⟨front, lexeme, back, rfl, isBefore, isRest, kind_of_token isOperator⟩
  constructor
  · intro term mem
    obtain ⟨lexeme, -, same⟩ := List.mem_map.mp mem
    exact stepped_of_token same
  · intro occurrence mem binary
    obtain ⟨lexeme, isLexeme, same⟩ := List.mem_map.mp mem
    exact (settled lexeme isLexeme occurrence (kind_of_token same)).of_binary binary
  · intro before occurrence rest whole trailing
    obtain ⟨front, lexeme, back, rfl, rfl, rfl, kind⟩ := split whole
    obtain ⟨front, name, rfl, lvalue⟩ := exists_behind read known kind trailing
    obtain ⟨term, isOperand, isCell⟩ := token_of_isLvalue lvalue
    obtain ⟨isStep, -, level⟩ := (settled lexeme (by simp) occurrence kind).of_trailing trailing
    refine ⟨level, front.map token, term, by simp [isOperand], isCell, fun other last => ?_⟩
    rw [List.getLast?_map, Option.map_eq_some_iff] at last
    obtain ⟨cast, isLast, same⟩ := last
    obtain ⟨front, rfl⟩ := List.getLast?_eq_some_iff.mp isLast
    refine (settled cast (by simp) other (kind_of_token same)).precedence_le ?_
    have picks : Picks (front ++ [cast] ++ [name] ++ lexeme :: back) (front.length + 2) (front.length + 1) :=
      ⟨lexeme, occurrence, by simp, kind, isStep, .inr ⟨trailing, rfl⟩⟩
    have notCast := noCast front.length cast picks (by simp)
    simpa [isCast, occurrence?, kind_of_token same] using notCast
  · intro before occurrence rest whole isStep leading
    obtain ⟨front, lexeme, back, rfl, rfl, rfl, kind⟩ := split whole
    obtain ⟨name, after, rfl, lvalue⟩ := exists_ahead read known kind isStep leading
    obtain ⟨term, isOperand, isCell⟩ := token_of_isLvalue lvalue
    refine ⟨((settled lexeme (by simp) occurrence kind).of_step isStep).1, term, after.map token, by simp [isOperand],
      isCell, fun other first => ?_⟩
    rw [List.head?_map, Option.map_eq_some_iff] at first
    obtain ⟨second, isFirst, same⟩ := first
    obtain ⟨after, rfl⟩ := List.head?_eq_some_iff.mp isFirst
    by_contra trailing
    rw [Bool.not_eq_false] at trailing
    -- The variable between the two operators would be picked twice.
    obtain ⟨isStep', -, -⟩ := (settled second (by simp) other (kind_of_token same)).of_trailing trailing
    have picks : Picks (front ++ lexeme :: name :: second :: after) front.length (front.length + 1) :=
      ⟨lexeme, occurrence, by simp, kind, isStep, .inl ⟨leading, rfl⟩⟩
    have picks' : Picks (front ++ lexeme :: name :: second :: after) (front.length + 2) (front.length + 1) :=
      ⟨second, other, by simp, kind_of_token same, isStep', .inr ⟨trailing, rfl⟩⟩
    have := once _ _ _ picks picks'
    omega

end Lexeme

end Reckoner
