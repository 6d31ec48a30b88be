import Reckoner.Proofs.Grammar.Brackets
import Reckoner.Tree.Item

/-!
The members of a list as the grammar sees them. A group and a call are operands, given what the lists
that they refer to mean, and a list means what the machine reads in its members.
-/
namespace Reckoner.Item

/-- What the grammar sees of an item. -/
def token (meaning : ListId → Option Term) : Item → Token
  | .lexeme l => l.token
  | .group list _ _ _ => (meaning list).elim .unknown .operand
  | .call name arguments _ _ =>
    (arguments.mapM meaning).elim .unknown fun terms => .operand (.call name terms)

/-- What a list with these items means. -/
def read (meaning : ListId → Option Term) (items : List Item) : Option Term :=
  (Machine.before []).run (items.map (token meaning))

/-- The items as far as they do not depend on other lists. -/
def outline (items : List Item) : List Token :=
  items.map (token fun _ => none)

variable {meaning : ListId → Option Term} {item : Item}

theorem token_eq_opening : item.token meaning = .opening ↔ item.opensGroup = true := by
  cases item with
  | lexeme lexeme =>
    simp only [token, Lexeme.token, opensGroup, Lexeme.opensGroup, Lexeme.isOperatorOf,
      Lexeme.occurrence?]
    cases lexeme.kind with
    | operator occurrence => cases same : occurrence.operator <;> simp [same]
    | unresolved | function | constant | «variable» => simp
  | group list => cases found : meaning list <;> simp [token, found, opensGroup]
  | call _ arguments => cases found : arguments.mapM meaning <;> simp [token, found, opensGroup]

theorem token_eq_closing : item.token meaning = .closing ↔ item.closesGroup = true := by
  cases item with
  | lexeme lexeme =>
    simp only [token, Lexeme.token, closesGroup, Lexeme.closesGroup, Lexeme.isOperatorOf,
      Lexeme.occurrence?]
    cases lexeme.kind with
    | operator occurrence => cases same : occurrence.operator <;> simp [same]
    | unresolved | function | constant | «variable» => simp
  | group list => cases found : meaning list <;> simp [token, found, closesGroup]
  | call _ arguments => cases found : arguments.mapM meaning <;> simp [token, found, closesGroup]

theorem token_eq_comma : item.token meaning = .comma ↔ item.isComma = true := by
  cases item with
  | lexeme lexeme =>
    simp only [token, Lexeme.token, isComma, Lexeme.isComma, Lexeme.isOperatorOf, Lexeme.occurrence?]
    cases lexeme.kind with
    | operator occurrence => cases same : occurrence.operator <;> simp [same]
    | unresolved | function | constant | «variable» => simp
  | group list => cases found : meaning list <;> simp [token, found, isComma]
  | call _ arguments => cases found : arguments.mapM meaning <;> simp [token, found, isComma]

theorem exists_occurrence_of_isOperator {item : Item} (h : item.isOperator = true) :
    ∃ occurrence, item.occurrence? = some occurrence ∧
      occurrence.operator.isPunctuation = false := by
  cases item with
  | lexeme lexeme =>
    simp only [isOperator, Lexeme.isOperator, Option.any_eq_true] at h
    obtain ⟨occurrence, found, notMark⟩ := h
    exact ⟨occurrence, found, by simpa using notMark⟩
  | group | call => simp [isOperator] at h

theorem not_bracket_of_isComma (h : item.isComma = true) :
    ¬ item.opensGroup = true ∧ ¬ item.closesGroup = true := by
  rw [← @token_eq_opening fun _ => none, ← @token_eq_closing fun _ => none, token_eq_comma.mpr h]
  simp

theorem isFunction_lexeme {lexeme : Lexeme} :
    (Item.lexeme lexeme).isFunction = true ↔ lexeme.kind = .function := by
  simp only [isFunction]
  cases lexeme.kind <;> simp

theorem token_of_isFunction (h : item.isFunction = true) :
    item.token meaning = .function item.text := by
  cases item with
  | lexeme lexeme =>
    simp only [isFunction] at h
    simp only [token, Lexeme.token]
    split at h
    · next isFunction => simp only [isFunction, text]
    · cases h
  | group | call => cases h

theorem token_eq_operator {occurrence : Occurrence} :
    item.token meaning = .operator occurrence ↔
      item.isOperator = true ∧ item.occurrence? = some occurrence := by
  cases item with
  | lexeme lexeme =>
    simp only [token, Lexeme.token, isOperator, Lexeme.isOperator, occurrence?, Lexeme.occurrence?]
    cases lexeme.kind with
    | operator other => cases same : other.operator <;> simp [same, Operator.isPunctuation]
    | unresolved | function | constant | «variable» => simp
  | group list => cases found : meaning list <;> simp [token, found, isOperator]
  | call _ arguments => cases found : arguments.mapM meaning <;> simp [token, found, isOperator]

theorem exists_token_of_isOperator (h : item.isOperator = true) :
    ∃ occurrence, item.occurrence? = some occurrence ∧ item.token meaning = .operator occurrence := by
  obtain ⟨occurrence, found, -⟩ := exists_occurrence_of_isOperator h
  exact ⟨occurrence, found, token_eq_operator.mpr ⟨h, found⟩⟩

/-- An operand means something, or nothing that contains it does. -/
theorem token_of_isEvaluable (h : item.isEvaluable = true) :
    item.token meaning = .unknown ∨ ∃ term, item.token meaning = .operand term := by
  cases item with
  | lexeme lexeme =>
    simp only [isEvaluable, Lexeme.isEvaluable] at h
    simp only [token, Lexeme.token]
    split at h
    · next isConstant =>
      simp only [isConstant]
      exact .inr ⟨_, rfl⟩
    · next isVariable =>
      simp only [isVariable]
      exact .inr ⟨_, rfl⟩
    · cases h
  | group list => cases found : meaning list <;> simp [token, found]
  | call _ arguments => cases found : arguments.mapM meaning <;> simp [token, found]

/-- An item means nothing if one of its lists does not. -/
theorem token_eq_unknown {list : ListId} (mem : list ∈ item.lists) (none : meaning list = none) :
    item.token meaning = .unknown := by
  cases item with
  | lexeme => cases mem
  | group other =>
    obtain rfl : list = other := by simpa [lists] using mem
    simp [token, none]
  | call name arguments =>
    have unread : arguments.mapM meaning = Option.none := by
      simp only [lists] at mem
      induction arguments with
      | nil => cases mem
      | cons first rest ih =>
        rw [List.mapM_cons]
        rcases List.mem_cons.mp mem with rfl | mem
        · rw [none]
          rfl
        · rw [ih mem]
          cases meaning first <;> rfl
    simp [token, unread]

theorem token_congr {other : ListId → Option Term}
    (same : ∀ list ∈ item.lists, meaning list = other list) :
    item.token meaning = item.token other := by
  cases item with
  | lexeme => rfl
  | group list text span position =>
    simp only [token, same list (by simp [lists])]
  | call name arguments span position =>
    have : arguments.mapM meaning = arguments.mapM other := by
      simp only [lists] at same
      clear name span position
      induction arguments with
      | nil => rfl
      | cons list rest ih =>
        rw [List.mapM_cons, List.mapM_cons, same list List.mem_cons_self,
          ih fun list mem => same list (List.mem_cons_of_mem _ mem)]
    simp only [token, this]

theorem read_congr {other : ListId → Option Term} {items : List Item}
    (same : ∀ item ∈ items, ∀ list ∈ item.lists, meaning list = other list) :
    read meaning items = read other items := by
  unfold read
  rw [List.map_congr_left fun item mem => token_congr (same item mem)]

theorem balanced_cons {depth : Nat} {tokens : List Token} :
    Token.Balanced depth (item.token meaning :: tokens) ↔
      if item.opensGroup then Token.Balanced (depth + 1) tokens
      else if item.closesGroup then 0 < depth ∧ Token.Balanced (depth - 1) tokens
      else Token.Balanced depth tokens := by
  by_cases opens : item.opensGroup = true
  · rw [token_eq_opening.mpr opens, if_pos opens]
    cases depth <;> rfl
  by_cases closes : item.closesGroup = true
  · rw [token_eq_closing.mpr closes, if_neg opens, if_pos closes]
    cases depth <;> simp [Token.Balanced]
  · rw [if_neg opens, if_neg closes]
    have notOpening : item.token meaning ≠ .opening := fun same => opens (token_eq_opening.mp same)
    have notClosing : item.token meaning ≠ .closing := fun same => closes (token_eq_closing.mp same)
    generalize item.token meaning = token at notOpening notClosing ⊢
    cases token <;> cases depth <;> first | rfl | contradiction

theorem enclosed_cons {depth : Nat} {tokens : List Token} :
    Token.Enclosed depth (item.token meaning :: tokens) ↔
      if item.opensGroup then Token.Enclosed (depth + 1) tokens
      else if item.closesGroup then 0 < depth ∧ Token.Enclosed (depth - 1) tokens
      else (item.isComma = true → 0 < depth) ∧ Token.Enclosed depth tokens := by
  by_cases opens : item.opensGroup = true
  · rw [token_eq_opening.mpr opens, if_pos opens]
    cases depth <;> rfl
  by_cases closes : item.closesGroup = true
  · rw [token_eq_closing.mpr closes, if_neg opens, if_pos closes]
    cases depth <;> simp [Token.Enclosed]
  · rw [if_neg opens, if_neg closes]
    by_cases comma : item.isComma = true
    · rw [token_eq_comma.mpr comma]
      cases depth <;> simp [Token.Enclosed, comma]
    have notOpening : item.token meaning ≠ .opening := fun same => opens (token_eq_opening.mp same)
    have notClosing : item.token meaning ≠ .closing := fun same => closes (token_eq_closing.mp same)
    have notComma : item.token meaning ≠ .comma := fun same => comma (token_eq_comma.mp same)
    generalize item.token meaning = token at notOpening notClosing notComma ⊢
    cases token <;> cases depth <;> first | contradiction | simp [Token.Enclosed, comma]

/-- Whether brackets are balanced does not depend on what other lists mean. -/
theorem balanced_outline {depth : Nat} {items : List Item} :
    Token.Balanced depth (items.map (token meaning)) ↔ Token.Balanced depth (outline items) := by
  unfold outline
  induction items generalizing depth with
  | nil => rfl
  | cons item rest ih => simp only [List.map_cons, balanced_cons, ih]

theorem enclosed_outline {depth : Nat} {items : List Item} :
    Token.Enclosed depth (items.map (token meaning)) ↔ Token.Enclosed depth (outline items) := by
  unfold outline
  induction items generalizing depth with
  | nil => rfl
  | cons item rest ih => simp only [List.map_cons, enclosed_cons, ih]

end Reckoner.Item
