import Mathlib.Data.List.Chain
import Reckoner.Proofs.Builder.Grouping
import Reckoner.Proofs.Lexeme.Settled

/-!
Lists as they come from a classified source. What a lexeme follows is part of how it was classified: a
trailing operator stands behind an operand, a sign between two operands only where an operand can end,
and a function name before a parenthesis. Taking out groups and calls keeps all of this, and leaves a list
of operands and operators only.
-/
namespace Reckoner.Item

/-- An operator behind its operand. -/
def trails (item : Item) : Bool :=
  item.isOperator && item.occurrence?.any (·.form.trailing)

/-- An operator between two operands that could stand in front of the second one alone. -/
def isSign (item : Item) : Bool :=
  item.isOperator && item.occurrence?.any fun occurrence =>
    occurrence.form.binary && occurrence.form.leading

/-- The second item may stand right behind the first one. -/
structure Adjacent (first second : Item) : Prop where
  trailing : second.trails = true → first.isEvaluable = true
  sign : second.isSign = true →
    first.isEvaluable = true ∨ first.trails = true ∨ first.closesGroup = true
  function : first.isFunction = true → second.opensGroup = true

/-- Items as they follow each other in a classified source. -/
structure Orderly (registry : Registry) (items : List Item) : Prop where
  settled : ∀ lexeme, .lexeme lexeme ∈ items → lexeme.Settled registry
  sorted : items.Pairwise fun first second => first.position < second.position
  balanced : Token.Balanced 0 (outline items)
  adjacent : items.IsChain Adjacent
  last : ∀ item ∈ items.getLast?, item.isFunction = false

/-- Items that stand in brackets, or make up the whole source. -/
structure Proper (registry : Registry) (items : List Item) : Prop extends Orderly registry items where
  first : ∀ item ∈ items.head?, item.trails = false ∧ item.isSign = false

/-- Operands and operators only. -/
def Flat (items : List Item) : Prop :=
  ∀ item ∈ items, item.isEvaluable = true ∨ item.isOperator = true

theorem not_isEvaluable_of_isOperator {item : Item} (h : item.isOperator = true) :
    item.isEvaluable = false := by
  by_contra evaluable
  obtain ⟨occurrence, -, isOperator⟩ := @exists_token_of_isOperator (fun _ => none) item h
  rcases @token_of_isEvaluable (fun _ => none) item (by simpa using evaluable) with same | ⟨term, same⟩ <;>
    rw [isOperator] at same <;> cases same

theorem not_closesGroup_of_isOperator {item : Item} (h : item.isOperator = true) :
    item.closesGroup = false := by
  by_contra closes
  obtain ⟨occurrence, -, isOperator⟩ := @exists_token_of_isOperator (fun _ => none) item h
  rw [token_eq_closing.mpr (by simpa using closes)] at isOperator
  cases isOperator

/-- A mark at which an operand can begin. -/
private theorem begins {item : Item} (h : item.opensGroup = true ∨ item.isComma = true) :
    item.isEvaluable = false ∧ item.trails = false ∧ item.closesGroup = false := by
  have mark : item.token (fun _ => none) = .opening ∨ item.token (fun _ => none) = .comma :=
    h.imp token_eq_opening.mpr token_eq_comma.mpr
  refine ⟨?_, ?_, ?_⟩
  · by_contra evaluable
    rcases @token_of_isEvaluable (fun _ => none) item (by simpa using evaluable) with same | ⟨term, same⟩ <;>
      simp [same] at mark
  · by_contra isTrailing
    simp only [trails, Bool.not_eq_false, Bool.and_eq_true] at isTrailing
    obtain ⟨occurrence, -, same⟩ := @exists_token_of_isOperator (fun _ => none) item isTrailing.1
    simp [same] at mark
  · by_contra closes
    simp [token_eq_closing.mpr (by simpa using closes)] at mark

/-- A mark at which an operand can end. -/
private theorem ends {item : Item} (h : item.closesGroup = true ∨ item.isComma = true) :
    item.opensGroup = false := by
  have mark : item.token (fun _ => none) = .closing ∨ item.token (fun _ => none) = .comma :=
    h.imp token_eq_closing.mpr token_eq_comma.mpr
  by_contra opens
  simp [token_eq_opening.mpr (by simpa using opens)] at mark

variable {registry : Registry}

theorem settled_of_occurrence? {items : List Item}
    (settled : ∀ lexeme, .lexeme lexeme ∈ items → lexeme.Settled registry) {item : Item}
    (mem : item ∈ items) {occurrence : Occurrence} (named : item.occurrence? = some occurrence) :
    occurrence.Settled := by
  cases item with
  | group | call => cases named
  | lexeme lexeme =>
    have here := settled lexeme mem
    simp only [occurrence?, Lexeme.occurrence?] at named
    split at named
    · next isOperator =>
      cases named
      simpa only [Lexeme.Settled, isOperator] using here
    · cases named

private theorem proper_between {left right : Item} {inner : List Item}
    (begin' : left.opensGroup = true ∨ left.isComma = true)
    (end' : right.closesGroup = true ∨ right.isComma = true)
    (settled : ∀ lexeme, .lexeme lexeme ∈ inner → lexeme.Settled registry)
    (sorted : inner.Pairwise fun first second => first.position < second.position)
    (balanced : Token.Balanced 0 (outline inner))
    (adjacent : (left :: (inner ++ [right])).IsChain Adjacent) : Proper registry inner := by
  obtain ⟨first, chain⟩ := List.isChain_cons.mp adjacent
  obtain ⟨inside, -, last⟩ := List.isChain_append.mp chain
  refine ⟨⟨settled, sorted, balanced, inside, fun item isLast => ?_⟩, fun item isFirst => ?_⟩
  · by_contra isFunction
    have := (last item isLast right (by simp)).function (by simpa using isFunction)
    rw [ends end'] at this
    cases this
  · obtain ⟨notEvaluable, notTrailing, notClosing⟩ := begins begin'
    have adjacent := first item (by simp [List.head?_append, Option.mem_def.mp isFirst])
    refine ⟨?_, ?_⟩
    · by_contra trails
      have := adjacent.trailing (by simpa using trails)
      rw [notEvaluable] at this
      cases this
    · by_contra sign
      have := adjacent.sign (by simpa using sign)
      simp [notEvaluable, notTrailing, notClosing] at this

private theorem proper_runs {runs : List (List Item)} {left right : Item} {inner : List Item}
    (separated : Separated (fun item : Item => item.isComma = true) runs inner)
    (enclosed : ∀ run ∈ runs, Token.Enclosed 0 (outline run))
    (begin' : left.opensGroup = true ∨ left.isComma = true) (closes : right.closesGroup = true)
    (settled : ∀ lexeme, .lexeme lexeme ∈ inner → lexeme.Settled registry)
    (sorted : inner.Pairwise fun first second => first.position < second.position)
    (adjacent : (left :: (inner ++ [right])).IsChain Adjacent) :
    ∀ run ∈ runs, Proper registry run := by
  induction separated generalizing left with
  | last run =>
    intro other mem
    rw [List.mem_singleton.mp mem]
    have balanced := Token.Enclosed.balanced (enclosed run List.mem_cons_self)
    exact proper_between begin' (.inl closes) settled sorted balanced adjacent
  | @next mark runs rest run isComma _ ih =>
    obtain ⟨here, later⟩ := List.forall_mem_cons.mp enclosed
    obtain ⟨sortedRun, sortedRest, -⟩ := List.pairwise_append.mp sorted
    have split : left :: (run ++ mark :: rest ++ [right]) =
        (left :: run) ++ mark :: (rest ++ [right]) := by simp
    rw [split] at adjacent
    obtain ⟨chainRun, chainRest⟩ := List.isChain_split.mp adjacent
    refine List.forall_mem_cons.mpr ⟨?_, ?_⟩
    · exact proper_between begin' (.inr isComma) (fun lexeme mem => settled lexeme (by simp [mem]))
        sortedRun here.balanced chainRun
    · exact ih later (.inr isComma) (fun lexeme mem => settled lexeme (by simp [mem]))
        (List.pairwise_cons.mp sortedRest).2 chainRest

theorem Flat.not_isFunction {items : List Item} (flat : Flat items) {item : Item} (mem : item ∈ items) :
    item.isFunction = false := by
  by_contra isFunction
  have same := @token_of_isFunction (fun _ => none) item (by simpa using isFunction)
  rcases flat item mem with evaluable | isOperator
  · rcases @token_of_isEvaluable (fun _ => none) item evaluable with other | ⟨term, other⟩ <;>
      rw [same] at other <;> cases other
  · obtain ⟨occurrence, -, other⟩ := @exists_token_of_isOperator (fun _ => none) item isOperator
    rw [same] at other
    cases other

theorem Flat.balanced {items : List Item} (flat : Flat items) : Token.Balanced 0 (outline items) := by
  induction items with
  | nil => rfl
  | cons item rest ih =>
    obtain ⟨here, later⟩ := List.forall_mem_cons.mp flat
    have kept : item.token (fun _ => none) ≠ .opening ∧ item.token (fun _ => none) ≠ .closing := by
      rcases here with evaluable | isOperator
      · rcases @token_of_isEvaluable (fun _ => none) item evaluable with same | ⟨term, same⟩ <;>
          simp [same]
      · obtain ⟨occurrence, -, same⟩ := @exists_token_of_isOperator (fun _ => none) item isOperator
        simp [same]
    refine balanced_cons.mpr ?_
    rw [if_neg fun opens => kept.1 (token_eq_opening.mpr opens),
      if_neg fun closes => kept.2 (token_eq_closing.mpr closes)]
    exact ih later

/-- A settled lexeme that is neither a mark nor the name of a function. -/
theorem evaluable_or_operator {item : Item}
    (settled : ∀ lexeme, item = .lexeme lexeme → lexeme.Settled registry)
    (notOpening : item.opensGroup = false) (notClosing : item.closesGroup = false)
    (notComma : item.isComma = false) (notFunction : item.isFunction = false) :
    item.isEvaluable = true ∨ item.isOperator = true := by
  cases item with
  | group | call => exact .inl rfl
  | lexeme lexeme =>
    have settled := settled lexeme rfl
    simp only [Lexeme.Settled] at settled
    simp only [isFunction] at notFunction
    simp only [opensGroup, closesGroup, isComma, isEvaluable, isOperator, Lexeme.opensGroup,
      Lexeme.closesGroup, Lexeme.isComma, Lexeme.isEvaluable, Lexeme.isOperator,
      Lexeme.isOperatorOf, Lexeme.occurrence?] at notOpening notClosing notComma ⊢
    cases kind : lexeme.kind with
    | unresolved => simp [kind] at settled
    | function => simp [kind] at notFunction
    | constant | «variable» => simp
    | operator occurrence =>
      simp only [kind] at notOpening notClosing notComma
      cases same : occurrence.operator <;> simp_all [Operator.isPunctuation]

/-- Where a part has balanced brackets, the rest decides. -/
theorem balanced_append {front rest : List Item} (balanced : Token.Balanced 0 (outline front)) :
    Token.Balanced 0 (outline (front ++ rest)) ↔ Token.Balanced 0 (outline rest) := by
  rw [outline, List.map_append]
  exact Token.Balanced.append_iff 0 balanced

/-- What follows a part with balanced brackets is in order too. -/
theorem Orderly.drop {front rest : List Item} (h : Orderly registry (front ++ rest))
    (balanced : Token.Balanced 0 (outline front)) : Orderly registry rest := by
  refine ⟨fun lexeme mem => h.settled lexeme (List.mem_append_right _ mem),
    (List.pairwise_append.mp h.sorted).2.1, (balanced_append balanced).mp h.balanced,
    h.adjacent.right_of_append, fun item isLast => ?_⟩
  refine h.last item ?_
  simp [List.getLast?_append, Option.mem_def.mp isLast]

section Behind

variable {name opening closing : Item} {inner after : List Item}

private theorem balanced_bracket (opens : opening.opensGroup = true) (closes : closing.closesGroup = true)
    (balanced : Token.Balanced 0 (outline inner)) :
    Token.Balanced 0 (outline (opening :: (inner ++ [closing]))) := by
  refine balanced_cons.mpr ?_
  rw [if_pos opens, List.map_append]
  refine (Token.Balanced.append_iff 1 balanced).mpr ?_
  rw [List.map_singleton, token_eq_closing.mpr closes]
  rfl

private theorem balanced_name (isName : name.isFunction = true) {items : List Item} :
    Token.Balanced 0 (outline (name :: items)) ↔ Token.Balanced 0 (outline items) := by
  rw [outline, List.map_cons, token_of_isFunction isName]
  exact Iff.rfl

private theorem group_append (opening closing : Item) (inner after : List Item) :
    opening :: (inner ++ closing :: after) = (opening :: (inner ++ [closing])) ++ after := by
  simp

theorem balanced_group (opens : opening.opensGroup = true) (closes : closing.closesGroup = true)
    (balanced : Token.Balanced 0 (outline inner)) :
    Token.Balanced 0 (outline (opening :: (inner ++ closing :: after))) ↔
      Token.Balanced 0 (outline after) := by
  rw [group_append]
  exact balanced_append (balanced_bracket opens closes balanced)

theorem balanced_call (isName : name.isFunction = true) (opens : opening.opensGroup = true)
    (closes : closing.closesGroup = true) (balanced : Token.Balanced 0 (outline inner)) :
    Token.Balanced 0 (outline (name :: opening :: (inner ++ closing :: after))) ↔
      Token.Balanced 0 (outline after) :=
  (balanced_name isName).trans (balanced_group opens closes balanced)

theorem balanced_keep {item : Item} {rest : List Item} (notOpening : item.opensGroup = false)
    (notClosing : item.closesGroup = false) :
    Token.Balanced 0 (outline (item :: rest)) ↔ Token.Balanced 0 (outline rest) := by
  rw [outline, List.map_cons, balanced_cons, if_neg (by simp [notOpening]), if_neg (by simp [notClosing])]
  exact Iff.rfl

theorem Orderly.behind_group (h : Orderly registry (opening :: (inner ++ closing :: after)))
    (opens : opening.opensGroup = true) (closes : closing.closesGroup = true)
    (balanced : Token.Balanced 0 (outline inner)) : Orderly registry after := by
  rw [group_append] at h
  exact h.drop (balanced_bracket opens closes balanced)

theorem Orderly.behind_call (h : Orderly registry (name :: opening :: (inner ++ closing :: after)))
    (isName : name.isFunction = true) (opens : opening.opensGroup = true)
    (closes : closing.closesGroup = true) (balanced : Token.Balanced 0 (outline inner)) :
    Orderly registry after := by
  rw [group_append, ← List.cons_append] at h
  exact h.drop ((balanced_name isName).mpr (balanced_bracket opens closes balanced))

theorem Orderly.behind_keep {item : Item} {rest : List Item} (h : Orderly registry (item :: rest))
    (notOpening : item.opensGroup = false) (notClosing : item.closesGroup = false) :
    Orderly registry rest :=
  @Orderly.drop registry [item] rest h ((balanced_keep notOpening notClosing).mpr rfl)

/-- Every name of a function has a parenthesis behind it. -/
theorem Orderly.not_isFunction {before rest : List Item} {item : Item}
    (h : Orderly registry (before ++ item :: rest))
    (named : item.isFunction = true → rest.head?.any opensGroup = false) : item.isFunction = false := by
  by_contra isFunction
  have isFunction : item.isFunction = true := by simpa using isFunction
  have alone := named isFunction
  cases rest with
  | nil =>
    have := h.last item (by simp)
    rw [isFunction] at this
    cases this
  | cons second rest =>
    have chain := h.adjacent.right_of_append
    have opens := ((List.isChain_cons.mp chain).1 second (by simp)).function isFunction
    simp [opens] at alone

/-- What is kept in its place is an operand or an operator. -/
theorem Orderly.flat_of_keep {item : Item} {rest : List Item} (h : Orderly registry (item :: rest))
    (notOpening : item.opensGroup = false) (notClosing : item.closesGroup = false)
    (notComma : item.isComma = false)
    (named : item.isFunction = true → rest.head?.any opensGroup = false) :
    item.isEvaluable = true ∨ item.isOperator = true :=
  evaluable_or_operator (fun lexeme same => h.settled lexeme (by simp [same])) notOpening notClosing
    notComma (@Orderly.not_isFunction registry [] rest item h named)

end Behind

namespace Grouping

variable {number : Nat} {items left : List Item} {news : List (List Item × Span)}

private theorem positions_sublist (h : Grouping number items left news) :
    (left.map position).Sublist (items.map position) := by
  induction h with
  | nil => exact .slnil
  | group text span _ _ _ _ ih =>
    simp only [List.map_cons, List.map_append]
    exact (ih.cons _).trans (List.sublist_append_right ..) |>.cons_cons _
  | call span _ _ _ _ _ _ ih =>
    simp only [List.map_cons, List.map_append]
    exact ((ih.cons _).trans (List.sublist_append_right ..) |>.cons _).cons_cons _
  | keep _ _ _ _ _ ih => exact ih.cons_cons _

private theorem orderly_parts (h : Grouping number items left news) (orderly : Orderly registry items) :
    Flat left ∧ left.IsChain Adjacent ∧
      (∀ item ∈ left.head?, item.trails = true ∨ item.isSign = true → items.head? = some item) ∧
      ∀ new ∈ news, Proper registry new.1 := by
  induction h with
  | nil => exact ⟨by simp [Flat], .nil, by simp, by simp⟩
  | @group number opening closing inner after items news text span opens closes balanced _ ih =>
    obtain ⟨flat, chain, -, proper⟩ := ih (orderly.behind_group opens closes balanced)
    rw [group_append] at orderly
    refine ⟨List.forall_mem_cons.mpr ⟨.inl rfl, flat⟩, chain.cons fun _ _ => ⟨fun _ => rfl, fun _ => .inl rfl,
      by rintro ⟨⟩⟩, (by rintro _ ⟨⟩ (h | h) <;> cases h), List.forall_mem_cons.mpr ⟨?_, proper⟩⟩
    exact proper_between (.inl opens) (.inl closes) (fun lexeme mem => orderly.settled lexeme (by simp [mem]))
      (List.pairwise_append.mp (List.pairwise_cons.mp (List.pairwise_append.mp orderly.sorted).1).2).1
      balanced orderly.adjacent.left_of_append
  | @call number name opening closing inner after items runs news span isName opens closes balanced args _
      ih =>
    obtain ⟨flat, chain, -, proper⟩ := ih (orderly.behind_call isName opens closes balanced)
    rw [group_append, ← List.cons_append] at orderly
    refine ⟨List.forall_mem_cons.mpr ⟨.inl rfl, flat⟩, chain.cons fun _ _ => ⟨fun _ => rfl, fun _ => .inl rfl,
      by rintro ⟨⟩⟩, (by rintro _ ⟨⟩ (h | h) <;> cases h), fun new mem => ?_⟩
    rcases List.mem_append.mp mem with mem | mem
    · obtain ⟨run, isRun, rfl⟩ := List.mem_map.mp mem
      rcases args with ⟨rfl, rfl⟩ | ⟨-, separated, enclosed⟩
      · simp at isRun
      · refine proper_runs separated enclosed (.inl opens) closes
          (fun lexeme mem => orderly.settled lexeme (by simp [mem])) ?_
          orderly.adjacent.left_of_append.tail run isRun
        exact (List.pairwise_append.mp (List.pairwise_cons.mp (List.pairwise_cons.mp
          (List.pairwise_append.mp orderly.sorted).1).2).2).1
    · exact proper new mem
  | @keep number item rest items news notOpening notClosing notComma named _ ih =>
    have notFunction := @Orderly.not_isFunction registry [] rest item orderly named
    obtain ⟨flat, chain, first, proper⟩ := ih (orderly.behind_keep notOpening notClosing)
    refine ⟨List.forall_mem_cons.mpr ⟨orderly.flat_of_keep notOpening notClosing notComma named, flat⟩,
      chain.cons fun second isSecond => ?_, by rintro _ ⟨⟩ _; rfl, proper⟩
    have follows : second.trails = true ∨ second.isSign = true → Adjacent item second :=
      fun special => (List.isChain_cons.mp orderly.adjacent).1 second (first second isSecond special)
    refine ⟨fun trails => (follows (.inl trails)).trailing trails,
      fun sign => (follows (.inr sign)).sign sign, fun isFunction => ?_⟩
    rw [notFunction] at isFunction
    cases isFunction

/-- Taking out groups and calls leaves a proper list of operands and operators, and makes proper lists. -/
theorem proper (h : Grouping number items left news) (proper : Proper registry items) :
    Proper registry left ∧ Flat left ∧ ∀ new ∈ news, Proper registry new.1 := by
  obtain ⟨flat, chain, first, news⟩ := h.orderly_parts proper.toOrderly
  have sorted := List.pairwise_map.mpr proper.sorted
  refine ⟨⟨⟨fun lexeme mem => proper.settled lexeme (h.mem_of_lexeme_mem_left mem), ?_, flat.balanced,
    chain, fun item isLast => flat.not_isFunction (List.mem_of_getLast? isLast)⟩, fun item isFirst => ?_⟩,
    flat, news⟩
  · exact List.pairwise_map.mp (sorted.sublist h.positions_sublist)
  · have same := first item isFirst
    by_contra special
    have isFirst := proper.first item (same (by simpa [or_iff_not_imp_left] using special))
    exact special isFirst

end Grouping

end Reckoner.Item
