import Mathlib
import Reckoner.Lexeme.Classify
import Reckoner.Lexeme.Tokenize

/-!
Parentheses that match. A closing parenthesis belongs to the last opening one that is still open, so what stands
between the two is balanced. The check of the parentheses keeps no more than their depth and the first place where
one was opened, and what it reports is told here in terms of the parentheses that have no match.
-/
namespace Reckoner.Lexeme

/-- No more parentheses are closed than were opened before, and in the end as many are. -/
structure Balanced (lexemes : List Lexeme) : Prop where
  order : ∀ front, front <+: lexemes → front.countP closesGroup ≤ front.countP opensGroup
  total : lexemes.countP closesGroup = lexemes.countP opensGroup

/-- A closing parenthesis right behind these lexemes has its opening one among them. -/
def HasOpening (before : List Lexeme) : Prop :=
  ∃ front opening inner, before = front ++ opening :: inner ∧ opening.opensGroup = true ∧ Balanced inner

/-- An opening parenthesis right in front of these lexemes has its closing one among them. -/
def HasClosing (after : List Lexeme) : Prop :=
  ∃ inner closing rest, after = inner ++ closing :: rest ∧ closing.closesGroup = true ∧ Balanced inner

/-- Every closing parenthesis has its opening one. -/
def AllOpened (lexemes : List Lexeme) : Prop :=
  ∀ before closing after, lexemes = before ++ closing :: after → closing.closesGroup = true → HasOpening before

/-- Every opening parenthesis has its closing one. -/
def AllClosed (lexemes : List Lexeme) : Prop :=
  ∀ before opening after, lexemes = before ++ opening :: after → opening.opensGroup = true → HasClosing after

/-- What is reported about parentheses that do not all have a match. -/
inductive Unmatched : List Lexeme → CompileError → Prop where
  /-- The first closing parenthesis that has no opening one. -/
  | order {before after : List Lexeme} {closing : Lexeme} (closes : closing.closesGroup = true)
      (opened : AllOpened before) (alone : ¬ HasOpening before) :
      Unmatched (before ++ closing :: after) (CompileError.Cause.bracketOrder.atSpan closing.span)
  /-- If there is none, the first opening parenthesis, if it has no closing one. -/
  | unclosed {before after : List Lexeme} {opening : Lexeme} (opens : opening.opensGroup = true)
      (opened : AllOpened (before ++ opening :: after)) (first : ∀ lexeme ∈ before, lexeme.opensGroup = false)
      (alone : ¬ HasClosing after) :
      Unmatched (before ++ opening :: after) (CompileError.Cause.bracketBalance.atSpan opening.span)
  /-- The same parenthesis is reported even if it has a closing one and only a later one has none. -/
  | closed {before after : List Lexeme} {opening : Lexeme} (opens : opening.opensGroup = true)
      (opened : AllOpened (before ++ opening :: after)) (first : ∀ lexeme ∈ before, lexeme.opensGroup = false)
      (closed : HasClosing after) (later : ¬ AllClosed after) :
      Unmatched (before ++ opening :: after) (CompileError.Cause.bracketBalance.atSpan opening.span)

variable {lexeme opening closing : Lexeme} {lexemes front before inner after rest : List Lexeme}

theorem not_closesGroup (opens : lexeme.opensGroup = true) : ¬ lexeme.closesGroup = true := by
  unfold opensGroup isOperatorOf at opens
  unfold closesGroup isOperatorOf
  cases occurrence : lexeme.occurrence? with
  | none => simp
  | some found =>
    rw [occurrence, Option.any_some, beq_iff_eq] at opens
    simp [opens]

theorem not_opensGroup (closes : lexeme.closesGroup = true) : ¬ lexeme.opensGroup = true :=
  fun opens => not_closesGroup opens closes

namespace Balanced

theorem nil : Balanced [] :=
  ⟨fun front begins => by simp [List.prefix_nil.mp begins], rfl⟩

theorem append (h : Balanced before) (h' : Balanced after) : Balanced (before ++ after) := by
  constructor
  · rintro front ⟨tail, same⟩
    rcases List.append_eq_append_iff.mp same with ⟨more, rfl, -⟩ | ⟨more, rfl, rfl⟩
    · exact h.order front (List.prefix_append _ _)
    · have order := h'.order more (List.prefix_append _ _)
      have total := h.total
      rw [List.countP_append, List.countP_append]
      omega
  · rw [List.countP_append, List.countP_append, h.total, h'.total]

/-- A lexeme that is no parenthesis. -/
theorem plain (opens : ¬ lexeme.opensGroup = true) (closes : ¬ lexeme.closesGroup = true) : Balanced [lexeme] := by
  constructor
  · intro front begins
    have none : front.countP closesGroup ≤ [lexeme].countP closesGroup := begins.sublist.countP_le
    rw [List.countP_singleton, if_neg closes] at none
    omega
  · rw [List.countP_singleton, List.countP_singleton, if_neg opens, if_neg closes]

/-- A pair of parentheses around what is balanced. -/
theorem enclose (opens : opening.opensGroup = true) (closes : closing.closesGroup = true) (h : Balanced inner) :
    Balanced (opening :: (inner ++ [closing])) := by
  have opened (front : List Lexeme) : (opening :: front).countP closesGroup = front.countP closesGroup ∧
      (opening :: front).countP opensGroup = front.countP opensGroup + 1 :=
    ⟨List.countP_cons_of_neg (not_closesGroup opens), List.countP_cons_of_pos opens⟩
  have total := h.total
  constructor
  · intro front begins
    rcases List.prefix_cons_iff.mp begins with rfl | ⟨more, rfl, behind⟩
    · exact Nat.le_refl _
    rw [(opened more).1, (opened more).2]
    rcases List.prefix_concat_iff.mp behind with rfl | inside
    · rw [List.countP_append, List.countP_append, List.countP_singleton, List.countP_singleton, if_pos closes,
        if_neg (not_opensGroup closes)]
      omega
    · have order := h.order more inside
      omega
  · rw [(opened _).1, (opened _).2, List.countP_append, List.countP_append, List.countP_singleton,
      List.countP_singleton, if_pos closes, if_neg (not_opensGroup closes), total]

/-- No closing parenthesis matches one in front of what is balanced. -/
theorem not_hasClosing (h : Balanced after) : ¬ HasClosing after := by
  rintro ⟨inner, closing, rest, rfl, closes, balanced⟩
  have order := h.order (inner ++ [closing]) ⟨rest, by simp⟩
  rw [List.countP_append, List.countP_append, List.countP_singleton, List.countP_singleton, if_pos closes,
    if_neg (not_opensGroup closes), balanced.total] at order
  omega

end Balanced

/-- Where more is closed than opened, a parenthesis in front is closed, too. -/
theorem hasClosing_of_lt {after : List Lexeme} (more : after.countP opensGroup < after.countP closesGroup) :
    HasClosing after := by
  cases after with
  | nil => cases more
  | cons lexeme rest =>
    by_cases closes : lexeme.closesGroup = true
    · exact ⟨[], lexeme, rest, rfl, closes, .nil⟩
    rw [List.countP_cons_of_neg closes] at more
    by_cases opens : lexeme.opensGroup = true
    · -- the first closing parenthesis behind matches this one, and behind it one matches the one in front
      rw [List.countP_cons_of_pos opens] at more
      obtain ⟨inner, closing, rest, rfl, closes, balanced⟩ := hasClosing_of_lt (Nat.lt_of_succ_lt more)
      have behind : rest.countP opensGroup < rest.countP closesGroup := by
        simp only [List.countP_append, List.countP_cons_of_pos closes,
          List.countP_cons_of_neg (not_opensGroup closes), balanced.total] at more
        omega
      obtain ⟨inner', closing', rest, rfl, closes', balanced'⟩ := hasClosing_of_lt behind
      exact ⟨lexeme :: (inner ++ [closing]) ++ inner', closing', rest, by simp, closes',
        (balanced.enclose opens closes).append balanced'⟩
    · rw [List.countP_cons_of_neg opens] at more
      obtain ⟨inner, closing, rest, rfl, closes', balanced⟩ := hasClosing_of_lt more
      exact ⟨[lexeme] ++ inner, closing, rest, rfl, closes', (Balanced.plain opens closes).append balanced⟩
termination_by after.length
decreasing_by all_goals simp_all <;> omega

/-- Where more is opened than closed, one is open for a parenthesis behind. -/
theorem hasOpening_of_lt {before : List Lexeme} (more : before.countP closesGroup < before.countP opensGroup) :
    HasOpening before := by
  rcases List.eq_nil_or_concat before with rfl | ⟨front, lexeme, rfl⟩
  · cases more
  by_cases opens : lexeme.opensGroup = true
  · exact ⟨front, lexeme, [], by simp, opens, .nil⟩
  simp only [List.concat_eq_append, List.countP_append, List.countP_singleton, if_neg opens, Nat.add_zero] at more ⊢
  by_cases closes : lexeme.closesGroup = true
  · rw [if_pos closes] at more
    obtain ⟨front, opening, inner, rfl, opens, balanced⟩ := hasOpening_of_lt (Nat.lt_of_succ_lt more)
    have ahead : front.countP closesGroup < front.countP opensGroup := by
      simp only [List.countP_append, List.countP_cons_of_pos opens,
        List.countP_cons_of_neg (not_closesGroup opens), balanced.total] at more
      omega
    obtain ⟨front, opening', inner', rfl, opens', balanced'⟩ := hasOpening_of_lt ahead
    exact ⟨front, opening', inner' ++ opening :: (inner ++ [lexeme]), by simp, opens',
      balanced'.append (balanced.enclose opens closes)⟩
  · rw [if_neg closes, Nat.add_zero] at more
    obtain ⟨front, opening, inner, rfl, opens', balanced⟩ := hasOpening_of_lt more
    exact ⟨front, opening, inner ++ [lexeme], by simp, opens', balanced.append (.plain opens closes)⟩
termination_by before.length
decreasing_by all_goals simp_all

/-- Every closing parenthesis has its opening one just if nowhere more are closed than were opened before. -/
theorem allOpened_iff :
    AllOpened lexemes ↔ ∀ front, front <+: lexemes → front.countP closesGroup ≤ front.countP opensGroup := by
  constructor
  · intro opened
    induction lexemes using List.reverseRecOn with
    | nil => exact Balanced.nil.order
    | append_singleton lexemes lexeme ih =>
      have order := ih fun before closing after split => opened before closing (after ++ [lexeme]) (by simp [split])
      intro front begins
      rcases List.prefix_concat_iff.mp begins with rfl | inside
      · have whole := order lexemes (List.prefix_refl _)
        rw [List.countP_append, List.countP_append, List.countP_singleton, List.countP_singleton]
        split
        · next closes =>
          obtain ⟨front, opening, inner, rfl, opens, balanced⟩ := opened lexemes lexeme [] rfl closes
          have ahead := order front (List.prefix_append _ _)
          rw [List.countP_append, List.countP_append, List.countP_cons_of_pos opens,
            List.countP_cons_of_neg (not_closesGroup opens), balanced.total]
          omega
        · omega
      · exact order front inside
  · rintro order before closing after rfl closes
    have here := order (before ++ [closing]) ⟨after, by simp⟩
    rw [List.countP_append, List.countP_append, List.countP_singleton, List.countP_singleton, if_pos closes,
      if_neg (not_opensGroup closes)] at here
    exact hasOpening_of_lt here

/-- Parentheses are balanced just if each of them has its match. -/
theorem balanced_iff : Balanced lexemes ↔ AllOpened lexemes ∧ AllClosed lexemes := by
  constructor
  · intro balanced
    refine ⟨allOpened_iff.mpr balanced.order, ?_⟩
    rintro before opening after rfl opens
    have ahead := balanced.order before (List.prefix_append _ _)
    have total := balanced.total
    rw [List.countP_append, List.countP_append, List.countP_cons_of_pos opens,
      List.countP_cons_of_neg (not_closesGroup opens)] at total
    exact hasClosing_of_lt (by omega)
  · rintro ⟨opened, closed⟩
    have order := allOpened_iff.mp opened
    refine ⟨order, Nat.le_antisymm (order _ (List.prefix_refl _)) (Nat.not_lt.mp fun more => ?_)⟩
    obtain ⟨front, opening, inner, rfl, opens, balanced⟩ := hasOpening_of_lt more
    exact balanced.not_hasClosing (closed front opening inner rfl opens)

/-- As long as there is one to close, the check keeps the number of parentheses that are open and the first one. -/
theorem checkBracketsFrom_append (depth : Nat) (firstOpen : Option Span)
    (order : ∀ front, front <+: before → front.countP closesGroup ≤ depth + front.countP opensGroup) :
    checkBracketsFrom depth firstOpen (before ++ after) =
      checkBracketsFrom (depth + before.countP opensGroup - before.countP closesGroup)
        (firstOpen <|> (before.find? opensGroup).map span) after := by
  induction before generalizing depth firstOpen with
  | nil => cases firstOpen <;> rfl
  | cons lexeme before ih =>
    have further (front : List Lexeme) (begins : front <+: before) :=
      order (lexeme :: front) (List.cons_prefix_cons.mpr ⟨rfl, begins⟩)
    rw [List.cons_append, checkBracketsFrom.eq_def]
    dsimp only
    split
    · next opens =>
      simp only [List.countP_cons_of_pos opens, List.countP_cons_of_neg (not_closesGroup opens)] at further ⊢
      rw [ih (depth + 1) _ fun front begins => by have := further front begins; omega,
        List.find?_cons_of_pos opens]
      congr 1
      · omega
      · cases firstOpen <;> rfl
    next opens =>
    rw [List.find?_cons_of_neg opens]
    simp only [List.countP_cons_of_neg opens] at further ⊢
    split
    · next closes =>
      simp only [List.countP_cons_of_pos closes] at further ⊢
      cases depth with
      | zero => cases further [] List.nil_prefix
      | succ depth =>
        refine (ih depth firstOpen fun front begins => by have := further front begins; omega).trans ?_
        congr 1
        omega
    · next closes =>
      simp only [List.countP_cons_of_neg closes] at further ⊢
      exact ih depth firstOpen further

private theorem checkBrackets_append (opened : AllOpened before) :
    checkBrackets (before ++ after) =
      checkBracketsFrom (before.countP opensGroup - before.countP closesGroup)
        ((before.find? opensGroup).map span) after := by
  have kept := @checkBracketsFrom_append before after 0 none fun front begins => by
    rw [Nat.zero_add]
    exact allOpened_iff.mp opened front begins
  rw [checkBrackets, kept, Nat.zero_add]
  rfl

/-- Where every closing parenthesis has its opening one, an opening one that has none is reported as the first. -/
private theorem checkBrackets_of_not_allClosed (opens : opening.opensGroup = true)
    (opened : AllOpened (before ++ opening :: after)) (first : ∀ lexeme ∈ before, lexeme.opensGroup = false)
    (alone : ¬ AllClosed (before ++ opening :: after)) :
    checkBrackets (before ++ opening :: after) =
      .error (CompileError.Cause.bracketBalance.atSpan opening.span) := by
  have found : (before ++ opening :: after).find? opensGroup = some opening := by
    rw [List.find?_append, List.find?_eq_none.mpr fun lexeme mem => by simp [first lexeme mem],
      List.find?_cons_of_pos opens, Option.none_or]
  have order := allOpened_iff.mp opened
  have total := mt (fun total => (balanced_iff.mp ⟨order, total⟩).2) alone
  have whole := order _ (List.prefix_refl _)
  have kept := @checkBrackets_append _ [] opened
  rw [List.append_nil, checkBracketsFrom, if_neg (by omega), found] at kept
  exact kept

/-- What is reported is what the check stops with. -/
theorem checkBrackets_of_unmatched {error : CompileError} (h : Unmatched lexemes error) :
    checkBrackets lexemes = .error error := by
  cases h with
  | @order before after closing closes opened alone =>
    rw [checkBrackets_append opened, Nat.sub_eq_zero_of_le (Nat.not_lt.mp (mt hasOpening_of_lt alone)),
      checkBracketsFrom, if_neg (not_opensGroup closes), if_pos closes]
  | @unclosed before after opening opens opened first alone =>
    refine checkBrackets_of_not_allClosed opens opened first fun closed => ?_
    exact alone (closed before opening after rfl opens)
  | @closed before after opening opens opened first _ later =>
    refine checkBrackets_of_not_allClosed opens opened first fun closed => later fun front other rest split => ?_
    exact closed (before ++ opening :: front) other rest (by simp [split])

theorem checkBrackets_of_balanced (h : Balanced lexemes) : checkBrackets lexemes = .ok () := by
  have kept := @checkBrackets_append lexemes [] (allOpened_iff.mpr h.order)
  rwa [List.append_nil, h.total, Nat.sub_self, checkBracketsFrom, if_pos rfl] at kept

theorem AllOpened.concat (h : AllOpened lexemes) (opened : lexeme.closesGroup = true → HasOpening lexemes) :
    AllOpened (lexemes ++ [lexeme]) := by
  intro before closing after split closes
  rcases List.eq_nil_or_concat after with rfl | ⟨after, last, rfl⟩
  · obtain ⟨rfl, same⟩ := List.append_inj' split rfl
    cases same
    exact opened closes
  · rw [List.concat_eq_append, ← List.cons_append, ← List.append_assoc] at split
    exact h before closing after (List.append_inj' split rfl).1 closes

theorem AllClosed.extend (h : AllClosed after) (first : ∀ lexeme ∈ before, lexeme.opensGroup = false)
    (closed : HasClosing after) : AllClosed (before ++ opening :: after) := by
  intro front other rest split opens
  rcases List.append_eq_append_iff.mp split with ⟨more, rfl, later⟩ | ⟨more, rfl, later⟩
  · cases more with
    | nil =>
      cases later
      exact closed
    | cons _ more =>
      cases later
      exact h more other rest rfl opens
  · cases more with
    | nil =>
      cases later
      exact closed
    | cons _ more =>
      cases later
      cases opens.symm.trans (first other (by simp))

/-- The first closing parenthesis that has no opening one. -/
private theorem exists_order (h : ¬ AllOpened lexemes) : ∃ before closing after,
    lexemes = before ++ closing :: after ∧ closing.closesGroup = true ∧ AllOpened before ∧ ¬ HasOpening before := by
  induction lexemes using List.reverseRecOn with
  | nil => exact absurd (allOpened_iff.mpr Balanced.nil.order) h
  | append_singleton lexemes lexeme ih =>
    by_cases opened : AllOpened lexemes
    · refine ⟨lexemes, lexeme, [], rfl, ?_, opened, fun here => h (opened.concat fun _ => here)⟩
      by_contra plain
      exact h (opened.concat fun closes => absurd closes plain)
    · obtain ⟨before, closing, after, rfl, closes, opened, alone⟩ := ih opened
      exact ⟨before, closing, after ++ [lexeme], by simp, closes, opened, alone⟩

/-- Either all parentheses have their matches, or one is reported. -/
theorem balanced_or_unmatched (lexemes : List Lexeme) : Balanced lexemes ∨ ∃ error, Unmatched lexemes error := by
  by_cases opened : AllOpened lexemes
  · by_cases closed : AllClosed lexemes
    · exact .inl (balanced_iff.mpr ⟨opened, closed⟩)
    right
    cases found : lexemes.find? opensGroup with
    | none =>
      refine absurd (fun before opening after split opens => ?_) closed
      have none := List.find?_eq_none.mp found opening (by simp [split])
      exact absurd opens none
    | some opening =>
      obtain ⟨opens, before, after, rfl, first⟩ := List.find?_eq_some_iff_append.mp found
      have first : ∀ lexeme ∈ before, lexeme.opensGroup = false := fun lexeme mem => by simpa using first lexeme mem
      by_cases here : HasClosing after
      · exact ⟨_, .closed opens opened first here fun later => closed (later.extend first here)⟩
      · exact ⟨_, .unclosed opens opened first here⟩
  · obtain ⟨before, closing, after, rfl, closes, opened, alone⟩ := exists_order opened
    exact .inr ⟨_, .order closes opened alone⟩

theorem checkBrackets_ok_iff : checkBrackets lexemes = .ok () ↔ Balanced lexemes := by
  refine ⟨fun passed => ?_, checkBrackets_of_balanced⟩
  rcases balanced_or_unmatched lexemes with balanced | ⟨error, unmatched⟩
  · exact balanced
  · cases passed.symm.trans (checkBrackets_of_unmatched unmatched)

/-- The check of the parentheses goes through just if they are balanced, and otherwise stops with what is reported
about those that have no match. -/
theorem checkBrackets_exact (lexemes : List Lexeme) :
    (checkBrackets lexemes = .ok () ↔ Balanced lexemes) ∧
      ∀ error, checkBrackets lexemes = .error error ↔ Unmatched lexemes error := by
  refine ⟨checkBrackets_ok_iff, fun error => ⟨fun failed => ?_, checkBrackets_of_unmatched⟩⟩
  rcases balanced_or_unmatched lexemes with balanced | ⟨other, unmatched⟩
  · cases failed.symm.trans (checkBrackets_of_balanced balanced)
  · cases failed.symm.trans (checkBrackets_of_unmatched unmatched)
    exact unmatched

/-- The parenthesis that is reported can be one that has its closing one. -/
theorem matched_parenthesis_reported :
    ∃ lexemes error, tokenize "(1) + (2" = .ok lexemes ∧ checkBrackets lexemes = .error error ∧
      error.cause = .bracketBalance ∧ ∀ before opening after, lexemes = before ++ opening :: after →
        opening.opensGroup = true → opening.span = error.span → HasClosing after := by
  refine ⟨_, CompileError.Cause.bracketBalance.atSpan ⟨0, 1⟩, by cbv, by cbv, rfl, ?_⟩
  intro before opening after split _ here
  cases before with
  | nil =>
    cases split
    exact ⟨[_], _, _, rfl, rfl, .plain (by decide) (by decide)⟩
  | cons _ before =>
    -- no other lexeme has this place
    have later : opening ∈ before ++ opening :: after := List.mem_append_right before List.mem_cons_self
    rw [List.cons_append] at split
    rw [← (List.cons.inj split).2] at later
    simp only [List.mem_cons, List.not_mem_nil, or_false] at later
    rcases later with rfl | rfl | rfl | rfl | rfl <;> cases here

end Reckoner.Lexeme
