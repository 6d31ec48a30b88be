import Reckoner.Proofs.Builder.Meaning
import Reckoner.Proofs.Builder.Tightness
import Reckoner.Proofs.Grammar.Contraction

/-!
Taking operators out of a list changes nothing about what is read in it. An operator is only taken out with
operands that no operator beside them binds more tightly. A list that does not take turns means nothing, and
what is left of it does not take turns either.
-/
namespace Reckoner

open Item

/-- A division that keeps what the list means, and after which all lists can be from a classified source. -/
structure Faithful (registry : Registry) (number : Nat) (items left : List Item)
    (news : List (List Item × Span)) : Prop extends Division number items left news where
  proper_left : Proper registry left
  proper_news : ∀ new ∈ news, Proper registry new.1
  read_eq : ∀ meaning, Explains meaning number news → read meaning left = read meaning items

namespace Faithful

variable {registry : Registry} {number : Nat} {items middle left : List Item}
  {first second : List (List Item × Span)}

theorem refl (number : Nat) (proper : Proper registry items) : Faithful registry number items items [] :=
  ⟨.refl _ _, proper, by simp, fun _ _ => rfl⟩

theorem trans (one : Faithful registry number items middle first)
    (two : Faithful registry (number + first.length) middle left second) :
    Faithful registry number items left (first ++ second) := by
  refine ⟨one.toDivision.trans two.toDivision, two.proper_left, fun new mem => ?_,
    fun meaning explains => ?_⟩
  · rcases List.mem_append.mp mem with mem | mem
    · exact one.proper_news new mem
    · exact two.proper_news new mem
  · obtain ⟨explains, later⟩ := explains_append.mp explains
    rw [two.read_eq meaning later, one.read_eq meaning explains]

end Faithful

/-- Grouping keeps what a list means. -/
theorem Item.Grouping.faithful {registry : Registry} {number : Nat} {items left : List Item}
    {news : List (List Item × Span)} (h : Grouping number items left news)
    (proper : Proper registry items) : Faithful registry number items left news := by
  obtain ⟨properLeft, flat, properNews⟩ := h.proper proper
  exact ⟨h.division, properLeft, properNews, fun meaning explains => h.read_eq flat explains⟩

namespace Item

variable {meaning : ListId → Option Term} {op group : Item} {occurrence : Occurrence} {fixity : Fixity}
  {before after first run last : List Item}

theorem read_eq_none_of_unknown {items : List Item} {item : Item} (mem : item ∈ items)
    (unknown : item.token meaning = .unknown) : read meaning items = none :=
  Machine.run_eq_none_of_unknown (unknown ▸ List.mem_map_of_mem mem) _

/-- An operator in front of a place is one that the items in front of it end with. -/
private theorem exists_of_getLast?_tokens {items : List Item} {other : Occurrence}
    (isLast : (items.map (token meaning)).getLast? = some (.operator other)) :
    ∃ item ∈ items.getLast?, item.isOperator = true ∧ item.occurrence? = some other := by
  rw [List.getLast?_map] at isLast
  obtain ⟨item, isLast, same⟩ := Option.map_eq_some_iff.mp isLast
  exact ⟨item, isLast, token_eq_operator.mp same⟩

private theorem exists_of_head?_tokens {items : List Item} {other : Occurrence}
    (isFirst : (items.map (token meaning)).head? = some (.operator other)) :
    ∃ item ∈ items.head?, item.isOperator = true ∧ item.occurrence? = some other := by
  rw [List.head?_map] at isFirst
  obtain ⟨item, isFirst, same⟩ := Option.map_eq_some_iff.mp isFirst
  exact ⟨item, isFirst, token_eq_operator.mp same⟩

/-- What stands for a list that means nothing means nothing, and neither does the list where it stood. -/
private theorem read_eq_of_unknown {item : Item} (mem : item ∈ run) (unknown : item.token meaning = .unknown)
    (means : group.token meaning = (read meaning run).elim .unknown .operand) :
    read meaning (first ++ group :: last) = read meaning (first ++ run ++ last) := by
  rw [read_eq_none_of_unknown mem unknown] at means
  rw [read_eq_none_of_unknown (show group ∈ first ++ group :: last by simp) means,
    read_eq_none_of_unknown (show item ∈ first ++ run ++ last by simp [mem]) unknown]

/-- What stands for a list that means a term is the term. -/
private theorem read_eq_of_known {term : Term} (isTerm : read meaning run = some term)
    (means : group.token meaning = (read meaning run).elim .unknown .operand) :
    read meaning (first ++ group :: last) =
      (Machine.before []).run (first.map (token meaning) ++ .operand term :: last.map (token meaning)) := by
  rw [isTerm] at means
  rw [read, List.map_append, List.map_cons, means]
  rfl

/-- An operator with its operands is read as one operand. -/
theorem Takes.read_eq (takes : Takes op fixity before after first run last)
    (isOperator : op.isOperator = true) (named : op.occurrence? = some occurrence)
    (settled : occurrence.Settled) (stands : occurrence.Stands fixity)
    (tight : ∀ item ∈ first.getLast?, ∀ other, item.isOperator = true → item.occurrence? = some other →
      fixity ≠ .leading → other.rightLevel ≤ occurrence.precedence)
    (stops : ∀ item ∈ last.head?, ∀ other, item.isOperator = true → item.occurrence? = some other →
      fixity ≠ .trailing → other.form.trailing = true ∨ other.form.binary = true →
      other.precedence < occurrence.rightLevel)
    (means : group.token meaning = (read meaning run).elim .unknown .operand) :
    read meaning (first ++ group :: last) = read meaning (before ++ op :: after) := by
  have here : op.token meaning = .operator occurrence := token_eq_operator.mpr ⟨isOperator, named⟩
  have left : ∀ other, (first.map (token meaning)).getLast? = some (.operator other) →
      fixity ≠ .leading → other.rightLevel ≤ occurrence.precedence := by
    intro other isLast
    obtain ⟨item, isLast, isOperator, named⟩ := exists_of_getLast?_tokens isLast
    exact tight item isLast other isOperator named
  have stops : fixity ≠ .trailing → Machine.Stops occurrence.rightLevel (last.map (token meaning)) := by
    intro notTrailing other isFirst
    obtain ⟨item, isFirst, isOperator, named⟩ := exists_of_head?_tokens isFirst
    exact stops item isFirst other isOperator named notTrailing
  rw [takes.whole_eq]
  cases takes with
  | binary _ l r _ isLeft isRight =>
    cases stands with
    | binary between notTrailing =>
    rcases @token_of_isEvaluable meaning l isLeft with isUnknown | ⟨x, isX⟩
    · exact read_eq_of_unknown (show l ∈ _ by simp) isUnknown means
    rcases @token_of_isEvaluable meaning r isRight with isUnknown | ⟨y, isY⟩
    · exact read_eq_of_unknown (show r ∈ _ by simp) isUnknown means
    have alone := Machine.run_binary_alone between notTrailing x y
    rw [read_eq_of_known (by simpa [read, isX, here, isY] using alone) means]
    have whole := Machine.run_binary between notTrailing (fun other isLast => left other isLast (by simp))
      (stops (by simp)) x y
    simpa [read, isX, here, isY] using whole.symm
  | leading _ r _ isRight =>
    cases stands with
    | leading notBinary leads notTrailing high =>
    rcases @token_of_isEvaluable meaning r isRight with isUnknown | ⟨y, isY⟩
    · exact read_eq_of_unknown (show r ∈ _ by simp) isUnknown means
    have level := settled.rightLevel_eq high
    have alone := Machine.run_leading_alone leads notTrailing notBinary y
    rw [read_eq_of_known (by simpa [read, here, isY] using alone) means]
    have whole := @Machine.run_leading (before.map (token meaning)) _ occurrence leads notTrailing
      notBinary (level ▸ stops (by simp)) y
    simpa [read, here, isY] using whole.symm
  | trailing _ l _ isLeft =>
    cases stands with
    | trailing _ _ trails =>
    rcases @token_of_isEvaluable meaning l isLeft with isUnknown | ⟨x, isX⟩
    · exact read_eq_of_unknown (show l ∈ _ by simp) isUnknown means
    have alone := Machine.run_trailing_alone trails x
    rw [read_eq_of_known (by simpa [read, isX, here] using alone) means]
    have whole := @Machine.run_trailing _ (after.map (token meaning)) occurrence trails
      (fun other isLast => left other isLast (by simp)) x
    simpa [read, isX, here] using whole.symm

end Item

namespace Builder

variable {registry : Registry} {start : List Item} {done : List Rank} {rank : Rank} {todo : List Rank}
  {state : Cutting}

namespace Turn

variable {op : Item} {occurrence : Occurrence} {before after : List Item}

/-- An operator to the left that stays to be visited does not bind the operand between more tightly. -/
theorem rightLevel_le (h : Turn registry start done rank todo state op occurrence before after)
    {item : Item} (mem : item ∈ before) (pending : Pending (rank :: todo) item) {other : Occurrence}
    (named : item.occurrence? = some other) : other.rightLevel ≤ occurrence.precedence := by
  have place := h.apart.1 item mem
  have settled : other.Settled :=
    settled_of_occurrence? h.kept.proper.settled (by simp [h.whole, mem]) named
  have grouped := settled.associativity_eq
  rcases h.later pending named with looser | ⟨same, left, -⟩
  · have := other.rightLevel_le_succ
    omega
  · rw [← same, ← h.settled.associativity_eq] at grouped
    rw [Occurrence.rightLevel, grouped, same]
    cases side : occurrence.associativity with
    | left =>
      have := left side
      omega
    | right => exact Nat.le_refl _

/-- Nor does one to the right. -/
theorem lt_rightLevel (h : Turn registry start done rank todo state op occurrence before after)
    {item : Item} (mem : item ∈ after) (pending : Pending (rank :: todo) item) {other : Occurrence}
    (named : item.occurrence? = some other) : other.precedence < occurrence.rightLevel := by
  have place := h.apart.2 item mem
  rcases h.later pending named with looser | ⟨same, -, right⟩
  · exact Nat.lt_of_lt_of_le looser occurrence.precedence_le_rightLevel
  · unfold Occurrence.rightLevel
    cases side : occurrence.associativity with
    | left => exact Nat.lt_succ_of_le (Nat.le_of_eq same.symm)
    | right =>
      have := right side
      omega

/-- The operator in front of what is taken out leaves it its first operand. -/
private theorem rightLevel_le_front (h : Turn registry start done rank todo state op occurrence before after)
    (tight : Tight (rank :: todo) state) {fixity : Fixity} {first run last : List Item}
    (stands : occurrence.Stands fixity)
    (free : fixity = .binary → state.blocked.any (occurrence.precedence < ·) = false)
    (takes : Takes op fixity before after first run last) {item : Item} (isLast : item ∈ first.getLast?)
    {other : Occurrence} (isOperator : item.isOperator = true) (named : item.occurrence? = some other)
    (notLeading : fixity ≠ .leading) : other.rightLevel ≤ occurrence.precedence := by
  have inItems : item ∈ before → item ∈ state.items := fun mem => by simp [h.whole, mem]
  cases takes with
  | binary _ l =>
    have mem : item ∈ first ++ [l] := List.mem_append_left _ (List.mem_of_getLast? isLast)
    have free := tight.blocked_eq_none stands (free rfl)
    exact h.rightLevel_le mem (h.kept.free free item (inItems mem) isOperator) named
  | leading => exact absurd rfl notLeading
  | trailing _ operand _ evaluable =>
    obtain ⟨front, rfl⟩ := List.getLast?_eq_some_iff.mp isLast
    have mem : item ∈ front ++ [item] ++ [operand] := by simp
    cases stands with
    | trailing _ _ trails precedence =>
    by_cases cast : item.isCast = true
    · refine h.rightLevel_le mem (tight.casts front item operand (op :: after) ?_ cast evaluable ?_) named
      · rw [h.whole]
        simp
      · exact ⟨op, rfl, by simp [Item.trails, h.isOperator, h.named, trails]⟩
    · -- Only a cast binds more tightly than what trails.
      simp only [Item.isCast, isOperator, named, Bool.true_and, Option.any_some, beq_iff_eq] at cast
      obtain ⟨own, stands'⟩ := Item.exists_stands h.kept.proper.settled (inItems mem) isOperator named
      have settled := settled_of_occurrence? h.kept.proper.settled (inItems mem) named
      cases stands' with
      | binary _ _ low =>
        have := other.rightLevel_le_succ
        omega
      | leading _ _ _ least =>
        rw [settled.rightLevel_eq least]
        omega
      | trailing _ _ _ same =>
        rw [settled.rightLevel_eq (Nat.le_of_eq same.symm)]
        omega

/-- The operator behind what is taken out leaves it its last operand. -/
private theorem lt_rightLevel_back (h : Turn registry start done rank todo state op occurrence before after)
    (tight : Tight (rank :: todo) state) {fixity : Fixity} {first run last : List Item}
    (stands : occurrence.Stands fixity)
    (free : fixity = .binary → state.blocked.any (occurrence.precedence < ·) = false)
    (takes : Takes op fixity before after first run last) {item : Item} (isFirst : item ∈ last.head?)
    {other : Occurrence} (isOperator : item.isOperator = true) (named : item.occurrence? = some other)
    (notTrailing : fixity ≠ .trailing) (follows : other.form.trailing = true ∨ other.form.binary = true) :
    other.precedence < occurrence.rightLevel := by
  have inItems : item ∈ after → item ∈ state.items := fun mem => by simp [h.whole, mem]
  cases takes with
  | binary _ l r =>
    have mem : item ∈ r :: last := List.mem_cons_of_mem _ (List.mem_of_mem_head? isFirst)
    have free := tight.blocked_eq_none stands (free rfl)
    exact h.lt_rightLevel mem (h.kept.free free item (inItems mem) isOperator) named
  | leading _ operand =>
    have mem : item ∈ operand :: last := List.mem_cons_of_mem _ (List.mem_of_mem_head? isFirst)
    by_cases trails : other.form.trailing = true
    · refine h.lt_rightLevel mem (h.kept.trailing item (inItems mem) ?_) named
      simp [Item.trails, isOperator, named, trails]
    · have between := follows.resolve_left trails
      obtain ⟨own, stands'⟩ := Item.exists_stands h.kept.proper.settled (inItems mem) isOperator named
      cases stands' with
      | binary _ _ low =>
        cases stands with
        | leading _ _ _ high =>
          have := occurrence.precedence_le_rightLevel
          omega
      | leading notBinary | trailing notBinary => simp [between] at notBinary
  | trailing => exact absurd rfl notTrailing

/-- Taking an operator out of a list that takes turns keeps what the list means. -/
theorem read_eq (h : Turn registry start done rank todo state op occurrence before after)
    (tight : Tight (rank :: todo) state) {fixity : Fixity} {first run last : List Item}
    (stands : occurrence.Stands fixity)
    (free : fixity = .binary → state.blocked.any (occurrence.precedence < ·) = false)
    (takes : Takes op fixity before after first run last) {meaning : ListId → Option Term} {group : Item}
    (means : group.token meaning = (read meaning run).elim .unknown .operand) :
    read meaning (first ++ group :: last) = read meaning (before ++ op :: after) := by
  refine takes.read_eq h.isOperator h.named h.settled stands ?_ ?_ means
  · intro item isLast other isOperator named
    exact h.rightLevel_le_front tight stands free takes isLast isOperator named
  · intro item isFirst other isOperator named
    exact h.lt_rightLevel_back tight stands free takes isFirst isOperator named

end Turn

/-- A visit changes nothing about what a list means, nor about whether it takes turns. -/
theorem Kept.cut_faithful (h : Kept registry start (rank :: todo) state)
    (tight : Alternates state.items → Tight (rank :: todo) state) (proper : Proper registry start)
    (ranks : ranksOf start = done ++ rank :: todo) :
    ∃ news, (state.cut rank.position).builder = state.builder.append news ∧
      Faithful registry state.builder.lists.size state.items (state.cut rank.position).items news ∧
      (Alternates (state.cut rank.position).items ↔ Alternates state.items) := by
  have same := Faithful.refl state.builder.lists.size h.proper
  rcases h.cut_cases proper ranks with ⟨unchanged, -⟩ | ⟨op, occurrence, before, after, turn, visit⟩
  · rw [unchanged]
    exact ⟨[], rfl, same, Iff.rfl⟩
  have whole := turn.whole
  have flat := h.flat
  have proper := h.proper
  generalize state.cut rank.position = next at visit ⊢
  cases visit with
  | deferred => exact ⟨[], rfl, same, Iff.rfl⟩
  | blocked => exact ⟨[], rfl, same, Iff.rfl⟩
  | @taken fixity text first run last allowed free takes =>
    have stands := turn.stands allowed
    let group : Item := .group state.builder.lists.size text (Item.spanOf run) op.position
    have alternates : Alternates (first ++ group :: last) ↔ Alternates state.items := by
      rw [whole]
      exact takes.alternates_iff turn.isOperator turn.named stands rfl
    rw [whole] at flat proper
    obtain ⟨properRest, flatRest⟩ :=
      takes.proper_rest proper flat state.builder.lists.size text (Item.spanOf run)
    refine ⟨[(run, Item.spanOf run)], rfl, ⟨?_, properRest, ?_, fun meaning explains => ?_⟩, alternates⟩
    · rw [whole]
      exact takes.division ..
    · intro new mem
      rw [List.mem_singleton.mp mem]
      exact takes.proper_run proper flat turn.named stands
    · have means : group.token meaning = (read meaning run).elim .unknown .operand := by
        rw [← (explains_cons.mp explains).1]
        rfl
      rw [whole]
      by_cases turns : Alternates state.items
      · exact turn.read_eq (tight turns) stands free takes means
      · rw [read_eq_none flatRest (turns ∘ alternates.mp), read_eq_none flat (whole ▸ turns)]

/-- Nor do the visits of all operators. -/
theorem Kept.cutAll_faithful (h : Kept registry start todo state)
    (tight : Alternates state.items → Tight todo state) (proper : Proper registry start)
    (ranks : ranksOf start = done ++ todo) :
    ∃ news, (state.cutAll todo).builder = state.builder.append news ∧
      Faithful registry state.builder.lists.size state.items (state.cutAll todo).items news ∧
      Kept registry start [] (state.cutAll todo) ∧
      (Alternates state.items → Alternates (state.cutAll todo).items ∧ Tight [] (state.cutAll todo)) := by
  induction todo generalizing done state with
  | nil => exact ⟨[], rfl, .refl _ h.proper, h, fun turns => ⟨turns, tight turns⟩⟩
  | cons rank todo ih =>
    obtain ⟨first, made, one, alternates⟩ := h.cut_faithful tight proper ranks
    obtain ⟨second, made', two, kept, rest⟩ := @ih (done ++ [rank]) (state.cut rank.position)
      (h.cut proper ranks)
      (fun turns => (tight (alternates.mp turns)).cut h proper ranks (alternates.mp turns))
      (by simpa using ranks)
    rw [made, size_append] at two
    refine ⟨first ++ second, ?_, one.trans two, kept, fun turns => rest (alternates.mpr turns)⟩
    rw [append_append, ← made]
    exact made'

/-- Taking the operators out of a proper list keeps what it means, and some operator is taken out if there
is one and the list takes turns. -/
theorem Cutting.begin_faithful (builder : Builder) {items : List Item} (proper : Proper registry items)
    (flat : Flat items) :
    ∃ news, ((begin builder items).cutAll (ranksOf items)).builder = builder.append news ∧
      Faithful registry builder.lists.size items ((begin builder items).cutAll (ranksOf items)).items
        news ∧
      (Alternates items → (∃ item ∈ items, item.isOperator = true) →
        ((begin builder items).cutAll (ranksOf items)).count ≠ 0) := by
  obtain ⟨news, made, faithful, kept, tight⟩ := @Kept.cutAll_faithful registry items [] (ranksOf items) _
    (.begin builder proper flat) (fun _ => .begin builder items) proper rfl
  refine ⟨news, made, faithful, ?_⟩
  rintro alternates ⟨op, mem, isOperator⟩
  obtain ⟨alternates, tight⟩ := tight alternates
  exact tight.count_ne_zero kept alternates mem isOperator

/-- A proper list without groups has only operands and operators. -/
theorem flat_of_not_hasGroups {items : List Item} (proper : Proper registry items)
    (noGroups : hasGroups items = false) : Flat items := by
  have plain : ∀ item ∈ items,
      item.opensGroup = false ∧ item.closesGroup = false ∧ item.isComma = false := by
    intro item mem
    have := List.any_eq_false.mp noGroups item mem
    simpa [not_or, and_assoc] using this
  intro item mem
  obtain ⟨notOpening, notClosing, notComma⟩ := plain item mem
  refine evaluable_or_operator (fun lexeme same => proper.settled lexeme (same ▸ mem)) notOpening
    notClosing notComma ?_
  obtain ⟨before, after, rfl⟩ := List.append_of_mem mem
  refine proper.not_isFunction fun _ => ?_
  cases after with
  | nil => rfl
  | cons second after => exact (plain second (by simp)).1

private theorem Reduced.faithful {builder after : Builder} {list : Nat}
    (h : Reduced builder list .progress after) (proper : Proper registry (builder.itemsOf list))
    (flat : Flat (builder.itemsOf list)) :
    ∃ left news, Faithful registry builder.lists.size (builder.itemsOf list) left news ∧
      after = (builder.append news).setItems list left := by
  cases h with
  | @cut cutting _ run =>
    obtain ⟨news, made, faithful, -⟩ := Cutting.begin_faithful builder proper flat
    rw [run] at made faithful
    exact ⟨cutting.items, news, faithful, by rw [made]⟩

/-- A pass that makes progress keeps what the list means. -/
theorem Processed.faithful {builder after : Builder} {list : Nat}
    (h : Processed builder list .progress after) (bound : list < builder.lists.size)
    (proper : Proper registry (builder.itemsOf list)) :
    ∃ left news, Faithful registry builder.lists.size (builder.itemsOf list) left news ∧
      after = (builder.append news).setItems list left := by
  refine h.divides (P := fun items => Proper registry items ∧ Flat items) .trans
    (fun noGroups => ⟨proper, flat_of_not_hasGroups proper noGroups⟩) (fun grouping => ?_)
    (fun reduced ready => reduced.faithful ready.1 ready.2) bound
  have faithful := grouping.faithful proper
  exact ⟨faithful, faithful.proper_left, (grouping.proper proper).2.1⟩

end Builder

end Reckoner
