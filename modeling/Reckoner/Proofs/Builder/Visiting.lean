import Mathlib.Data.List.Nodup
import Reckoner.Proofs.Builder.Ranking

/-!
What holds whenever an operator is visited. A trailing operator has its operand from the start, so that it
is there only until it is visited, and as long as no operator was left, all those that are still there have
not been visited. It follows that an operator is only ever taken in the form in which it stands.
-/
namespace Reckoner

/-- An operator is taken in the form in which it stands, apart from a sign without an operand before it. -/
theorem Occurrence.Stands.fixity_eq {occurrence : Occurrence} {fixity : Fixity}
    (stands : occurrence.Stands fixity) {before after : Bool} {other : Fixity}
    (h : occurrence.fixityBetween before after = some other) :
    other = fixity ∨
      before = false ∧ occurrence.form.binary = true ∧ occurrence.form.leading = true := by
  unfold Occurrence.fixityBetween at h
  cases stands with
  | binary between notTrailing =>
    rw [between, notTrailing] at h
    cases before <;> cases leads : occurrence.form.leading <;> cases after <;> simp_all
  | leading notBinary leads notTrailing =>
    rw [notBinary, leads, notTrailing] at h
    cases before <;> cases after <;> simp_all
  | trailing notBinary notLeading trails =>
    rw [notBinary, notLeading, trails] at h
    cases before <;> cases after <;> simp_all

/-- A trailing operator takes what is before it. -/
theorem Occurrence.Stands.fixityBetween_trailing {occurrence : Occurrence}
    (stands : occurrence.Stands .trailing) (after : Bool) :
    occurrence.fixityBetween true after = some .trailing := by
  cases stands with
  | trailing notBinary notLeading trails =>
    simp [Occurrence.fixityBetween, notBinary, notLeading, trails]

namespace Item

variable {registry : Registry} {items : List Item}

theorem Proper.part {first run last : List Item} (h : Proper registry (first ++ run ++ last))
    (flat : Flat (first ++ run ++ last))
    (begins : ∀ item ∈ run.head?, item.trails = false ∧ item.isSign = false) : Proper registry run := by
  have flatRun : Flat run := fun item mem => flat item (by simp [mem])
  refine ⟨⟨fun lexeme mem => h.settled lexeme (by simp [mem]), ?_, flatRun.balanced, ?_, ?_⟩, begins⟩
  · exact (List.pairwise_append.mp (List.pairwise_append.mp h.sorted).1).2.1
  · exact h.adjacent.left_of_append.right_of_append
  · exact fun item isLast => flatRun.not_isFunction (List.mem_of_getLast? isLast)

theorem not_trails_of_isEvaluable {item : Item} (h : item.isEvaluable = true) :
    item.isOperator = false ∧ item.trails = false ∧ item.isSign = false := by
  have notOperator : item.isOperator = false := by
    by_contra isOperator
    have := not_isEvaluable_of_isOperator (by simpa using isOperator)
    rw [h] at this
    cases this
  simp [trails, isSign, notOperator]

variable {op : Item} {fixity : Fixity} {before after first run last : List Item}

/-- Taking an operator out with its operands leaves a proper list. -/
theorem Takes.proper_rest (h : Takes op fixity before after first run last)
    (proper : Proper registry (before ++ op :: after)) (flat : Flat (before ++ op :: after))
    (number : ListId) (text : String) (span : Span) :
    Proper registry (first ++ .group number text span op.position :: last) ∧
      Flat (first ++ .group number text span op.position :: last) := by
  have inRun : op ∈ run := by cases h <;> simp
  rw [h.whole_eq] at proper flat
  have flat' : Flat (first ++ .group number text span op.position :: last) := by
    intro item mem
    rcases List.mem_append.mp mem with mem | mem
    · exact flat item (by simp [mem])
    rcases List.mem_cons.mp mem with rfl | mem
    · exact .inl rfl
    · exact flat item (by simp [mem])
  refine ⟨⟨⟨fun lexeme mem => proper.settled lexeme ?_, ?_, flat'.balanced, ?_, fun item isLast =>
    flat'.not_isFunction (List.mem_of_getLast? isLast)⟩, fun item isFirst => ?_⟩, flat'⟩
  · simp only [List.mem_append, List.mem_cons, reduceCtorEq, false_or] at mem ⊢
    tauto
  · refine List.pairwise_map.mp ((List.pairwise_map.mpr proper.sorted).sublist ?_)
    have middle : [op.position].Sublist (run.map position) :=
      List.singleton_sublist.mpr (List.mem_map_of_mem inRun)
    simp only [List.map_append, List.append_assoc]
    exact (List.Sublist.refl _).append (middle.append (.refl _))
  · refine List.isChain_append.mpr ⟨proper.adjacent.left_of_append.left_of_append, ?_, ?_⟩
    · exact proper.adjacent.right_of_append.cons fun _ _ => ⟨fun _ => rfl, fun _ => .inl rfl, by rintro ⟨⟩⟩
    · intro item isLast group isGroup
      obtain rfl : _ = group := by simpa using isGroup
      refine ⟨by rintro ⟨⟩, by rintro ⟨⟩, fun isFunction => ?_⟩
      rw [flat.not_isFunction (by simp [List.mem_of_getLast? isLast])] at isFunction
      cases isFunction
  · cases first with
    | nil =>
      obtain rfl : _ = item := by simpa using isFirst
      exact ⟨rfl, rfl⟩
    | cons => exact proper.first item (by simpa using isFirst)

/-- What is taken out is a proper list, too. -/
theorem Takes.proper_run (h : Takes op fixity before after first run last)
    (proper : Proper registry (before ++ op :: after)) (flat : Flat (before ++ op :: after))
    {occurrence : Occurrence} (named : op.occurrence? = some occurrence)
    (stands : occurrence.Stands fixity) : Proper registry run := by
  rw [h.whole_eq] at proper flat
  refine proper.part flat fun item isFirst => ?_
  cases h with
  | binary _ _ _ _ isLeft _ | trailing _ _ _ isLeft =>
    cases isFirst
    exact (not_trails_of_isEvaluable isLeft).2
  | leading =>
    cases isFirst
    cases stands with
    | leading notBinary _ notTrailing => simp [trails, isSign, named, notBinary, notTrailing]

end Item

open Item

namespace Builder

/-- The operator has not been visited. -/
def Pending (todo : List Rank) (item : Item) : Prop :=
  ∃ rank ∈ todo, Rank.of? item = some rank

/-- What is left of a list when the operators of some ranks still have to be visited. -/
structure Kept (registry : Registry) (start : List Item) (todo : List Rank) (state : Cutting) :
    Prop where
  proper : Proper registry state.items
  flat : Flat state.items
  operators : ∀ item ∈ state.items, item.isOperator = true → item ∈ start
  trailing : ∀ item ∈ state.items, item.trails = true → Pending todo item
  free : state.blocked = none → ∀ item ∈ state.items, item.isOperator = true → Pending todo item
  untouched : state.count = 0 → state.items = start

/-- An operator at its turn, with what is left of the list before and after it. -/
structure Turn (registry : Registry) (start : List Item) (done : List Rank) (rank : Rank)
    (todo : List Rank) (state : Cutting) (op : Item) (occurrence : Occurrence)
    (before after : List Item) : Prop where
  kept : Kept registry start (rank :: todo) state
  ranks : ranksOf start = done ++ rank :: todo
  sorted : (done ++ rank :: todo).Pairwise fun a b => a.notAfter b = true
  whole : state.items = before ++ op :: after
  isOperator : op.isOperator = true
  named : op.occurrence? = some occurrence
  rank_eq : rank = ⟨occurrence.precedence, occurrence.associativity, op.position⟩

variable {registry : Registry} {start : List Item} {done : List Rank} {rank : Rank} {todo : List Rank}
  {state : Cutting}

theorem rank_of_isOperator {item : Item} (isOperator : item.isOperator = true) {occurrence : Occurrence}
    (named : item.occurrence? = some occurrence) :
    Rank.of? item = some ⟨occurrence.precedence, occurrence.associativity, item.position⟩ := by
  rw [Rank.of?, if_pos isOperator, named]
  rfl

/-- An operator whose turn is not now stays to be visited. -/
theorem Pending.tail {item : Item} (h : Pending (rank :: todo) item)
    (other : item.position ≠ rank.position) : Pending todo item := by
  obtain ⟨own, mem, found⟩ := h
  refine ⟨own, (List.mem_cons.mp mem).resolve_left ?_, found⟩
  rintro rfl
  obtain ⟨-, occurrence, -, rfl⟩ := rank_of? found
  exact other rfl

theorem Rank.notAfter_cases {a b : Rank} (h : a.notAfter b = true) :
    b.precedence < a.precedence ∨ a.precedence = b.precedence ∧
      (a.associativity = .left → a.position ≤ b.position) ∧
      (a.associativity = .right → b.position ≤ a.position) := by
  unfold Rank.notAfter at h
  split at h
  · next equal =>
    refine .inr ⟨equal, ?_⟩
    cases same : a.associativity <;> simp_all
  · exact .inl (by simpa using h)

/-- The operator at a position that is visited has the rank that is visited. -/
theorem Kept.turn (h : Kept registry start (rank :: todo) state)
    (proper : Proper registry start) (ranks : ranksOf start = done ++ rank :: todo)
    {before after : List Item} {op : Item} {occurrence : Occurrence}
    (whole : state.items = before ++ op :: after) (isOperator : op.isOperator = true)
    (named : op.occurrence? = some occurrence) (place : op.position = rank.position) :
    Turn registry start done rank todo state op occurrence before after := by
  refine ⟨h, ranks, ?_, whole, isOperator, named, ?_⟩
  · rw [← ranks]
    exact pairwise_ranksOf proper.settled
  · have inStart : op ∈ start := h.operators op (by simp [whole]) isOperator
    obtain ⟨item, inStart', found⟩ := mem_ranksOf.mp (show rank ∈ ranksOf start by simp [ranks])
    have same : op = item := by
      obtain ⟨-, occurrence', -, rfl⟩ := rank_of? found
      have nodup : (start.map position).Nodup := (List.pairwise_map.mpr proper.sorted).imp Nat.ne_of_lt
      exact List.inj_on_of_nodup_map nodup inStart inStart' place
    rw [← same, rank_of_isOperator isOperator named] at found
    exact (Option.some.inj found).symm

namespace Turn

variable {op : Item} {occurrence : Occurrence} {before after : List Item}

theorem settled (h : Turn registry start done rank todo state op occurrence before after) :
    occurrence.Settled := by
  refine settled_of_occurrence? h.kept.proper.settled ?_ h.named
  simp [h.whole]

theorem apart (h : Turn registry start done rank todo state op occurrence before after) :
    (∀ item ∈ before, item.position < op.position) ∧ ∀ item ∈ after, op.position < item.position := by
  have sorted := h.kept.proper.sorted
  rw [h.whole] at sorted
  obtain ⟨-, right, across⟩ := List.pairwise_append.mp sorted
  exact ⟨fun item mem => across item mem op List.mem_cons_self, (List.pairwise_cons.mp right).1⟩

/-- The operators that stay to be visited do not come before the one whose turn it is. -/
theorem later (h : Turn registry start done rank todo state op occurrence before after)
    {item : Item}
    (pending : Pending (rank :: todo) item) {other : Occurrence} (named : item.occurrence? = some other) :
    other.precedence < occurrence.precedence ∨ occurrence.precedence = other.precedence ∧
      (occurrence.associativity = .left → op.position ≤ item.position) ∧
      (occurrence.associativity = .right → item.position ≤ op.position) := by
  obtain ⟨own, mem, found⟩ := pending
  obtain ⟨-, same, named', rfl⟩ := rank_of? found
  rw [named] at named'
  cases named'
  have := h.rank_eq
  subst this
  rcases List.mem_cons.mp mem with same | mem
  · obtain ⟨precedence, -, place⟩ := Rank.mk.inj same
    exact .inr ⟨precedence.symm, fun _ => Nat.le_of_eq place.symm, fun _ => Nat.le_of_eq place⟩
  · have sorted := (List.pairwise_append.mp h.sorted).2.1
    exact Rank.notAfter_cases ((List.pairwise_cons.mp sorted).1 _ mem)

/-- The operators that were visited do not come after it. -/
theorem earlier (h : Turn registry start done rank todo state op occurrence before after)
    {item : Item}
    (mem : item ∈ state.items) (isOperator : item.isOperator = true)
    (visited : ¬ Pending (rank :: todo) item) {other : Occurrence}
    (named : item.occurrence? = some other) :
    occurrence.precedence < other.precedence ∨ other.precedence = occurrence.precedence ∧
      (other.associativity = .left → item.position ≤ op.position) ∧
      (other.associativity = .right → op.position ≤ item.position) := by
  have found := rank_of_isOperator isOperator named
  have inRanks := mem_ranksOf.mpr ⟨item, h.kept.operators item mem isOperator, found⟩
  rw [h.ranks] at inRanks
  rcases List.mem_append.mp inRanks with before | pending
  · have := (List.pairwise_append.mp h.sorted).2.2 _ before rank List.mem_cons_self
    rw [h.rank_eq] at this
    exact Rank.notAfter_cases this
  · exact absurd ⟨_, pending, found⟩ visited

theorem exists_stands (h : Turn registry start done rank todo state op occurrence before after) :
    ∃ fixity, occurrence.Stands fixity :=
  Item.exists_stands h.kept.proper.settled (by simp [h.whole]) h.isOperator h.named

/-- At the turn of an operator between two operands, all trailing operators were taken out. -/
theorem not_trails (h : Turn registry start done rank todo state op occurrence before after)
    (low : occurrence.precedence < 15) {item : Item} (mem : item ∈ state.items) : item.trails = false := by
  by_contra trails
  have trails : item.trails = true := by simpa using trails
  obtain ⟨-, other, named, stands⟩ := stands_of_trails h.kept.proper.settled mem trails
  have later := h.later (h.kept.trailing item mem trails) named
  cases stands with
  | trailing _ _ _ high => omega

/-- A sign follows an operand, since what trailed it was taken out with it. -/
theorem ready_of_sign (h : Turn registry start done rank todo state op occurrence before after)
    (sign : op.isSign = true) : endsReady before = true := by
  have proper := h.kept.proper
  have flat := h.kept.flat
  rw [h.whole] at proper flat
  rcases List.eq_nil_or_concat before with rfl | ⟨front, item, rfl⟩
  · have := (proper.first op (by simp)).2
    rw [sign] at this
    cases this
  rw [List.concat_eq_append] at *
  have adjacent := (List.isChain_append.mp proper.adjacent).2.2 item (by simp) op (by simp)
  have between := sign
  simp only [isSign, h.isOperator, h.named, Bool.true_and, Option.any_some, Bool.and_eq_true] at between
  have notTrailing : item.trails = false := by
    refine h.not_trails ?_ (by simp [h.whole])
    obtain ⟨own, stands⟩ := h.exists_stands
    cases stands with
    | binary _ _ low => omega
    | leading notBinary | trailing notBinary => simp [between.1] at notBinary
  rcases adjacent.sign sign with evaluable | trails | closes
  · simpa [endsReady] using evaluable
  · rw [notTrailing] at trails
    cases trails
  · rcases flat item (by simp) with evaluable | isOperator
    · simpa [endsReady] using evaluable
    · rw [not_closesGroup_of_isOperator isOperator] at closes
      cases closes

/-- An operator is taken in the form in which it stands. -/
theorem stands (h : Turn registry start done rank todo state op occurrence before after)
    {fixity : Fixity}
    (allowed : occurrence.fixityBetween (endsReady before) (beginsReady after) = some fixity) :
    occurrence.Stands fixity := by
  obtain ⟨own, stands⟩ := h.exists_stands
  rcases stands.fixity_eq allowed with rfl | ⟨notReady, between, leads⟩
  · exact stands
  · rw [h.ready_of_sign (by simp [isSign, h.isOperator, h.named, between, leads])] at notReady
    cases notReady

/-- A trailing operator is taken out at its turn. -/
theorem trailing_taken (h : Turn registry start done rank todo state op occurrence before after)
    (trails : op.trails = true) :
    occurrence.fixityBetween (endsReady before) (beginsReady after) = some .trailing := by
  obtain ⟨-, other, named, stands⟩ :=
    stands_of_trails h.kept.proper.settled (by simp [h.whole]) trails
  rw [h.named] at named
  cases named
  have proper := h.kept.proper
  rw [h.whole] at proper
  have ready : endsReady before = true := by
    rcases List.eq_nil_or_concat before with rfl | ⟨front, item, rfl⟩
    · have := (proper.first op (by simp)).1
      rw [trails] at this
      cases this
    · rw [List.concat_eq_append] at *
      have adjacent := (List.isChain_append.mp proper.adjacent).2.2 item (by simp) op (by simp)
      simpa [endsReady] using adjacent.trailing trails
  rw [ready]
  exact stands.fixityBetween_trailing _

/-- The operators that are left when one is taken out stand beside it. -/
theorem left_beside (h : Turn registry start done rank todo state op occurrence before after)
    {fixity : Fixity} {first run last : List Item} (takes : Takes op fixity before after first run last)
    {group item : Item} (notOperator : group.isOperator = false) (mem : item ∈ first ++ group :: last)
    (isOperator : item.isOperator = true) : (item ∈ before ∨ item ∈ after) ∧ item ∈ state.items := by
  have beside : item ∈ before ∨ item ∈ after := by
    refine takes.beside ?_
    rcases List.mem_append.mp mem with mem | mem
    · exact .inl mem
    rcases List.mem_cons.mp mem with rfl | mem
    · rw [notOperator] at isOperator
      cases isOperator
    · exact .inr mem
  refine ⟨beside, ?_⟩
  rw [h.whole]
  exact List.mem_append.mpr (beside.imp_right (List.mem_cons_of_mem _))

/-- What is left beside the operator stays to be visited if it did. -/
theorem pending_beside (h : Turn registry start done rank todo state op occurrence before after)
    {item : Item}
    (beside : item ∈ before ∨ item ∈ after) (pending : Pending (rank :: todo) item) :
    Pending todo item := by
  refine pending.tail ?_
  have apart := h.apart
  rw [h.rank_eq]
  rcases beside with mem | mem
  · exact Nat.ne_of_lt (apart.1 item mem)
  · exact Nat.ne_of_gt (apart.2 item mem)

end Turn

theorem Kept.cut_cases (h : Kept registry start (rank :: todo) state)
    (proper : Proper registry start) (ranks : ranksOf start = done ++ rank :: todo) :
    (state.cut rank.position = state ∧
        ∀ item ∈ state.items, item.isOperator = true → item.position ≠ rank.position) ∨
      ∃ op occurrence before after, Turn registry start done rank todo state op occurrence before after ∧
        state.Visit op occurrence before after (state.cut rank.position) := by
  rcases state.cut_cases rank.position with ⟨none, same⟩ | ⟨before, op, after, occurrence, whole, visit⟩
  · exact .inl ⟨same, none⟩
  · obtain ⟨isOperator, place, named, -, visit⟩ := visit
    exact .inr ⟨op, occurrence, before, after, h.turn proper ranks whole isOperator named place, visit⟩

/-- In the beginning, no operator was visited. -/
theorem pending_ranksOf {item : Item} (mem : item ∈ start) (isOperator : item.isOperator = true) :
    Pending (ranksOf start) item := by
  obtain ⟨occurrence, named, -⟩ := exists_occurrence_of_isOperator isOperator
  have found := rank_of_isOperator isOperator named
  exact ⟨_, mem_ranksOf.mpr ⟨item, mem, found⟩, found⟩

theorem Kept.begin (builder : Builder) (proper : Proper registry start) (flat : Flat start) :
    Kept registry start (ranksOf start) (.begin builder start) := by
  refine ⟨proper, flat, fun _ mem _ => mem, fun item mem trails => ?_,
    fun _ item mem isOperator => pending_ranksOf mem isOperator, fun _ => rfl⟩
  exact pending_ranksOf mem (stands_of_trails proper.settled mem trails).1

theorem Kept.cut (h : Kept registry start (rank :: todo) state)
    (proper : Proper registry start) (ranks : ranksOf start = done ++ rank :: todo) :
    Kept registry start todo (state.cut rank.position) := by
  rcases h.cut_cases proper ranks with ⟨same, none⟩ | ⟨op, occurrence, before, after, turn, visit⟩
  · rw [same]
    refine ⟨h.proper, h.flat, h.operators, fun item mem trails => ?_,
      fun free item mem isOperator => ?_, h.untouched⟩
    · have isOperator := (stands_of_trails h.proper.settled mem trails).1
      exact (h.trailing item mem trails).tail (none item mem isOperator)
    · exact (h.free free item mem isOperator).tail (none item mem isOperator)
  have beside : ∀ item ∈ state.items, item = op ∨ item ∈ before ∨ item ∈ after := by
    intro item mem
    rw [turn.whole] at mem
    simp only [List.mem_append, List.mem_cons] at mem
    tauto
  have left : op.trails = false → ∀ item ∈ state.items, item.trails = true → Pending todo item := by
    intro notTrailing item mem trails
    rcases beside item mem with rfl | beside
    · rw [notTrailing] at trails
      cases trails
    · exact turn.pending_beside beside (h.trailing item mem trails)
  generalize state.cut rank.position = next at visit ⊢
  cases visit with
  | deferred missing =>
    refine ⟨h.proper, h.flat, h.operators, left ?_, fun free => ?_, h.untouched⟩
    · by_contra trails
      rw [turn.trailing_taken (by simpa using trails)] at missing
      cases missing
    · cases blocked : state.blocked <;> simp [blocked] at free
  | blocked allowed lower =>
    refine ⟨h.proper, h.flat, h.operators, left ?_, fun free => ?_, h.untouched⟩
    · by_contra trails
      rw [turn.trailing_taken (by simpa using trails)] at allowed
      cases allowed
    · simp [free] at lower
  | @taken fixity text first run last _ _ takes =>
    have left : ∀ item ∈ first ++ .group state.builder.lists.size text (Item.spanOf run) op.position :: last,
        item.isOperator = true → (item ∈ before ∨ item ∈ after) ∧ item ∈ state.items :=
      fun item => turn.left_beside takes rfl
    have proper' := h.proper
    have flat := h.flat
    rw [turn.whole] at proper' flat
    obtain ⟨proper', flat⟩ := takes.proper_rest proper' flat state.builder.lists.size text (Item.spanOf run)
    refine ⟨proper', flat, fun item mem isOperator => ?_, fun item mem trails => ?_,
      fun free item mem isOperator => ?_, fun untouched => absurd untouched (Nat.succ_ne_zero _)⟩
    · exact h.operators item (left item mem isOperator).2 isOperator
    · obtain ⟨beside, inItems⟩ := left item mem (stands_of_trails proper'.settled mem trails).1
      exact turn.pending_beside beside (h.trailing item inItems trails)
    · obtain ⟨beside, inItems⟩ := left item mem isOperator
      exact turn.pending_beside beside (h.free free item inItems isOperator)

end Builder

end Reckoner
