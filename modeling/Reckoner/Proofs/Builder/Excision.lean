import Reckoner.Proofs.Builder.Origin

/-!
What holds whenever an operator is visited while a list is reduced. The members of the list stay in the order of
the source, and its operators can be sorted. An operator is cut out with the operands that it stands with, one
between two operands only if no operator that is left binds more tightly. Throughout, the list covers the lexemes
that it was made from.
-/
namespace Reckoner

/-- What an operator takes holds no other one. -/
theorem Item.Takes.filter_run {op : Item} {fixity : Fixity} {before after first run last : List Item}
    (h : Takes op fixity before after first run last) (isOperator : op.isOperator = true) :
    run.filter Item.isOperator = [op] := by
  cases h with
  | binary _ left right _ isLeft isRight =>
    simp [isOperator, (not_trails_of_isEvaluable isLeft).1, (not_trails_of_isEvaluable isRight).1]
  | leading _ operand _ evaluable | trailing _ operand _ evaluable =>
    simp [isOperator, (not_trails_of_isEvaluable evaluable).1]

namespace Builder

open Item

variable {registry : Registry} {start : List Item} {done : List Rank} {rank : Rank} {todo : List Rank}
  {state : Cutting}

theorem nodup_ranksOf {items : List Item} (proper : Proper registry items) : (ranksOf items).Nodup :=
  (List.mergeSort_perm _ _).nodup_iff.mpr (inOrder_of_proper proper).apart.of_map

/-- The operators that still have to be visited are there, and a tighter operator was left if others are. -/
structure Awaits (todo : List Rank) (state : Cutting) : Prop where
  found : ∀ rank ∈ todo, ∃ item ∈ state.items, Rank.of? item = some rank
  high : ∀ precedence, state.blocked = some precedence → ∀ rank ∈ todo, rank.precedence ≤ precedence
  left : ∀ item ∈ state.items, ∀ rank, Rank.of? item = some rank →
    rank ∈ todo ∨ ∃ precedence, state.blocked = some precedence ∧ rank.precedence ≤ precedence

theorem Awaits.begin (builder : Builder) (items : List Item) : Awaits (ranksOf items) (.begin builder items) :=
  ⟨fun _ mem => mem_ranksOf.mp mem, by rintro _ ⟨⟩,
    fun item mem _ found => .inl (mem_ranksOf.mpr ⟨item, mem, found⟩)⟩

namespace Turn

variable {op : Item} {occurrence : Occurrence} {before after : List Item}

theorem rank_op (h : Turn registry start done rank todo state op occurrence before after) :
    Rank.of? op = some rank := by
  rw [rank_of_isOperator h.isOperator h.named, h.rank_eq]

/-- The operators that are visited later bind at most as tightly. -/
theorem precedence_le (h : Turn registry start done rank todo state op occurrence before after) {other : Rank}
    (mem : other ∈ rank :: todo) : other.precedence ≤ rank.precedence := by
  rcases List.mem_cons.mp mem with rfl | mem
  · exact Nat.le_refl _
  have sorted := (List.pairwise_append.mp h.sorted).2.1
  have := Rank.notAfter_cases ((List.pairwise_cons.mp sorted).1 other mem)
  omega

/-- No operator beside the one whose turn it is has its rank. -/
theorem rank_ne (h : Turn registry start done rank todo state op occurrence before after) {item : Item}
    (beside : item ∈ before ∨ item ∈ after) : Rank.of? item ≠ some rank := by
  intro found
  obtain ⟨-, _, -, same⟩ := rank_of? found
  have place : op.position = item.position := by
    rw [h.rank_eq] at same
    exact congrArg Rank.position same
  rcases beside with mem | mem
  · exact Nat.ne_of_gt (h.apart.1 item mem) place
  · exact Nat.ne_of_lt (h.apart.2 item mem) place

end Turn

/-- The operator whose turn it is stands in the list. -/
theorem Awaits.exists_turn (h : Awaits (rank :: todo) state) (kept : Kept registry start (rank :: todo) state)
    (proper : Proper registry start) (ranks : ranksOf start = done ++ rank :: todo) :
    ∃ op occurrence before after, Turn registry start done rank todo state op occurrence before after ∧
      state.Visit op occurrence before after (state.cut rank.position) := by
  refine (kept.cut_cases proper ranks).resolve_left fun ⟨_, absent⟩ => ?_
  obtain ⟨item, mem, found⟩ := h.found rank List.mem_cons_self
  obtain ⟨isOperator, _, -, rfl⟩ := rank_of? found
  exact absent item mem isOperator rfl

/-- An operator may be left once a tighter one is known to be left. -/
private theorem Awaits.leave (h : Awaits (rank :: todo) state) {next : Cutting} (items : next.items = state.items)
    (precedence : Nat) (blocked : next.blocked = some precedence)
    (kept : ∀ lower, state.blocked = some lower → lower = precedence)
    (bound : ∀ other ∈ rank :: todo, other.precedence ≤ precedence) : Awaits todo next := by
  refine ⟨fun other mem => items ▸ h.found other (List.mem_cons_of_mem _ mem), fun lower isLower other mem => ?_,
    fun item mem other found => ?_⟩
  · cases blocked.symm.trans isLower
    exact bound other (List.mem_cons_of_mem _ mem)
  · rcases h.left item (items ▸ mem) other found with waits | ⟨lower, left, low⟩
    · rcases List.mem_cons.mp waits with rfl | waits
      · exact .inr ⟨precedence, blocked, bound _ List.mem_cons_self⟩
      · exact .inl waits
    · exact .inr ⟨precedence, blocked, kept lower left ▸ low⟩

theorem Awaits.cut (h : Awaits (rank :: todo) state) (kept : Kept registry start (rank :: todo) state)
    (proper : Proper registry start) (ranks : ranksOf start = done ++ rank :: todo) :
    Awaits todo (state.cut rank.position) := by
  obtain ⟨op, occurrence, before, after, turn, visit⟩ := h.exists_turn kept proper ranks
  have own : rank.precedence = occurrence.precedence := by rw [turn.rank_eq]
  generalize state.cut rank.position = next at visit ⊢
  cases visit with
  | deferred =>
    cases old : state.blocked with
    | none =>
      refine h.leave rfl occurrence.precedence (by simp) (by simp [old]) fun other mem => ?_
      exact own ▸ turn.precedence_le mem
    | some lower => exact h.leave rfl lower (by simp) (by simp [old]) (h.high lower old)
  | blocked _ tighter =>
    cases old : state.blocked with
    | none => simp [old] at tighter
    | some lower => exact h.leave rfl lower old (by simp [old]) (h.high lower old)
  | @taken fixity text first run last allowed free takes =>
    have whole := turn.whole
    refine ⟨fun other mem => ?_, fun precedence blocked other mem =>
      h.high precedence blocked other (List.mem_cons_of_mem _ mem), fun item mem other found => ?_⟩
    · obtain ⟨item, inItems, found⟩ := h.found other (List.mem_cons_of_mem _ mem)
      have isOperator := (rank_of? found).1
      rcases takes.mem_cases (whole ▸ inItems) with rfl | evaluable | stays
      · have unique : (done ++ rank :: todo).Nodup := ranks ▸ nodup_ranksOf proper
        rw [turn.rank_op, Option.some.injEq] at found
        exact absurd (found ▸ mem) (List.nodup_cons.mp (List.nodup_append.mp unique).2.1).1
      · rw [not_isEvaluable_of_isOperator isOperator] at evaluable
        cases evaluable
      · exact ⟨item, by simp only [List.mem_append, List.mem_cons]; tauto, found⟩
    · obtain ⟨beside, inItems⟩ := turn.left_beside takes rfl mem (rank_of? found).1
      refine (h.left item inItems other found).imp_left fun waits => (List.mem_cons.mp waits).resolve_left ?_
      rintro rfl
      exact turn.rank_ne beside found

/-- What a visit of an operator does to a list. -/
inductive Cutting.Excises (state : Cutting) (rank : Rank) (next : Cutting) : Prop where
  /-- The operator is left where it is, because an operand is missing, or because a tighter operator was left and
  might take one of its two operands. -/
  | left {op : Item} {occurrence : Occurrence} {before after : List Item} :
      state.items = before ++ op :: after → Rank.of? op = some rank → op.occurrence? = some occurrence →
      (fixity? occurrence state.items before.length = none ∨
        fixity? occurrence state.items before.length = some .binary ∧
          ∃ tighter, state.blocked = some tighter ∧ rank.precedence < tighter) →
      next.items = state.items → next.builder = state.builder → Excises state rank next
  /-- The operator moves to a list of its own with what it stands with. If these are two operands, no operator
  that is left binds more tightly. -/
  | taken {op : Item} {occurrence : Occurrence} {fixity : Fixity} {before after first run last : List Item}
      (text : String) : state.items = before ++ op :: after → Rank.of? op = some rank →
      op.occurrence? = some occurrence → fixity? occurrence state.items before.length = some fixity →
      Takes op fixity before after first run last → run.filter isOperator = [op] →
      next.items = first ++ .group state.builder.lists.size text (Item.spanOf run) rank.position :: last →
      next.builder = state.builder.addList run (Item.spanOf run) →
      (fixity = .binary → ∀ other ∈ next.items.filterMap Rank.of?, other.precedence ≤ rank.precedence) →
      Excises state rank next

/-- Every visit does so. -/
theorem Awaits.excises (h : Awaits (rank :: todo) state) (kept : Kept registry start (rank :: todo) state)
    (proper : Proper registry start) (ranks : ranksOf start = done ++ rank :: todo) :
    state.Excises rank (state.cut rank.position) := by
  obtain ⟨op, occurrence, before, after, turn, visit⟩ := h.exists_turn kept proper ranks
  have form : fixity? occurrence state.items before.length =
      occurrence.fixityBetween (endsReady before) (beginsReady after) := by rw [turn.whole, fixity?_eq]
  have own : rank.precedence = occurrence.precedence := by rw [turn.rank_eq]
  have place : rank.position = op.position := by rw [turn.rank_eq]
  generalize state.cut rank.position = next at visit ⊢
  cases visit with
  | deferred missing => exact .left turn.whole turn.rank_op turn.named (.inl (form.trans missing)) rfl rfl
  | blocked allowed tighter =>
    cases old : state.blocked with
    | none => simp [old] at tighter
    | some precedence =>
      have lower : rank.precedence < precedence := by simpa [old, own] using tighter
      exact .left turn.whole turn.rank_op turn.named (.inr ⟨form.trans allowed, precedence, old, lower⟩) rfl rfl
  | @taken fixity text first run last allowed free takes =>
    refine .taken text turn.whole turn.rank_op turn.named (form.trans allowed) takes
      (takes.filter_run turn.isOperator) (by rw [place]) rfl fun isBinary other isLeft => ?_
    obtain ⟨item, inItems, found⟩ := List.mem_filterMap.mp isLeft
    obtain ⟨-, inItems⟩ := turn.left_beside takes rfl inItems (rank_of? found).1
    rcases h.left item inItems other found with waits | ⟨precedence, blocked, low⟩
    · exact turn.precedence_le waits
    · have := free isBinary
      simp only [blocked, Option.any_some, decide_eq_false_iff_not] at this
      omega

/-- Before every visit of a pass, the list could be from a classified source, and its operators wait. -/
theorem Cutting.begin_visited (builder : Builder) (proper : Proper registry start) (flat : Flat start)
    (ranks : ranksOf start = done ++ todo) :
    Kept registry start todo ((begin builder start).cutAll done) ∧
      Awaits todo ((begin builder start).cutAll done) := by
  induction done using List.reverseRecOn generalizing todo with
  | nil =>
    rw [List.nil_append] at ranks
    exact ranks ▸ ⟨.begin builder proper flat, .begin builder start⟩
  | append_singleton done rank ih =>
    rw [List.append_assoc, List.singleton_append] at ranks
    obtain ⟨kept, awaits⟩ := ih ranks
    rw [cutAll, List.foldl_append]
    exact ⟨kept.cut proper ranks, awaits.cut kept proper ranks⟩

/-- The builder once the groups and calls of a list are taken out. -/
def ungroup (builder : Builder) (list : ListId) : Except CompileError Builder :=
  if hasGroups (builder.itemsOf list) then do
    let (items, after) ← builder.regroup (builder.itemsOf list)
    return after.setItems list items
  else .ok builder

variable {origin lexemes : List Lexeme} {builder ready : Builder} {list : Nat} {rest : List ListId}

theorem reduce_of_several (several : 2 ≤ ((builder.itemsOf list).filter isOperator).length) :
    builder.reduce list = builder.reduceOperators list := by
  rw [← length_operatorIndices] at several
  unfold reduce
  split
  · next none => simp [none] at several
  · next one => simp [one] at several
  · rfl

/-- A pass over a list with several operators takes the groups out and then cuts the operators out. -/
theorem process_of_ungroup (h : builder.ungroup list = .ok ready)
    (several : 2 ≤ ((ready.itemsOf list).filter isOperator).length) {after : Builder}
    (reduced : ready.reduceOperators list = .ok (.progress, after)) :
    builder.process list = .ok (.progress, after) := by
  rw [← reduce_of_several several] at reduced
  unfold ungroup at h
  unfold process
  split at h
  · next groups =>
    simp only [groups, if_true]
    obtain ⟨⟨left, grouped⟩, taken, h⟩ := bind_eq_ok.mp h
    cases h
    exact bind_eq_ok.mpr ⟨_, taken, bind_eq_ok.mpr ⟨_, reduced, rfl⟩⟩
  · next noGroups =>
    cases h
    simp only [noGroups]
    exact reduced

/-- Taking out groups and calls leaves operands and operators, and covers the same lexemes. -/
theorem ungroup_ok (h : builder.ungroup list = .ok ready)
    (sorted : origin.Pairwise fun first second => first.position < second.position)
    (inside : ∀ lexeme, .lexeme lexeme ∈ builder.itemsOf list → lexeme ∈ origin)
    (proper : Proper registry (builder.itemsOf list)) :
    ∃ left news, ready = (builder.append news).setItems list left ∧
      Covering origin builder.lists.size (builder.itemsOf list) left news ∧ Proper registry left ∧ Flat left := by
  unfold ungroup at h
  split at h
  · obtain ⟨⟨left, after⟩, grouped, h⟩ := bind_eq_ok.mp h
    cases h
    obtain ⟨news, rfl, grouping⟩ := regroup_ok grouped
    obtain ⟨properLeft, flat, -⟩ := grouping.proper proper
    exact ⟨left, news, rfl, grouping.covering sorted inside, properLeft, flat⟩
  · next noGroups =>
    cases h
    exact ⟨_, [], (setItems_itemsOf builder list).symm, .refl .., proper,
      flat_of_not_hasGroups proper (by simpa using noGroups)⟩

/-- Together with the visits so far, this is one division of the list. -/
theorem covering_visited {left : List Item} {news : List (List Item × Span)}
    (isReady : ready = (builder.append news).setItems list left) (bound : list < builder.lists.size)
    (covering : Covering origin builder.lists.size (builder.itemsOf list) left news) (done : List Rank) :
    ∃ all, ((Cutting.begin ready left).cutAll done).builder = (builder.append all).setItems list left ∧
      Covering origin builder.lists.size (builder.itemsOf list) ((Cutting.begin ready left).cutAll done).items
        all := by
  obtain ⟨cut, made, covering'⟩ := (Cutting.begin ready left).cutAll_covering origin done
  have size : (Cutting.begin ready left).builder.lists.size = builder.lists.size + news.length := by
    rw [Cutting.begin, isReady, size_setItems, size_append]
  rw [size] at covering'
  refine ⟨news ++ cut, ?_, covering.trans covering'⟩
  rw [made, Cutting.begin, isReady, setItems_append (by rw [size_append]; omega), append_append]

/-- A moment between two visits of a pass over the list in front: the builders before the pass and at its start,
the operators that still have to be visited, and what has become of the list. -/
inductive Cutting.Met (run : List Schedule) :
    List Builder → Builder → ListId → List Rank → Cutting → Prop where
  | intro {earlier later : List Schedule} {reached : Schedule} {list : ListId} {rest : List ListId}
      {ready : Builder} {done todo : List Rank} : run = earlier ++ reached :: later →
      reached.queue = list :: rest → reached.builder.ungroup list = .ok ready →
      2 ≤ ((ready.itemsOf list).filter isOperator).length →
      ranksOf (ready.itemsOf list) = done ++ todo →
      Met run (earlier.map (·.builder)) reached.builder list todo
        ((begin ready (ready.itemsOf list)).cutAll done)

variable {source : String} {limit : Nat} {history : List Builder}

/-- Between the passes, the lists that wait cover what they were made from. -/
theorem trail_covers (proper : Proper registry (lexemes.map .lexeme)) {run : List Schedule}
    (isRun : run = Schedule.trail limit ⟨Builder.start source lexemes, [0], 0⟩) :
    madeFrom lexemes (run.map (·.builder)) 0 = lexemes.filter (fun lexeme => !lexeme.isPunctuation) ∧
      ∀ reached ∈ run, ∀ list ∈ reached.queue,
        madeFrom lexemes (run.map (·.builder)) list <:+: madeFrom lexemes (run.map (·.builder)) 0 ∧
          coveredBy lexemes (madeFrom lexemes (run.map (·.builder))) (reached.builder.itemsOf list) =
            madeFrom lexemes (run.map (·.builder)) list := by
  constructor
  · obtain ⟨later, whole⟩ := exists_trail limit ⟨Builder.start source lexemes, [0], 0⟩
    obtain ⟨scheduled, -, recorded⟩ := @trail_recorded _ _ _ _ proper [] _ _ whole
    rw [isRun.trans whole]
    exact (@Recorded.madeFrom_eq _ _ [] _ _ recorded later (scheduled.pending 0 List.mem_cons_self).1).trans
      recorded.whole
  · intro reached mem list queued
    obtain ⟨earlier, later, whole⟩ := List.append_of_mem mem
    obtain ⟨scheduled, -, recorded⟩ := trail_recorded proper (isRun.symm.trans whole)
    have same : ∀ other : Nat, other < reached.builder.lists.size → madeFrom lexemes (run.map (·.builder)) other =
        madeFrom lexemes ((earlier ++ [reached]).map (·.builder)) other :=
      fun other bound => whole ▸ recorded.madeFrom_eq later bound
    have bound := (scheduled.pending list queued).1
    rw [same list bound, same 0 (Nat.zero_lt_of_lt bound),
      coveredBy_congr fun other needed => same other (scheduled.lt_size queued needed)]
    exact ⟨recorded.within list queued, recorded.covered list queued⟩

/-- Between the visits of a pass, the members of its list are in order and cover the same lexemes, and every visit
leaves or takes an operator. -/
theorem Cutting.Met.holds (proper : Proper registry (lexemes.map .lexeme)) {run : List Schedule}
    (isRun : run = Schedule.trail limit ⟨Builder.start source lexemes, [0], 0⟩)
    (h : Met run history builder list todo state) :
    coveredBy lexemes (madeFrom lexemes (history ++ [builder, state.builder])) state.items =
        madeFrom lexemes (run.map (·.builder)) list ∧
      InOrder state.items ∧
      (todo = [] → state.count ≠ 0 →
        builder.process list = .ok (.progress, state.builder.setItems list state.items)) ∧
      ∀ rank later, todo = rank :: later → state.Excises rank (state.cut rank.position) := by
  obtain ⟨whole, queued, ungrouped, several, ranks⟩ := h
  rename_i earlier later reached rest ready done
  obtain ⟨scheduled, eachProper, recorded⟩ := trail_recorded proper (isRun.symm.trans whole)
  rw [queued] at scheduled eachProper recorded
  have bound := (scheduled.pending list List.mem_cons_self).1
  have sorted := List.pairwise_map.mp proper.sorted
  obtain ⟨left, news, isReady, covering, properLeft, flat⟩ :=
    ungroup_ok ungrouped sorted (recorded.inside list List.mem_cons_self) (eachProper list List.mem_cons_self)
  have isLeft : ready.itemsOf list = left := by
    rw [isReady, itemsOf_divided_self _ _ _ bound]
  rw [isLeft] at several ranks ⊢
  obtain ⟨kept, awaits⟩ := begin_visited ready properLeft flat ranks
  refine ⟨?_, inOrder_of_proper kept.proper, ?_, ?_⟩
  · obtain ⟨all, divided, covering⟩ := covering_visited isReady bound covering done
    have now : births (earlier.map (·.builder) ++ [reached.builder, ((begin ready left).cutAll done).builder]) =
        births ((earlier ++ [reached]).map (·.builder)) ++ all.map (·.1) := by
      rw [← record_divided recorded.size_eq bound left, ← divided, ← births_concat]
      simp
    rw [whole, recorded.madeFrom_eq later bound, madeFrom, now]
    exact (recorded.covered_divided scheduled covering).1
  · rintro rfl some
    rw [List.append_nil] at ranks
    refine process_of_ungroup ungrouped (isLeft ▸ several) ?_
    rw [reduceOperators_of_cutAll rfl, isLeft, ranks, if_neg some]
  · rintro rank later rfl
    exact awaits.excises kept properLeft ranks

/-- Building a tree from a classified source keeps every list a cover of the lexemes that it was made from, which
follow each other in the source, and takes operators out of lists that are in order. -/
theorem excision_keeps_cover {registry : Registry} {source : String} {lexemes classified : List Lexeme}
    (read : Lexeme.tokenize source = .ok lexemes) (known : Lexeme.classify registry lexemes = .ok classified)
    (limit : Nat) :
    let run := Schedule.trail limit ⟨Builder.start source classified, [0], 0⟩
    let made := madeFrom classified (run.map (·.builder))
    made 0 = classified.filter (fun lexeme => !lexeme.isPunctuation) ∧
      (∀ reached ∈ run, ∀ list ∈ reached.queue,
        made list <:+: made 0 ∧ coveredBy classified made (reached.builder.itemsOf list) = made list) ∧
      ∀ history builder list todo state, Cutting.Met run history builder list todo state →
        coveredBy classified (madeFrom classified (history ++ [builder, state.builder])) state.items = made list ∧
          InOrder state.items ∧
          (todo = [] → state.count ≠ 0 →
            builder.process list = .ok (.progress, state.builder.setItems list state.items)) ∧
          ∀ rank later, todo = rank :: later → state.Excises rank (state.cut rank.position) := by
  intro run made
  have proper := proper_of_classify read known
  obtain ⟨whole, between⟩ := trail_covers proper (show run = _ from rfl)
  exact ⟨whole, between, fun history builder list todo state met => met.holds proper rfl⟩

/-- A sign between a cast and its variable: the cast is left, since its operand is not in one piece yet. -/
theorem excision_keeps_cover_cast :
    ∃ lexemes classified reached later ready state,
      Lexeme.tokenize "(int)-x + f(2)" = .ok lexemes ∧
      Lexeme.classify
        ⟨.insert .empty "x" (.int 0), .insert .empty "f" ⟨.int, [.int], fun _ => pure (.int 0)⟩⟩
        lexemes = .ok classified ∧
      Schedule.trail 10 ⟨Builder.start "(int)-x + f(2)" classified, [0], 0⟩ = [] ++ reached :: later ∧
      reached.builder.ungroup 0 = .ok ready ∧
      (Cutting.begin ready (ready.itemsOf 0)).cutAll [⟨16, .right, 0⟩] = state ∧
      state.blocked = some 16 ∧ state.items.map (·.position) = [0, 1, 2, 3, 4] ∧
      (state.cut 1).items.map (·.position) = [0, 1, 3, 4] ∧
      (coveredBy classified (madeFrom classified [reached.builder, state.builder]) state.items).map (·.text) =
        ["(int)", "-", "x", "+", "f", "2"] ∧
      coveredBy classified (madeFrom classified [reached.builder, state.builder]) state.items =
        madeFrom classified ((reached :: later).map (·.builder)) 0 ∧
      InOrder state.items ∧ state.Excises ⟨15, .right, 1⟩ (state.cut 1) := by
  have ran : ∃ lexemes classified reached later ready state,
      Lexeme.tokenize "(int)-x + f(2)" = .ok lexemes ∧
      Lexeme.classify
        ⟨.insert .empty "x" (.int 0), .insert .empty "f" ⟨.int, [.int], fun _ => pure (.int 0)⟩⟩
        lexemes = .ok classified ∧
      Schedule.trail 10 ⟨Builder.start "(int)-x + f(2)" classified, [0], 0⟩ = [] ++ reached :: later ∧
      reached.builder.ungroup 0 = .ok ready ∧
      (Cutting.begin ready (ready.itemsOf 0)).cutAll [⟨16, .right, 0⟩] = state ∧
      state.blocked = some 16 ∧ state.items.map (·.position) = [0, 1, 2, 3, 4] ∧
      (state.cut 1).items.map (·.position) = [0, 1, 3, 4] ∧
      (coveredBy classified (madeFrom classified [reached.builder, state.builder]) state.items).map (·.text) =
        ["(int)", "-", "x", "+", "f", "2"] ∧
      reached.queue = [0] ∧ 2 ≤ ((ready.itemsOf 0).filter isOperator).length ∧
      ranksOf (ready.itemsOf 0) = [⟨16, .right, 0⟩] ++ [⟨15, .right, 1⟩, ⟨12, .left, 3⟩] :=
    ⟨_, _, _, _, _, _, by cbv, by cbv, by cbv, by cbv, by cbv, by cbv, by cbv, by cbv, by cbv, by cbv, by cbv,
      by cbv⟩
  obtain ⟨lexemes, classified, reached, later, ready, state, read, known, whole, ungrouped, cut, blocked, before,
    after, spelled, queued, several, ranks⟩ := ran
  obtain ⟨-, -, each⟩ := excision_keeps_cover read known 10
  obtain ⟨covers, inOrder, -, excises⟩ := each _ _ _ _ _ (.intro whole queued ungrouped several ranks)
  rw [cut] at covers inOrder excises
  rw [whole] at covers
  exact ⟨lexemes, classified, reached, later, ready, state, read, known, whole, ungrouped, cut, blocked, before,
    after, spelled, covers, inOrder, excises _ _ rfl⟩

end Builder

end Reckoner
