import Reckoner.Proofs.Builder.Alternation
import Reckoner.Proofs.Builder.Visiting

/-!
What is left of a list that takes turns, operator by operator. Only operators before their operand are ever
left at their turn, since they bind tighter than what stands between two operands. A cast that was left has
no operand that something trails, so that nothing which binds tighter is left beside an operator that is
taken out.
-/
namespace Reckoner

open Item

/-- A conversion, which binds tighter than what trails its operand. -/
def Item.isCast (item : Item) : Bool :=
  item.isOperator && item.occurrence?.any fun occurrence => occurrence.precedence == 16

theorem Item.isOperator_of_isCast {item : Item} (h : item.isCast = true) : item.isOperator = true := by
  simp only [isCast, Bool.and_eq_true] at h
  exact h.1

namespace Builder

/-- What is left of a list that takes turns, when the operators of some ranks still have to be visited. -/
structure Tight (todo : List Rank) (state : Cutting) : Prop where
  high : ∀ precedence, state.blocked = some precedence → 15 ≤ precedence
  casts : ∀ before cast operand after, state.items = before ++ cast :: operand :: after →
    cast.isCast = true → operand.isEvaluable = true → (∃ item ∈ after.head?, item.trails = true) →
    Pending todo cast
  stuck : state.count = 0 → state.blocked ≠ none → ∃ item ∈ state.items, item.leads = true
  waiting : state.count = 0 → ∀ before op after, state.items = before ++ op :: after →
    op.leads = true → ¬ Pending todo op → beginsReady after = false

variable {registry : Registry} {start : List Item} {done : List Rank} {rank : Rank} {todo : List Rank}
  {state : Cutting}

/-- An operator between two operands is only taken out as long as nothing was left. -/
theorem Tight.blocked_eq_none (h : Tight todo state) {occurrence : Occurrence}
    (stands : occurrence.Stands .binary)
    (free : state.blocked.any (occurrence.precedence < ·) = false) : state.blocked = none := by
  cases blocked : state.blocked with
  | none => rfl
  | some precedence =>
    have high := h.high precedence blocked
    simp only [blocked, Option.any_some, decide_eq_false_iff_not] at free
    cases stands with
    | binary _ _ low => omega

theorem stands_of_isCast {items : List Item}
    (settled : ∀ lexeme, .lexeme lexeme ∈ items → lexeme.Settled registry) {item : Item}
    (mem : item ∈ items) (h : item.isCast = true) :
    item.isOperator = true ∧ ∃ occurrence, item.occurrence? = some occurrence ∧
      occurrence.Stands .leading ∧ occurrence.precedence = 16 ∧ occurrence.associativity = .right := by
  simp only [isCast, Bool.and_eq_true, Option.any_eq_true, beq_iff_eq] at h
  obtain ⟨isOperator, occurrence, named, tight⟩ := h
  obtain ⟨fixity, stands⟩ := exists_stands settled mem isOperator named
  have grouped := (settled_of_occurrence? settled mem named).associativity_eq
  rw [if_pos (.inr (by omega))] at grouped
  cases stands with
  | binary _ _ low => omega
  | leading notBinary leads notTrailing low high =>
    exact ⟨isOperator, occurrence, named, .leading notBinary leads notTrailing low high, tight, grouped⟩
  | trailing _ _ _ low => omega

namespace Turn

variable {op : Item} {occurrence : Occurrence} {before after : List Item}

theorem alternates (h : Turn registry start done rank todo state op occurrence before after)
    (alternates : Alternates state.items) : ∃ ready next, turns false before = some ready ∧
      turn ready op = some next ∧ turns next after = some true := by
  rw [h.whole, Alternates, turns_append] at alternates
  obtain ⟨ready, left, right⟩ := Option.bind_eq_some_iff.mp alternates
  rw [turns_cons] at right
  obtain ⟨next, here, right⟩ := Option.bind_eq_some_iff.mp right
  exact ⟨ready, next, left, here, right⟩

/-- As long as nothing was left, an operator between two operands has them at its turn. -/
theorem binary_taken (h : Turn registry start done rank todo state op occurrence before after)
    (alternates : Alternates state.items) (free : state.blocked = none)
    (stands : occurrence.Stands .binary) :
    occurrence.fixityBetween (endsReady before) (beginsReady after) = some .binary := by
  obtain ⟨ready, next, left, here, right⟩ := h.alternates alternates
  have flat := h.kept.flat
  have proper := h.kept.proper
  have notTrailing : ∀ item ∈ state.items, item.trails = false :=
    fun item mem => h.not_trails (by cases stands; omega) mem
  rw [h.whole] at flat proper notTrailing
  cases stands with
  | binary between notTrailing' low =>
  rw [turn_of_isOperator h.isOperator h.named, between, notTrailing'] at here
  have isReady : ready = true := by
    by_contra notReady
    have notReady : ready = false := by simpa using notReady
    subst notReady
    have leads : occurrence.form.leading = true := by
      by_contra notLeading
      simp [notLeading] at here
    have := h.ready_of_sign (by simp [isSign, h.isOperator, h.named, between, leads])
    rw [not_endsReady_of_turns left] at this
    cases this
  subst isReady
  cases here
  have leftReady : endsReady before = true := by
    rcases endsReady_of_turns (fun item mem => flat item (by simp [mem])) left with
      ready | ⟨item, mem, trails⟩
    · exact ready
    · rw [notTrailing item (by simp [mem])] at trails
      cases trails
  have rightReady : beginsReady after = true := by
    rcases awaited proper.adjacent.right_of_append (fun item mem => flat item (by simp_all))
        h.isOperator (notTrailing op (by simp)) right with ready | ⟨item, rest, rfl, leads, -⟩
    · exact ready
    · have mem : item ∈ state.items := by simp [h.whole]
      obtain ⟨isOperator, other, named, stands⟩ := stands_of_leads h.kept.proper.settled mem leads
      have later := h.later (h.kept.free free item mem isOperator) named
      cases stands with
      | leading _ _ _ high => omega
  simp [Occurrence.fixityBetween, between, leftReady, rightReady]

/-- No other operator stands where the one whose turn it is does. -/
theorem split (h : Turn registry start done rank todo state op occurrence before after)
    {front back : List Item} {other : Item} (same : state.items = front ++ other :: back) :
    front = before ∧ other = op ∧ back = after ∨ other ∈ before ∨ other ∈ after := by
  have mem : other ∈ before ++ op :: after := by simp [← h.whole, same]
  simp only [List.mem_append, List.mem_cons] at mem
  rcases mem with mem | rfl | mem
  · exact .inr (.inl mem)
  · have notBefore : other ∉ before := fun mem => Nat.lt_irrefl _ (h.apart.1 other mem)
    have notAfter : other ∉ after := fun mem => Nat.lt_irrefl _ (h.apart.2 other mem)
    rw [h.whole] at same
    obtain ⟨one, -, two⟩ := (List.append_cons_inj_of_notMem notBefore notAfter).mp same
    exact .inl ⟨one.symm, rfl, two.symm⟩
  · exact .inr (.inr mem)

/-- An operator right behind a cast is only taken out with an operand that nothing trails. -/
theorem pending_cast (h : Turn registry start done rank todo state op occurrence before after)
    (tight : Tight (rank :: todo) state) {fixity : Fixity} {first run last front : List Item}
    (stands : occurrence.Stands fixity)
    (free : fixity = .binary → state.blocked.any (occurrence.precedence < ·) = false)
    (takes : Takes op fixity before after first run last) {cast item : Item}
    (isFirst : first = front ++ [cast]) (isCast : cast.isCast = true) (isLast : item ∈ last.head?)
    (trails : item.trails = true) : Pending (rank :: todo) cast := by
  have settled := h.kept.proper.settled
  have castMem : cast ∈ before := by
    subst isFirst
    cases takes <;> simp
  have castMem' : cast ∈ state.items := by simp [h.whole, castMem]
  obtain ⟨isOperator, other, named, -, highest, grouped⟩ := stands_of_isCast settled castMem' isCast
  cases takes with
  | binary _ left right _ isLeft =>
    exact h.kept.free (tight.blocked_eq_none stands (free rfl)) cast castMem' isOperator
  | leading _ operand _ evaluable =>
    by_contra visited
    -- The operator was not visited after the cast, so it does not bind as tightly as the cast.
    have earlier := h.earlier castMem' isOperator visited named
    have place := h.apart.1 cast castMem
    have itemMem : item ∈ last := List.mem_of_mem_head? isLast
    obtain ⟨isOperator', other', named', stands'⟩ :=
      stands_of_trails settled (show item ∈ state.items by simp [h.whole, itemMem]) trails
    have later := h.later (h.kept.trailing item (by simp [h.whole, itemMem]) trails) named'
    have place' := h.apart.2 item (List.mem_cons_of_mem _ itemMem)
    have grouped' := h.settled.associativity_eq
    cases stands' with
    | trailing _ _ _ low =>
    cases stands with
    | leading _ _ _ high =>
    rw [if_pos (.inr high)] at grouped'
    rcases earlier with looser | ⟨-, -, right⟩
    · rcases later with looser' | ⟨-, -, right⟩
      · omega
      · have := right grouped'
        omega
    · have := right grouped
      omega
  | trailing front' operand after evaluable =>
    have proper := h.kept.proper
    rw [h.whole] at proper
    have chain := proper.adjacent.right_of_append
    have := ((List.isChain_cons.mp chain).1 item isLast).trailing trails
    rw [not_isEvaluable_of_isOperator h.isOperator] at this
    cases this

theorem casts_taken (h : Turn registry start done rank todo state op occurrence before after)
    (tight : Tight (rank :: todo) state) {fixity : Fixity} {first run last : List Item}
    (stands : occurrence.Stands fixity)
    (free : fixity = .binary → state.blocked.any (occurrence.precedence < ·) = false)
    (takes : Takes op fixity before after first run last) {group : Item}
    (evaluable : group.isEvaluable = true) {front back : List Item} {cast operand : Item}
    (same : first ++ group :: last = front ++ cast :: operand :: back) (isCast : cast.isCast = true)
    (isOperand : operand.isEvaluable = true) {item : Item} (next : item ∈ back.head?)
    (trails : item.trails = true) : Pending todo cast := by
  have whole := h.whole.trans takes.whole_eq
  have notGroup : group.isOperator = false ∧ group.trails = false := by
    have := not_trails_of_isEvaluable evaluable
    exact ⟨this.1, this.2.1⟩
  have notCast : group.isCast = false := by simp [Item.isCast, notGroup.1]
  have split := List.append_eq_append_iff.mp same
  clear same
  rcases split with ⟨front', rfl, same⟩ | ⟨middle, rfl, same⟩
  · -- The cast stands behind what was taken out.
    cases front' with
    | nil =>
      obtain ⟨rfl, -⟩ := List.cons.inj same
      simp [isCast] at notCast
    | cons _ front' =>
      obtain ⟨-, rfl⟩ := List.cons.inj same
      refine h.pending_beside (takes.beside (.inr (by simp))) ?_
      exact tight.casts (first ++ run ++ front') cast operand back (by simp [whole]) isCast isOperand
        ⟨item, next, trails⟩
  -- The cast stands in front of it.
  cases middle with
  | nil =>
    obtain ⟨rfl, -⟩ := List.cons.inj same
    simp [isCast] at notCast
  | cons _ middle =>
  simp only [List.cons_append, List.cons.injEq] at same
  obtain ⟨rfl, same⟩ := same
  refine h.pending_beside (takes.beside (.inl (by simp))) ?_
  cases middle with
  | nil =>
    obtain ⟨-, rfl⟩ := List.cons.inj same
    exact h.pending_cast tight stands free takes rfl isCast next trails
  | cons _ middle =>
  simp only [List.cons_append, List.cons.injEq] at same
  obtain ⟨rfl, rfl⟩ := same
  refine tight.casts front cast operand (middle ++ run ++ last) (by simp [whole]) isCast isOperand
    ⟨item, ?_, trails⟩
  cases middle with
  | nil =>
    cases next
    rw [notGroup.2] at trails
    cases trails
  | cons => simpa using next

end Turn

theorem Tight.begin (builder : Builder) (start : List Item) :
    Tight (ranksOf start) (.begin builder start) := by
  refine ⟨by rintro _ ⟨⟩, fun before cast operand after whole isCast _ _ => ?_,
    fun _ blocked => absurd rfl blocked, fun _ before op after whole leads visited => ?_⟩
  · have mem : cast ∈ start := by simp [show start = before ++ cast :: operand :: after from whole]
    exact pending_ranksOf mem (isOperator_of_isCast isCast)
  · have mem : op ∈ start := by simp [show start = before ++ op :: after from whole]
    exact absurd (pending_ranksOf mem (isOperator_of_leads leads)) visited

/-- Where no operator is any more, only the ranks that are to be visited change. -/
private theorem Tight.skip (h : Tight (rank :: todo) state)
    (none : ∀ item ∈ state.items, item.isOperator = true → item.position ≠ rank.position) :
    Tight todo state := by
  refine ⟨h.high, fun before cast operand after whole isCast evaluable trails => ?_, h.stuck,
    fun untouched before op after whole leads visited => ?_⟩
  · refine (h.casts before cast operand after whole isCast evaluable trails).tail ?_
    exact none cast (by simp [whole]) (isOperator_of_isCast isCast)
  · refine h.waiting untouched before op after whole leads fun pending => visited (pending.tail ?_)
    exact none op (by simp [whole]) (isOperator_of_leads leads)

/-- An operator that is left at its turn, which one before a ready operand is not. -/
private theorem Tight.leave (h : Tight (rank :: todo) state) {op : Item} {occurrence : Occurrence}
    {before after : List Item}
    (turn : Turn registry start done rank todo state op occurrence before after)
    (notReady : occurrence.Stands .leading → beginsReady after = false) {next : Cutting}
    (items : next.items = state.items) (count : next.count = state.count)
    (high : ∀ precedence, next.blocked = some precedence → 15 ≤ precedence)
    (stuck : next.count = 0 → next.blocked ≠ none → ∃ item ∈ state.items, item.leads = true) :
    Tight todo next := by
  have settled := turn.kept.proper.settled
  have opMem : op ∈ state.items := by simp [turn.whole]
  refine ⟨high, fun front cast operand back same isCast evaluable trails => ?_, by rwa [items],
    fun untouched front other back same leads visited => ?_⟩
  · rw [items] at same
    rcases turn.split same with ⟨rfl, rfl, rfl⟩ | beside
    · obtain ⟨-, other, named, stands, -⟩ := stands_of_isCast settled opMem isCast
      rw [turn.named] at named
      cases named
      have := notReady stands
      simp [beginsReady, evaluable] at this
    · exact turn.pending_beside beside
        (h.casts front cast operand back same isCast evaluable trails)
  · rw [items] at same
    rcases turn.split same with ⟨rfl, rfl, rfl⟩ | beside
    · obtain ⟨-, other, named, stands⟩ := stands_of_leads settled opMem leads
      rw [turn.named] at named
      cases named
      exact notReady stands
    · exact h.waiting (count ▸ untouched) front other back same leads fun pending =>
        visited (turn.pending_beside beside pending)

theorem Tight.cut (h : Tight (rank :: todo) state) (kept : Kept registry start (rank :: todo) state)
    (proper : Proper registry start) (ranks : ranksOf start = done ++ rank :: todo)
    (alternates : Alternates state.items) : Tight todo (state.cut rank.position) := by
  rcases kept.cut_cases proper ranks with ⟨same, none⟩ | ⟨op, occurrence, before, after, turn, visit⟩
  · rw [same]
    exact h.skip none
  generalize state.cut rank.position = next at visit ⊢
  cases visit with
  | deferred missing =>
    have isLeading : state.blocked = none → occurrence.Stands .leading := by
      intro free
      obtain ⟨fixity, stands⟩ := turn.exists_stands
      cases fixity with
      | binary =>
        rw [turn.binary_taken alternates free stands] at missing
        cases missing
      | leading => exact stands
      | trailing =>
        cases stands with
        | trailing _ _ behind =>
          have trails : op.trails = true := by simp [trails, turn.isOperator, turn.named, behind]
          rw [turn.trailing_taken trails] at missing
          cases missing
    refine h.leave turn (fun stands => ?_) rfl rfl (fun precedence blocked => ?_)
      fun untouched _ => ?_
    · cases stands with
      | leading notBinary leads =>
        by_contra ready
        have ready : beginsReady after = true := by simpa using ready
        simp [Occurrence.fixityBetween, notBinary, leads, ready] at missing
    · cases old : state.blocked with
      | none =>
        simp only [old, Option.some.injEq, Option.orElse_eq_orElse, Option.orElse_none] at blocked
        cases isLeading old with
        | leading => omega
      | some lower =>
        simp only [old, Option.orElse_eq_orElse, Option.orElse_some, Option.some.injEq] at blocked
        exact blocked ▸ h.high lower old
    · cases old : state.blocked with
      | none =>
        refine ⟨op, by simp [turn.whole], ?_⟩
        cases isLeading old with
        | leading notBinary leads => simp [Item.leads, turn.isOperator, turn.named, notBinary, leads]
      | some lower => exact h.stuck untouched (by simp [old])
  | blocked allowed lower =>
    refine h.leave turn (fun stands => ?_) rfl rfl h.high h.stuck
    cases turn.stands allowed with
    | binary between =>
      cases stands with
      | leading notBinary => simp [between] at notBinary
  | @taken fixity text first run last allowed free takes =>
    refine ⟨h.high, fun front cast operand back same isCast evaluable trailed => ?_,
      fun untouched => absurd untouched (Nat.succ_ne_zero _),
      fun untouched => absurd untouched (Nat.succ_ne_zero _)⟩
    obtain ⟨item, isNext, trails⟩ := trailed
    exact turn.casts_taken h (turn.stands allowed) free takes rfl same isCast evaluable isNext trails

/-- Some operator before its operand is the last one in front of an operand. -/
private theorem exists_leads_ready {op : Item} {after : List Item}
    (settled : ∀ lexeme, .lexeme lexeme ∈ op :: after → lexeme.Settled registry)
    (chain : (op :: after).IsChain Adjacent) (flat : Flat (op :: after)) (leads : op.leads = true)
    (h : turns false after = some true) : ∃ front other back, op :: after = front ++ other :: back ∧
      other.leads = true ∧ beginsReady back = true := by
  induction after generalizing op with
  | nil => cases h
  | cons item rest ih =>
    obtain ⟨isOperator, occurrence, named, stands⟩ :=
      stands_of_leads settled List.mem_cons_self leads
    have notTrailing : op.trails = false := by
      cases stands with
      | leading _ _ notTrailing => simp [trails, named, notTrailing]
    rcases awaited chain flat isOperator notTrailing h with ready | ⟨_, _, same, leads', h⟩
    · exact ⟨[], op, item :: rest, rfl, leads, ready⟩
    · cases same
      obtain ⟨front, other, back, same, ready⟩ :=
        ih (fun lexeme mem => settled lexeme (List.mem_cons_of_mem _ mem)) chain.tail
          (fun item mem => flat item (List.mem_cons_of_mem _ mem)) leads' h
      exact ⟨op :: front, other, back, by rw [same]; rfl, ready⟩

/-- If all operators were visited, one of them was taken out, or there was none. -/
theorem Tight.count_ne_zero (h : Tight [] state) (kept : Kept registry start [] state)
    (alternates : Alternates state.items) {op : Item} (mem : op ∈ start)
    (isOperator : op.isOperator = true) : state.count ≠ 0 := by
  intro untouched
  rw [← kept.untouched untouched] at mem
  have visited : ∀ item, ¬ Pending [] item := by
    rintro item ⟨rank, mem, -⟩
    cases mem
  have stuck : ∃ item ∈ state.items, item.leads = true :=
    h.stuck untouched fun free => visited op (kept.free free op mem isOperator)
  obtain ⟨op, mem, leads⟩ := stuck
  obtain ⟨before, after, whole⟩ := List.append_of_mem mem
  have settled := kept.proper.settled
  have chain := kept.proper.adjacent
  have flat := kept.flat
  obtain ⟨-, occurrence, named, stands⟩ := stands_of_leads settled mem leads
  rw [whole] at settled chain flat alternates
  have later : turns false after = some true := by
    rw [Alternates, turns_append] at alternates
    obtain ⟨ready, -, right⟩ := Option.bind_eq_some_iff.mp alternates
    rw [turns_cons, turn_of_isOperator (isOperator_of_leads leads) named] at right
    cases stands with
    | leading notBinary leads notTrailing =>
      cases ready <;> simp [notBinary, leads, notTrailing] at right
      exact right
  obtain ⟨front, other, back, same, leads, ready⟩ := exists_leads_ready
    (fun lexeme mem => settled lexeme (List.mem_append_right _ mem)) chain.right_of_append
    (fun item mem => flat item (List.mem_append_right _ mem)) leads later
  have := h.waiting untouched (before ++ front) other back (by rw [whole, same]; simp) leads (visited other)
  rw [ready] at this
  cases this

end Builder

end Reckoner
