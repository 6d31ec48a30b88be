import Reckoner.Proofs.Builder.Complete
import Reckoner.Proofs.Builder.Terms
import Reckoner.Proofs.Builder.Totality

/-!
What the lists mean from pass to pass. A list means what is read in it as long as it is in the queue, and
the term of its node once it is finished. A pass that fails does so because its list means nothing, and then
none of the lists that need it means anything, up to the list of all lexemes.
-/
namespace Reckoner.Builder

open Item

/-- Every list has its meaning, whether it waits in the queue or is finished. -/
structure Meant (registry : Registry) (meaning : ListId → Option Term) (builder : Builder)
    (queue : List ListId) : Prop where
  proper : ∀ list ∈ queue, Proper registry (builder.itemsOf list)
  queued : ∀ list ∈ queue, Item.read meaning (builder.itemsOf list) = meaning list
  finished : ∀ list, Means meaning builder list
  grown : Grown builder []

variable {registry : Registry} {meaning : ListId → Option Term} {builder : Builder} {list : Nat}
  {rest : List ListId} {next : Schedule}

theorem Scheduled.lt_size {queue : List ListId} (h : Scheduled builder queue) {first : ListId} {other : Nat}
    (queued : first ∈ queue) (needed : other ∈ references (builder.itemsOf first)) :
    other < builder.lists.size := by
  have inNeeds : 0 < (builder.needs queue).count other :=
    List.count_pos_iff.mpr (List.mem_cons_of_mem _ (List.mem_flatMap.mpr ⟨first, queued, needed⟩))
  by_contra large
  have absent : other ∉ queue := fun mem => large (h.pending other mem).1
  rw [h.once other, List.count_eq_zero.mpr absent,
    nodeOf_of_size_le builder (Nat.not_lt.mp large)] at inNeeds
  simp at inNeeds

/-- Lists that a list is divided into get their meaning from what is read in them. -/
private theorem Meant.divide (meant : Meant registry meaning builder (list :: rest))
    (scheduled : Scheduled builder (list :: rest)) {left : List Item} {news : List (List Item × Span)}
    (faithful : Faithful registry builder.lists.size (builder.itemsOf list) left news) :
    ∃ meaning' : ListId → Option Term, Meant registry meaning' ((builder.append news).setItems list left)
        (List.range' builder.lists.size news.length ++ list :: rest) ∧
      ∀ other : Nat, other < builder.lists.size → meaning' other = meaning other := by
  obtain ⟨bound, -⟩ := scheduled.pending list List.mem_cons_self
  obtain ⟨meaning', old, explains⟩ := exists_explains meaning builder.lists.size news
    fun index new found other needed => by
      rcases faithful.earlier index new found other needed with inItems | lower
      · exact Nat.lt_add_right _ (scheduled.bound_references inItems)
      · exact lower
  have kept : ∀ other ∈ list :: rest,
      Item.read meaning' (builder.itemsOf other) = Item.read meaning (builder.itemsOf other) :=
    fun other mem => read_congr fun item inItems needed isNeeded =>
      old needed (scheduled.lt_size mem (List.mem_flatMap.mpr ⟨item, inItems, isNeeded⟩))
  have each : ∀ other ∈ List.range' builder.lists.size news.length ++ list :: rest,
      Proper registry (((builder.append news).setItems list left).itemsOf other) ∧
        Item.read meaning' (((builder.append news).setItems list left).itemsOf other) =
          meaning' other := by
    intro other mem
    rcases scheduled.itemsOf_divided left news mem with
      ⟨index, lt, rfl, isNew⟩ | ⟨rfl, isLeft⟩ | ⟨later, same⟩
    · rw [isNew]
      exact ⟨faithful.proper_news _ (List.getElem_mem lt),
        (explains index _ (List.getElem?_eq_getElem lt)).symm⟩
    · rw [isLeft, old _ bound, ← meant.queued _ List.mem_cons_self, ← kept _ List.mem_cons_self]
      exact ⟨faithful.proper_left, faithful.read_eq meaning' explains⟩
    · have queued := List.mem_cons_of_mem list later
      rw [same, old other (scheduled.pending other queued).1, ← meant.queued other queued, ← kept other queued]
      exact ⟨meant.proper other queued, rfl⟩
  refine ⟨meaning', ⟨fun other mem => (each other mem).1, fun other mem => (each other mem).2,
    fun other node found => ?_, (meant.grown.append news).setItems list left⟩, old⟩
  rw [nodeOf_setItems, nodeOf_append] at found
  rw [old other (lt_size_of_nodeOf builder found), tree_setItems, tree_append]
  exact meant.finished other node found

theorem Bare.faithful {items : List Item} (h : Bare builder list items)
    (proper : Proper registry (builder.itemsOf list)) :
    Faithful registry builder.lists.size (builder.itemsOf list) items [] := by
  cases h with
  | whole => exact .refl _ proper
  | grouped _ grouping => exact grouping.faithful proper

/-- A pass keeps what the list of all lexemes means. -/
theorem Passed.meant (h : Passed builder list rest next) (scheduled : Scheduled builder (list :: rest))
    (meant : Meant registry meaning builder (list :: rest)) :
    ∃ meaning' : ListId → Option Term, Meant registry meaning' next.builder next.queue ∧
      meaning' 0 = meaning 0 := by
  obtain ⟨bound, unfinished⟩ := scheduled.pending list List.mem_cons_self
  have proper := meant.proper list List.mem_cons_self
  cases h with
  | @divided after _ news processed _ made =>
    obtain ⟨left, news', faithful, made'⟩ := processed.faithful bound proper
    have sizes := congrArg (fun builder : Builder => builder.lists.size) (made.symm.trans made')
    simp only [size_setItems, size_append, Nat.add_left_cancel_iff] at sizes
    obtain ⟨meaning', meant', old⟩ := meant.divide scheduled faithful
    rw [sizes, made']
    exact ⟨meaning', meant', old 0 (Nat.zero_lt_of_lt bound)⟩
  | @linked items node after bare link =>
    have faithful := bare.faithful proper
    have same : Item.read meaning items = meaning list := by
      rw [faithful.read_eq meaning (by simp [Explains]), meant.queued list List.mem_cons_self]
    have means : ∀ other, Means meaning (builder.setItems list items) other := by
      intro other node found
      rw [nodeOf_setItems] at found
      exact meant.finished other node found
    have grown := meant.grown.setItems list items
    obtain ⟨keeps, read⟩ := link.term faithful.proper_left grown fun other _ => means other
    have size : after.lists.size = builder.lists.size := by
      rw [link.size_eq, size_setItems]
    have old : ∀ other node, after.nodeOf other = some node →
        (builder.setItems list items).nodeOf other = some node := by
      intro other node found
      rw [nodeOf_congr link.lists_eq, nodeOf_releaseAll] at found
      split at found
      · cases found
      · exact found
    have unfinished' : after.nodeOf list = none := by
      rw [nodeOf_congr link.lists_eq, nodeOf_releaseAll, nodeOf_setItems, unfinished, ite_self]
    refine ⟨meaning, ⟨fun other mem => ?_, fun other mem => ?_, fun other found isFound => ?_,
      (link.grown grown).finish (size ▸ bound) unfinished'⟩, rfl⟩
    · rw [scheduled.itemsOf_linked link mem]
      exact meant.proper other (List.mem_cons_of_mem _ mem)
    · rw [scheduled.itemsOf_linked link mem]
      exact meant.queued other (List.mem_cons_of_mem _ mem)
    · rw [nodeOf_finish _ (size ▸ bound)] at isFound
      split at isFound
      · next same' =>
        cases isFound
        rw [same', ← same, read, tree_finish]
      · exact (means other).keep grown keeps (old other) found isFound

/-- A list that means nothing is needed by others that mean nothing, up to the list of all lexemes. -/
theorem Meant.unread {queue : List ListId} (meant : Meant registry meaning builder queue)
    (scheduled : Scheduled builder queue) {front back : List ListId} {list : Nat}
    (whole : queue = front ++ list :: back) (unread : meaning list = none) : meaning 0 = none := by
  -- The list that needs it stands behind it in the queue.
  induction measure : back.length using Nat.strongRecOn generalizing front list back with
  | ind size ih =>
    have queued : list ∈ queue := by simp [whole]
    have once := scheduled.once list
    rw [List.count_eq_one_of_mem scheduled.unique queued, (scheduled.pending list queued).2] at once
    have needed : list ∈ builder.needs queue := by
      refine List.count_pos_iff.mp ?_
      rw [once]
      exact Nat.zero_lt_succ _
    rcases List.mem_cons.mp needed with rfl | needed
    · exact unread
    obtain ⟨other, isQueued, needed⟩ := List.mem_flatMap.mp needed
    have unread' : meaning other = none := by
      obtain ⟨item, inItems, inLists⟩ := List.mem_flatMap.mp needed
      rw [← meant.queued other isQueued]
      exact read_eq_none_of_unknown inItems (token_eq_unknown inLists unread)
    have inOrder := scheduled.inOrder
    rw [whole] at inOrder isQueued
    rcases List.mem_append.mp isQueued with before | behind
    · have apart := (List.pairwise_append.mp inOrder).2.2 other before list List.mem_cons_self
      exact absurd needed apart
    rcases List.mem_cons.mp behind with rfl | behind
    · exact absurd needed (scheduled.apart other queued)
    obtain ⟨front', back', rfl⟩ := List.append_of_mem behind
    refine ih back'.length ?_ (show queue = (front ++ list :: front') ++ other :: back' by simp [whole])
      unread' rfl
    rw [← measure, List.length_append, List.length_cons]
    omega

theorem process_error {schedule : Schedule} (scheduled : Scheduled schedule.builder (list :: rest))
    {error : CompileError} (h : schedule.pass list rest = .error error) :
    ∃ error, schedule.builder.process list = .error error := by
  rcases bind_eq_error.mp h with failed | ⟨⟨step, after⟩, ran, h⟩
  · exact ⟨error, failed⟩
  · cases step with
    | waiting => exact ((process_ok ran).not_waiting scheduled).elim
    | progress | done => cases h

/-- Every list has its meaning, and this is what the list of all lexemes means. -/
def Denotes (registry : Registry) (read : Option Term) (builder : Builder) (queue : List ListId) : Prop :=
  ∃ meaning, Meant registry meaning builder queue ∧ meaning 0 = read

theorem Passed.denotes {read : Option Term} (builder : Builder) (list : Nat) (rest : List ListId)
    (next : Schedule) (scheduled : Scheduled builder (list :: rest))
    (denotes : Denotes registry read builder (list :: rest)) (passed : Passed builder list rest next) :
    Denotes registry read next.builder next.queue := by
  obtain ⟨meaning, meant, same⟩ := denotes
  obtain ⟨meaning', meant', same'⟩ := passed.meant scheduled meant
  exact ⟨meaning', meant', same'.trans same⟩

/-- Passes fail only if there were too many, or the list of all lexemes means nothing. -/
theorem run_error {limit left : Nat} {schedule : Schedule} {error : CompileError}
    (scheduled : Scheduled schedule.builder schedule.queue)
    (meant : Meant registry meaning schedule.builder schedule.queue)
    (h : Schedule.run limit left schedule = .error error) :
    error.cause = .passLimitExceeded limit ∨ meaning 0 = none := by
  rcases @run_error_cases (Denotes registry (meaning 0)) Passed.denotes _ _ _ _ scheduled
      ⟨meaning, meant, rfl⟩ h with
    cutOff | ⟨last, list, rest, scheduled, ⟨meaning', meant', same⟩, failed⟩
  · exact .inl cutOff
  obtain ⟨failure, failed⟩ := process_error scheduled failed
  right
  rw [← same]
  refine @Meant.unread _ _ _ _ meant' scheduled [] rest list rfl ?_
  rw [← meant'.queued list List.mem_cons_self]
  by_contra some
  obtain ⟨term, means⟩ := Option.ne_none_iff_exists'.mp some
  obtain ⟨reply, done⟩ := process_total scheduled (meant'.proper list List.mem_cons_self) means
  rw [failed] at done
  cases done

/-- All lexemes together mean what the machine reads in them. -/
theorem meant_start (source : String) {lexemes : List Lexeme}
    (proper : Proper registry (lexemes.map .lexeme)) :
    Meant registry (fun _ => (Machine.before []).run (lexemes.map Lexeme.token)) (start source lexemes)
      [0] := by
  have items : (start source lexemes).itemsOf 0 = lexemes.map .lexeme := rfl
  refine ⟨fun list mem => ?_, fun list mem => ?_, fun list node found => ?_, ?_⟩
  · rw [List.mem_singleton.mp mem, items]
    exact proper
  · rw [List.mem_singleton.mp mem, items, Item.read, List.map_map]
    rfl
  · rw [nodeOf_start] at found
    cases found
  · exact grown_start source lexemes

/-- The root is put above the term of the node that is left. -/
theorem Grown.term?_rooted {result : NodeId} (h : Grown builder [result]) :
    (builder.rooted result).term? = some (builder.tree.term result) := by
  let root : Node := .alone .root (builder.tree.node result).span (.owned .void)
  have bound := h.bound List.mem_cons_self
  have small : ∀ child : Nat, child ∈ [result] → child < builder.tree.size := fun child mem => h.bound mem
  have size := size_addNode builder root [result]
  have node : ∀ {id : Nat}, id < builder.tree.size + 1 → (builder.rooted result).node id = _ :=
    fun lt => node_addNode root small lt
  have children : (builder.rooted result).result? = some result := by
    change ((builder.rooted result).node builder.tree.size).children.head? = _
    rw [node (Nat.lt_succ_self _), if_pos rfl]
    rfl
  have descending : (builder.rooted result).Descending := (h.addNode (show root.children = [] from rfl)).descending
  rw [Tree.term?, children, Option.map_some]
  refine congrArg some (Tree.term_congr h.descending descending (Nat.le_refl _)
    (by have : (builder.rooted result).size = builder.tree.size + 1 := size; omega) (fun id lt => ?_) bound)
  rw [node (by omega), if_neg (by omega)]
  exact ⟨rfl, rfl⟩

variable {source : String} {lexemes : List Lexeme} {limit : Nat}

/-- A tree that is built stands for what the machine reads. -/
theorem term?_of_build {tree : Tree} (proper : Proper registry (lexemes.map .lexeme))
    (h : Tree.build source lexemes limit = .ok tree) :
    ∃ term, tree.term? = some term ∧ (Machine.before []).run (lexemes.map Lexeme.token) = some term := by
  rcases build_cases source lexemes limit with ⟨_, -, failed⟩ | ⟨built, result, ran, -, found, done⟩
  · rw [failed] at h
    cases h
  rw [done] at h
  cases h
  obtain ⟨-, meaning, meant, same⟩ := @run_induction (Denotes registry _) Passed.denotes
    _ _ _ _ (scheduled_start source lexemes) ⟨_, meant_start source proper, rfl⟩ ran
  refine ⟨_, (meant.grown.release found).term?_rooted, ?_⟩
  rw [← same]
  exact meant.finished 0 result found

/-- Where something can be read, only too many passes keep a tree from being built. -/
theorem build_error {error : CompileError} (proper : Proper registry (lexemes.map .lexeme))
    (h : Tree.build source lexemes limit = .error error) :
    error.cause = .passLimitExceeded limit ∨
      (Machine.before []).run (lexemes.map Lexeme.token) = none := by
  rcases build_cases source lexemes limit with ⟨other, ran, failed⟩ | ⟨_, _, _, _, _, done⟩
  · rw [failed] at h
    cases h
    exact run_error (scheduled_start source lexemes) (meant_start source proper) ran
  · rw [done] at h
    cases h

end Reckoner.Builder
