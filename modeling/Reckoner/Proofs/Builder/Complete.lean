import Reckoner.Proofs.Builder.Nodes

/-!
The end of building. Once no list is left, the only node outside the tree is that of the whole
expression, so that the root can always be put above it.
-/
namespace Reckoner.Builder

open Item

variable {registry : Registry} {builder : Builder}

/-- When no list is left, exactly the list of all lexemes is finished. -/
theorem Scheduled.nodeOf_isSome (h : Scheduled builder []) (list : Nat) :
    (builder.nodeOf list).isSome = true ↔ list = 0 := by
  have once := h.once list
  simp only [needs, List.flatMap_nil, List.count_cons, List.count_nil] at once
  constructor
  · intro some
    by_contra ne
    have : ((0 : Nat) == list) = false := by simpa using Ne.symm ne
    rw [if_pos some, if_neg (by simp [this])] at once
    omega
  · rintro rfl
    by_contra none
    rw [if_neg none] at once
    simp at once

/-- The tree of a builder with the root above one of its nodes. -/
def rooted (builder : Builder) (result : NodeId) : Tree :=
  { (builder.addNode (.alone .root (builder.tree.node result).span (.owned .void)) [result]).2.tree with
    root := some builder.tree.size }

/-- No list is finished any more once the list of all lexemes has given up its node. -/
theorem Scheduled.released (h : Scheduled builder []) :
    ∀ worklist ∈ (builder.release 0).lists.toList, worklist.node = none := by
  intro worklist mem
  obtain ⟨list, lt, rfl⟩ := List.getElem_of_mem mem
  simp only [Array.length_toList] at lt
  have node : (builder.release 0).nodeOf list = ((builder.release 0).lists[list]).node := by
    simp [nodeOf, lt]
  have released : (builder.release 0).nodeOf list = if list = 0 then none else builder.nodeOf list := by
    simpa [releaseAll] using nodeOf_releaseAll builder [0] list
  rw [Array.getElem_toList, ← node, released]
  split
  · rfl
  · next ne => exact Option.not_isSome_iff_eq_none.mp fun some => ne ((h.nodeOf_isSome list).mp some)

/-- Completing cannot fail when no list is left. -/
theorem Scheduled.complete_ok (h : Scheduled builder []) :
    ∃ result, builder.nodeOf 0 = some result ∧
      builder.complete 0 = .ok ((builder.release 0).rooted result) := by
  obtain ⟨result, found⟩ := Option.isSome_iff_exists.mp ((h.nodeOf_isSome 0).mpr rfl)
  refine ⟨result, found, ?_⟩
  have none : (builder.release 0).lists.toList.countP (·.node.isSome) = 0 :=
    List.countP_eq_zero.mpr fun worklist mem isSome => by simp [h.released worklist mem] at isSome
  simp only [nodeOf] at found
  simp only [release] at none
  simp only [complete, takeNode, found, bind, Except.bind, none, ne_eq, not_true_eq_false, if_false,
    pure, Except.pure]
  rfl

/-- Building fails where the run over the lists does, and else puts a root above the one node left. -/
theorem build_cases (source : String) (lexemes : List Lexeme) (limit : Nat) :
    (∃ error, Schedule.run limit limit ⟨start source lexemes, [0], 0⟩ = .error error ∧
        Tree.build source lexemes limit = .error error) ∨
      ∃ built result, Schedule.run limit limit ⟨start source lexemes, [0], 0⟩ = .ok built ∧
        Scheduled built [] ∧ built.nodeOf 0 = some result ∧
        Tree.build source lexemes limit = .ok ((built.release 0).rooted result) := by
  simp only [Tree.build, bind, Except.bind]
  cases ran : Schedule.run limit limit ⟨start source lexemes, [0], 0⟩ with
  | error error => exact .inl ⟨error, rfl, rfl⟩
  | ok built =>
    have scheduled := scheduled_of_run (scheduled_start source lexemes) ran
    obtain ⟨result, found, complete⟩ := scheduled.complete_ok
    exact .inr ⟨built, result, rfl, scheduled, found, complete⟩

/-- With the root put above the one node that is left, all nodes hang below it. -/
theorem Grown.hung {result : NodeId} (h : Grown builder [result]) (none : builder.finishedNodes = []) :
    (builder.rooted result).Hung builder.tree.size result := by
  have small : ∀ child : Nat, child ∈ [result] → child < builder.tree.size := fun child mem =>
    h.bound mem
  let root : Node := .alone .root (builder.tree.node result).span (.owned .void)
  have node : ∀ {id : Nat}, id < builder.tree.size + 1 → (builder.rooted result).node id = _ :=
    fun lt => node_addNode root small lt
  have grown : Grown (builder.addNode root [result]).2 [builder.tree.size] := Grown.addNode h rfl
  refine ⟨size_addNode .., rfl, ?_, ?_, grown.descending, ?_⟩
  · rw [node (Nat.lt_succ_self _), if_pos rfl]
    rfl
  · rw [node (Nat.lt_succ_self _), if_pos rfl]
    rfl
  · have conserved := grown.conserved
    rw [show (builder.addNode root [result]).2.finishedNodes = [] from none, size_addNode,
      List.range_succ, List.append_nil] at conserved
    exact (List.perm_append_right_iff _).mp conserved

/-- Below the root the nodes are as they were, but for the parent of one. -/
theorem Grown.holds_rooted {result : NodeId} (h : Grown builder [result]) {P : Node → Prop}
    (adopted : ∀ node parent, P node → P { node with parent := parent })
    (all : ∀ id : Nat, id < builder.tree.size → P (builder.tree.node id)) {id : Nat}
    (lt : id < builder.tree.size) : P ((builder.rooted result).node id) := by
  have small : ∀ child : Nat, child ∈ [result] → child < builder.tree.size := fun child mem =>
    h.bound mem
  let root : Node := .alone .root (builder.tree.node result).span (.owned .void)
  have same : (builder.rooted result).node id = _ := node_addNode root small (Nat.lt_succ_of_lt lt)
  rw [same, if_neg (Nat.ne_of_lt lt)]
  exact adopted _ _ (all id lt)

/-- If its nodes are sound, the tree is formed. -/
theorem Grown.formed {result : NodeId} (h : Grown builder [result]) (none : builder.finishedNodes = [])
    (sound : ∀ id : Nat, id < builder.tree.size → (builder.tree.node id).Sound registry) :
    (builder.rooted result).Formed registry builder.tree.size result :=
  ⟨h.hung none, fun _ lt => @Grown.holds_rooted _ _ h (Node.Sound registry) (fun _ _ sound => sound) sound _ lt⟩

theorem grown_start (source : String) (lexemes : List Lexeme) : Grown (start source lexemes) [] := by
  refine ⟨fun id child mem => ?_, List.Perm.refl []⟩
  rw [Tree.children_eq_nil_of_size_le (Nat.zero_le _)] at mem
  cases mem

theorem grown_of_run {source : String} {lexemes : List Lexeme} {limit : Nat} {built : Builder}
    (ran : Schedule.run limit limit ⟨start source lexemes, [0], 0⟩ = .ok built) : Grown built [] :=
  (@run_induction (fun builder _ => Grown builder [])
    (fun _ _ _ _ scheduled grown passed => passed.grown scheduled grown)
    _ _ _ _ (scheduled_start source lexemes) (grown_start source lexemes) ran).2

/-- Whatever is built from settled lexemes is a formed tree. -/
theorem formed_of_build {source : String} {lexemes : List Lexeme} {passLimit : Nat} {tree : Tree}
    (settled : ∀ lexeme ∈ lexemes, lexeme.Settled registry)
    (h : Tree.build source lexemes passLimit = .ok tree) :
    ∃ root result, tree.Formed registry root result := by
  rcases build_cases source lexemes passLimit with ⟨_, -, failed⟩ | ⟨built, result, ran, _, found, done⟩
  · rw [failed] at h
    cases h
  rw [done] at h
  cases h
  have stocked : Stocked registry (start source lexemes) := by
    refine ⟨fun list lexeme mem => ?_, fun id lt => absurd lt (Nat.not_lt_zero _)⟩
    have inLexemes : Item.lexeme lexeme ∈ lexemes.map Item.lexeme := by
      rcases list with _ | list
      · exact mem
      · rw [itemsOf_of_size_le _ (by simp [start, addList])] at mem
        cases mem
    exact settled lexeme (by simpa using inLexemes)
  obtain ⟨scheduled, grown, stocked⟩ := @run_induction
    (fun builder _ => Grown builder [] ∧ Stocked registry builder)
    (fun _ _ _ _ scheduled kept passed => passed.grown_stocked scheduled kept.1 kept.2)
    _ _ _ _ (scheduled_start source lexemes) ⟨grown_start source lexemes, stocked⟩ ran
  have none := List.filterMap_eq_nil_iff.mpr scheduled.released
  exact ⟨_, _, (grown.release found).formed none stocked.nodes⟩

end Reckoner.Builder
