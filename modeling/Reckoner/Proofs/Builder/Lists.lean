import Mathlib.Data.List.Basic
import Reckoner.Proofs.Outcome
import Reckoner.Tree.Build

/-!
What the builder's operations do to its lists. A list is seen through its members and the node it has
become; adding lists changes neither for the lists there were, and every other operation changes one
list only.
-/
namespace Reckoner.Builder

/-- The node that a finished list has become, until it is taken. -/
def nodeOf (builder : Builder) (list : ListId) : Option NodeId :=
  (builder.lists[list]?).bind (·.node)

/-- Adds several lists one after the other. -/
def append (builder : Builder) (news : List (List Item × Span)) : Builder :=
  news.foldl (fun builder new => builder.addList new.1 new.2) builder

/-- Forgets the node of a list. -/
def release (builder : Builder) (list : ListId) : Builder :=
  { builder with lists := builder.lists.modify list fun l => { l with node := none } }

/-- Forgets the nodes of several lists. -/
def releaseAll (builder : Builder) (lists : List ListId) : Builder :=
  lists.foldl release builder

variable (builder : Builder)

@[simp] theorem append_nil : builder.append [] = builder := rfl

@[simp] theorem append_cons (new : List Item × Span) (news : List (List Item × Span)) :
    builder.append (new :: news) = (builder.addList new.1 new.2).append news := rfl

theorem append_append (first second : List (List Item × Span)) :
    builder.append (first ++ second) = (builder.append first).append second :=
  List.foldl_append

theorem addLists_eq (runs : List (List Item)) :
    builder.addLists runs = builder.append (runs.map fun run => (run, Item.spanOf run)) := by
  simp [addLists, append, List.foldl_map]

@[simp] theorem tree_append (news : List (List Item × Span)) :
    (builder.append news).tree = builder.tree := by
  induction news generalizing builder with
  | nil => rfl
  | cons new news ih => exact ih _

@[simp] theorem size_append (news : List (List Item × Span)) :
    (builder.append news).lists.size = builder.lists.size + news.length := by
  induction news generalizing builder with
  | nil => rfl
  | cons new news ih =>
    rw [append_cons, ih]
    simp [addList]
    omega

theorem itemsOf_addList (items : List Item) (span : Span) (list : Nat) :
    (builder.addList items span).itemsOf list =
      if list = builder.lists.size then items else builder.itemsOf list := by
  simp only [itemsOf, addList, Array.getElem?_push]
  split <;> simp

theorem nodeOf_addList (items : List Item) (span : Span) (list : Nat) :
    (builder.addList items span).nodeOf list = builder.nodeOf list := by
  simp only [nodeOf, addList, Array.getElem?_push]
  split
  · next same => simp [same]
  · rfl

theorem spanOf_addList (items : List Item) (span : Span) (list : Nat) :
    (builder.addList items span).spanOf list =
      if list = builder.lists.size then span else builder.spanOf list := by
  simp only [spanOf, addList, Array.getElem?_push]
  split <;> simp

/-- Adding lists leaves the members of the others alone. -/
theorem itemsOf_append_of_lt {list : Nat} (h : list < builder.lists.size)
    (news : List (List Item × Span)) :
    (builder.append news).itemsOf list = builder.itemsOf list := by
  induction news generalizing builder with
  | nil => rfl
  | cons new news ih =>
    rw [append_cons, ih _ (by simp [addList]; omega), itemsOf_addList, if_neg (by omega)]

/-- The added lists have the given members, in order. -/
theorem itemsOf_append_add (news : List (List Item × Span)) (index : Nat) :
    (builder.append news).itemsOf (builder.lists.size + index) =
      (news[index]?).elim (builder.itemsOf (builder.lists.size + index)) (·.1) := by
  induction news generalizing builder index with
  | nil => rfl
  | cons new news ih =>
    rw [append_cons]
    cases index with
    | zero =>
      rw [itemsOf_append_of_lt _ (by simp [addList])]
      simp [itemsOf_addList]
    | succ index =>
      have shift : builder.lists.size + (index + 1) =
          (builder.addList new.1 new.2).lists.size + index := by
        simp [addList]
        omega
      rw [shift, ih]
      simp only [itemsOf_addList, List.getElem?_cons_succ]
      rw [if_neg (by simp [addList]; omega)]

@[simp] theorem nodeOf_append (news : List (List Item × Span)) (list : ListId) :
    (builder.append news).nodeOf list = builder.nodeOf list := by
  induction news generalizing builder with
  | nil => rfl
  | cons new news ih => rw [append_cons, ih, nodeOf_addList]

theorem itemsOf_of_size_le {list : Nat} (h : builder.lists.size ≤ list) :
    builder.itemsOf list = [] := by
  simp [itemsOf, Array.getElem?_eq_none h]

theorem nodeOf_of_size_le {list : Nat} (h : builder.lists.size ≤ list) :
    builder.nodeOf list = none := by
  simp [nodeOf, Array.getElem?_eq_none h]

theorem lt_size_of_nodeOf {list : Nat} {node : NodeId} (h : builder.nodeOf list = some node) :
    list < builder.lists.size := by
  by_contra large
  rw [nodeOf_of_size_le builder (by omega)] at h
  cases h

theorem lt_size_of_itemsOf {list : Nat} (some : builder.itemsOf list ≠ []) :
    list < builder.lists.size := by
  by_contra large
  exact some (itemsOf_of_size_le builder (Nat.not_lt.mp large))

private theorem modify_of_size_le {lists : Array WorkList} {list : Nat} (large : lists.size ≤ list)
    (change : WorkList → WorkList) : lists.modify list change = lists := by
  refine Array.ext_getElem? fun index => ?_
  rw [Array.getElem?_modify]
  split
  · next same =>
    subst same
    rw [Array.getElem?_eq_none large]
    rfl
  · rfl

theorem setItems_of_size_le {list : Nat} (large : builder.lists.size ≤ list) (items : List Item) :
    builder.setItems list items = builder :=
  congrArg (Builder.mk _ · _) (modify_of_size_le large _)

theorem finish_of_size_le {list : Nat} (large : builder.lists.size ≤ list) (node : NodeId) :
    builder.finish list node = builder :=
  congrArg (Builder.mk _ · _) (modify_of_size_le large _)

@[simp] theorem size_setItems (list : ListId) (items : List Item) :
    (builder.setItems list items).lists.size = builder.lists.size := by
  simp [setItems]

@[simp] theorem tree_setItems (list : ListId) (items : List Item) :
    (builder.setItems list items).tree = builder.tree := rfl

@[simp] theorem nodeOf_setItems (list other : ListId) (items : List Item) :
    (builder.setItems list items).nodeOf other = builder.nodeOf other := by
  simp only [nodeOf, setItems, Array.getElem?_modify]
  split
  · cases builder.lists[other]? <;> rfl
  · rfl

@[simp] theorem spanOf_setItems (list other : ListId) (items : List Item) :
    (builder.setItems list items).spanOf other = builder.spanOf other := by
  simp only [spanOf, setItems, Array.getElem?_modify]
  split
  · cases builder.lists[other]? <;> rfl
  · rfl

theorem itemsOf_setItems {list : Nat} (h : list < builder.lists.size) (other : Nat)
    (items : List Item) :
    (builder.setItems list items).itemsOf other =
      if other = list then items else builder.itemsOf other := by
  simp only [itemsOf, setItems, Array.getElem?_modify]
  rcases eq_or_ne list other with rfl | ne
  · simp [h]
  · simp [ne, ne.symm]

@[simp] theorem size_finish (list : ListId) (node : NodeId) :
    (builder.finish list node).lists.size = builder.lists.size := by
  simp [finish]

@[simp] theorem tree_finish (list : ListId) (node : NodeId) :
    (builder.finish list node).tree = builder.tree := rfl

@[simp] theorem spanOf_finish (list other : ListId) (node : NodeId) :
    (builder.finish list node).spanOf other = builder.spanOf other := by
  simp only [spanOf, finish, Array.getElem?_modify]
  split
  · cases builder.lists[other]? <;> rfl
  · rfl

theorem itemsOf_finish (list other : ListId) (node : NodeId) :
    (builder.finish list node).itemsOf other =
      if other = list then [] else builder.itemsOf other := by
  simp only [itemsOf, finish, Array.getElem?_modify]
  rcases eq_or_ne list other with rfl | ne
  · cases builder.lists[list]? <;> simp
  · simp [ne, ne.symm]

theorem nodeOf_finish {list : Nat} (h : list < builder.lists.size) (other : Nat) (node : NodeId) :
    (builder.finish list node).nodeOf other =
      if other = list then some node else builder.nodeOf other := by
  simp only [nodeOf, finish, Array.getElem?_modify]
  rcases eq_or_ne list other with rfl | ne
  · simp [h]
  · simp [ne, ne.symm]

@[simp] theorem size_releaseAll (lists : List ListId) :
    (builder.releaseAll lists).lists.size = builder.lists.size := by
  induction lists generalizing builder with
  | nil => rfl
  | cons list rest ih => exact (ih (builder.release list)).trans (by simp [release])

@[simp] theorem tree_releaseAll (lists : List ListId) :
    (builder.releaseAll lists).tree = builder.tree := by
  induction lists generalizing builder with
  | nil => rfl
  | cons list rest ih => exact ih (builder.release list)

@[simp] theorem itemsOf_releaseAll (lists : List ListId) (other : ListId) :
    (builder.releaseAll lists).itemsOf other = builder.itemsOf other := by
  induction lists generalizing builder with
  | nil => rfl
  | cons list rest ih =>
    refine (ih (builder.release list)).trans ?_
    simp only [itemsOf, release, Array.getElem?_modify]
    split
    · cases builder.lists[other]? <;> rfl
    · rfl

@[simp] theorem spanOf_release (list other : ListId) :
    (builder.release list).spanOf other = builder.spanOf other := by
  simp only [spanOf, release, Array.getElem?_modify]
  split
  · cases builder.lists[other]? <;> rfl
  · rfl

theorem nodeOf_release (list other : ListId) :
    (builder.release list).nodeOf other =
      if other = list then none else builder.nodeOf other := by
  simp only [nodeOf, release, Array.getElem?_modify]
  rcases eq_or_ne list other with rfl | ne
  · cases builder.lists[list]? <;> simp
  · simp [ne, ne.symm]

theorem nodeOf_releaseAll (lists : List ListId) (other : ListId) :
    (builder.releaseAll lists).nodeOf other =
      if other ∈ lists then none else builder.nodeOf other := by
  induction lists generalizing builder with
  | nil => simp [releaseAll]
  | cons list rest ih =>
    refine (ih (builder.release list)).trans ?_
    rw [nodeOf_release]
    by_cases later : other ∈ rest <;> by_cases same : other = list <;> simp [later, same]

theorem isReady_iff (item : Item) :
    builder.isReady item = true ↔ ∀ list ∈ item.lists, (builder.nodeOf list).isSome := by
  simp only [isReady, List.all_eq_true, nodeOf]
  refine forall₂_congr fun list _ => ?_
  cases builder.lists[list]? <;> simp

/-- The node of a list can be taken if there is one, and then it is gone. -/
theorem takeNode_eq_ok {list : ListId} {span : Span} {node : NodeId} {after : Builder} :
    builder.takeNode list span = .ok (node, after) ↔
      builder.nodeOf list = some node ∧ builder.release list = after := by
  simp only [takeNode, nodeOf]
  cases (builder.lists[list]?).bind (·.node) with
  | none => simp
  | some other => simp [release]

/-- Taking the nodes of several lists succeeds only if each has one and none is named twice. -/
theorem takeNodes_ok {span : Span} {lists : List ListId} {nodes : List NodeId} {after : Builder}
    (h : builder.takeNodes span lists = .ok (nodes, after)) :
    lists.Nodup ∧ lists.map builder.nodeOf = nodes.map some ∧ after = builder.releaseAll lists := by
  induction lists generalizing builder nodes after with
  | nil =>
    cases h
    exact ⟨List.nodup_nil, rfl, rfl⟩
  | cons list rest ih =>
    rw [takeNodes] at h
    obtain ⟨⟨node, between⟩, took, h⟩ := bind_eq_ok.mp h
    obtain ⟨⟨others, last⟩, taken, h⟩ := bind_eq_ok.mp h
    cases h
    obtain ⟨found, rfl⟩ := (builder.takeNode_eq_ok).mp took
    obtain ⟨unique, read, rfl⟩ := ih _ taken
    have fresh : list ∉ rest := by
      intro mem
      have : (builder.release list).nodeOf list ∈ others.map some :=
        read ▸ List.mem_map_of_mem mem
      simp [nodeOf_release] at this
    refine ⟨List.nodup_cons.mpr ⟨fresh, unique⟩, ?_, rfl⟩
    rw [List.map_cons, List.map_cons, ← read]
    refine congrArg₂ _ found (List.map_congr_left fun other mem => ?_)
    rw [nodeOf_release, if_neg (ne_of_mem_of_not_mem mem fresh)]

/-- Taking the nodes of several lists succeeds if each has one and none is named twice. -/
theorem takeNodes_total (span : Span) {lists : List ListId} (unique : lists.Nodup)
    (ready : ∀ list ∈ lists, (builder.nodeOf list).isSome) :
    ∃ nodes, builder.takeNodes span lists = .ok (nodes, builder.releaseAll lists) := by
  induction lists generalizing builder with
  | nil => exact ⟨[], rfl⟩
  | cons list rest ih =>
    obtain ⟨fresh, unique⟩ := List.nodup_cons.mp unique
    obtain ⟨node, found⟩ := Option.isSome_iff_exists.mp (ready list List.mem_cons_self)
    obtain ⟨nodes, taken⟩ := ih (builder.release list) unique fun other mem => by
      rw [nodeOf_release, if_neg (ne_of_mem_of_not_mem mem fresh)]
      exact ready other (List.mem_cons_of_mem _ mem)
    have took : builder.takeNode list span = .ok (node, builder.release list) :=
      (takeNode_eq_ok builder).mpr ⟨found, rfl⟩
    exact ⟨node :: nodes, bind_eq_ok.mpr ⟨_, took, bind_eq_ok.mpr ⟨_, taken, rfl⟩⟩⟩

end Reckoner.Builder
