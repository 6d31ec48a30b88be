import Reckoner.Proofs.Builder.Linking

/-!
The order in which lists are looked at. Every list is needed in one place: by a member of a list that
waits, or, for the list of all lexemes, by the tree. A list never needs itself or one behind it in the
queue, so that the list in front can always be reduced, and when the queue is empty one node is left.
-/
namespace Reckoner.Builder

open Item

/-- The lists that the members of the queued lists need, and the one that the tree needs. -/
def needs (builder : Builder) (queue : List ListId) : List ListId :=
  0 :: queue.flatMap fun list => references (builder.itemsOf list)

/-- The queue is in order: what a list in it needs is finished or in front of it, and every list
that is queued or finished is needed once. -/
structure Scheduled (builder : Builder) (queue : List ListId) : Prop where
  unique : queue.Nodup
  pending : ∀ list : Nat, list ∈ queue → list < builder.lists.size ∧ builder.nodeOf list = none
  once : ∀ list : Nat, (builder.needs queue).count list =
    queue.count list + if (builder.nodeOf list).isSome then 1 else 0
  inOrder : queue.Pairwise fun first later => later ∉ references (builder.itemsOf first)
  apart : ∀ list ∈ queue, list ∉ references (builder.itemsOf list)

theorem itemsOf_divided_new (builder : Builder) (list : Nat) (left : List Item)
    (news : List (List Item × Span)) {index : Nat} (bound : index < news.length)
    (old : list < builder.lists.size) :
    ((builder.append news).setItems list left).itemsOf (builder.lists.size + index) =
      news[index].1 := by
  have ne : builder.lists.size + index ≠ list :=
    Nat.ne_of_gt (Nat.lt_of_lt_of_le old (Nat.le_add_right ..))
  rw [itemsOf_setItems _ (by rw [size_append]; exact Nat.lt_add_right _ old), if_neg ne,
    itemsOf_append_add]
  simp [bound]

/-- Dividing a list leaves the members of the others alone. -/
theorem itemsOf_divided_old (builder : Builder) {list other : Nat} (left : List Item)
    (news : List (List Item × Span)) (bound : list < builder.lists.size)
    (old : other < builder.lists.size) :
    ((builder.append news).setItems list left).itemsOf other =
      if other = list then left else builder.itemsOf other := by
  rw [itemsOf_setItems _ (by rw [size_append]; exact Nat.lt_add_right _ bound),
    itemsOf_append_of_lt _ old]

/-- The new lists have the members that were given to them. -/
theorem map_itemsOf_divided (builder : Builder) {list : Nat} (left : List Item)
    (news : List (List Item × Span)) (bound : list < builder.lists.size) :
    (List.range' builder.lists.size news.length).map ((builder.append news).setItems list left).itemsOf =
      news.map (·.1) := by
  refine List.ext_getElem (by simp) fun index lt _ => ?_
  simp only [List.length_map, List.length_range'] at lt
  simp only [List.getElem_map, List.getElem_range', Nat.one_mul]
  exact itemsOf_divided_new _ _ _ _ lt bound

namespace Scheduled

variable {builder after : Builder} {list : Nat} {rest : List ListId}

theorem not_mem_queue (h : Scheduled builder (list :: rest)) {other : ListId}
    (mem : other ∈ references (builder.itemsOf list)) : other ∉ list :: rest := by
  intro queued
  rcases List.mem_cons.mp queued with rfl | later
  · exact h.apart other List.mem_cons_self mem
  · exact (List.pairwise_cons.mp h.inOrder).1 other later mem

/-- The members of the queued lists once the one in front was divided. -/
theorem itemsOf_divided (h : Scheduled builder (list :: rest)) (left : List Item)
    (news : List (List Item × Span)) {other : Nat}
    (mem : other ∈ List.range' builder.lists.size news.length ++ list :: rest) :
    (∃ (index : Nat) (lt : index < news.length), other = builder.lists.size + index ∧
        ((builder.append news).setItems list left).itemsOf other = news[index].1) ∨
      other = list ∧ ((builder.append news).setItems list left).itemsOf other = left ∨
      other ∈ rest ∧ ((builder.append news).setItems list left).itemsOf other = builder.itemsOf other := by
  have bound := (h.pending list List.mem_cons_self).1
  rcases List.mem_append.mp mem with new | queued
  · obtain ⟨least, most⟩ := List.mem_range'_1.mp new
    obtain ⟨index, rfl⟩ := Nat.exists_eq_add_of_le least
    have lt : index < news.length := by omega
    exact .inl ⟨index, lt, rfl, itemsOf_divided_new builder list left news lt bound⟩
  rw [itemsOf_divided_old builder left news bound (h.pending other queued).1]
  rcases List.mem_cons.mp queued with rfl | later
  · exact .inr (.inl ⟨rfl, if_pos rfl⟩)
  · exact .inr (.inr ⟨later, if_neg (ne_of_mem_of_not_mem later (List.nodup_cons.mp h.unique).1)⟩)

/-- What the list in front needs is finished, and needed there only. -/
theorem front_ready (h : Scheduled builder (list :: rest)) :
    (references (builder.itemsOf list)).Nodup ∧
      ∀ other ∈ references (builder.itemsOf list), (builder.nodeOf other).isSome := by
  have bound : ∀ other ∈ references (builder.itemsOf list),
      (references (builder.itemsOf list)).count other ≤
        if (builder.nodeOf other).isSome then 1 else 0 := by
    intro other mem
    have once := h.once other
    have absent := List.count_eq_zero.mpr (h.not_mem_queue mem)
    simp only [needs, List.flatMap_cons, List.count_cons, List.count_append] at once absent ⊢
    omega
  constructor
  · refine List.nodup_iff_count.mpr fun other => ?_
    by_cases mem : other ∈ references (builder.itemsOf list)
    · have := bound other mem
      split at this <;> omega
    · simp [List.count_eq_zero.mpr mem]
  · intro other mem
    have some := bound other mem
    have := List.count_pos_iff.mpr mem
    by_contra notReady
    rw [if_neg notReady] at some
    omega

theorem bound_references (h : Scheduled builder (list :: rest)) {other : Nat}
    (mem : other ∈ references (builder.itemsOf list)) : other < builder.lists.size := by
  obtain ⟨node, found⟩ := Option.isSome_iff_exists.mp (h.front_ready.2 other mem)
  exact lt_size_of_nodeOf builder found

/-- No member of a list needs what another one needs, and none needs a list twice. -/
theorem nodup_references {queue : List ListId} (h : Scheduled builder queue) {list : ListId}
    (mem : list ∈ queue) : (references (builder.itemsOf list)).Nodup := by
  refine List.nodup_iff_count.mpr fun other => ?_
  have once := h.once other
  have queued := List.nodup_iff_count.mp h.unique other
  have part : (references (builder.itemsOf list)).count other ≤ (builder.needs queue).count other := by
    refine List.Sublist.count_le other (List.Sublist.cons _ ?_)
    rw [List.flatMap_def]
    exact List.sublist_flatten_of_mem (List.mem_map_of_mem mem)
  by_cases finished : (builder.nodeOf other).isSome = true
  · have absent : other ∉ queue := by
      intro waits
      rw [(h.pending other waits).2] at finished
      cases finished
    rw [if_pos finished, List.count_eq_zero.mpr absent] at once
    omega
  · rw [if_neg finished] at once
    omega

section Divided

variable {left : List Item} {news : List (List Item × Span)}

/-- A new list is made from members of the list in front, and needs no list that is made after it. -/
private theorem references_new (h : Scheduled builder (list :: rest))
    (division : Division builder.lists.size (builder.itemsOf list) left news) {new other : Nat}
    (isNew : new ∈ List.range' builder.lists.size news.length)
    (needed : other ∈ references (((builder.append news).setItems list left).itemsOf new)) :
    other < new ∧ (other < builder.lists.size → other ∈ references (builder.itemsOf list)) := by
  obtain ⟨least, most⟩ := List.mem_range'_1.mp isNew
  obtain ⟨index, rfl⟩ := Nat.exists_eq_add_of_le least
  have lt : index < news.length := by omega
  rw [itemsOf_divided_new builder list left news lt (h.pending list List.mem_cons_self).1] at needed
  constructor
  · rcases division.earlier index _ (List.getElem?_eq_getElem lt) other needed with old | lower
    · exact Nat.lt_add_right _ (h.bound_references old)
    · exact lower
  · intro old
    have among : other ∈ news.flatMap fun new => references new.1 :=
      List.mem_flatMap.mpr ⟨_, List.getElem_mem lt, needed⟩
    rcases List.mem_append.mp (division.perm.subset (List.mem_append_right _ among)) with mem | mem
    · exact mem
    · exact absurd old (Nat.not_lt.mpr (List.mem_range'_1.mp mem).1)

/-- What is left of the list in front needs new lists, and besides only what the whole needed. -/
private theorem references_left (h : Scheduled builder (list :: rest))
    (division : Division builder.lists.size (builder.itemsOf list) left news) {other : Nat}
    (old : other < builder.lists.size)
    (needed : other ∈ references (((builder.append news).setItems list left).itemsOf list)) :
    other ∈ references (builder.itemsOf list) := by
  have bound := (h.pending list List.mem_cons_self).1
  rw [itemsOf_divided_old builder left news bound bound, if_pos rfl] at needed
  rcases List.mem_append.mp (division.perm.subset (List.mem_append_left _ needed)) with mem | mem
  · exact mem
  · exact absurd old (Nat.not_lt.mpr (List.mem_range'_1.mp mem).1)

private theorem itemsOf_rest (h : Scheduled builder (list :: rest)) (left : List Item)
    (news : List (List Item × Span)) {other : Nat} (mem : other ∈ rest) :
    ((builder.append news).setItems list left).itemsOf other = builder.itemsOf other := by
  rw [itemsOf_divided_old _ _ _ (h.pending list List.mem_cons_self).1
    (h.pending other (List.mem_cons_of_mem _ mem)).1,
    if_neg (ne_of_mem_of_not_mem mem (List.nodup_cons.mp h.unique).1)]

/-- Once the list in front was divided, each new list is needed once more than it was before. -/
private theorem count_needs_divided (h : Scheduled builder (list :: rest))
    (division : Division builder.lists.size (builder.itemsOf list) left news) (other : Nat) :
    (((builder.append news).setItems list left).needs
        (List.range' builder.lists.size news.length ++ list :: rest)).count other =
      (builder.needs (list :: rest)).count other +
        (List.range' builder.lists.size news.length).count other := by
  have bound := (h.pending list List.mem_cons_self).1
  have perm := division.perm.count_eq other
  have newNeeds : (List.range' builder.lists.size news.length).flatMap
      (fun new => references (((builder.append news).setItems list left).itemsOf new)) =
        news.flatMap fun new => references new.1 := by
    have same := congrArg (List.flatMap references) (map_itemsOf_divided builder left news bound)
    rwa [List.flatMap_map, List.flatMap_map] at same
  have restNeeds : (rest.flatMap fun other =>
      references (((builder.append news).setItems list left).itemsOf other)) =
        rest.flatMap fun other => references (builder.itemsOf other) :=
    List.flatMap_congr fun other mem => by rw [h.itemsOf_rest left news mem]
  simp only [needs, List.flatMap_append, List.flatMap_cons, newNeeds, restNeeds,
    itemsOf_divided_old _ _ _ bound bound, if_true, List.count_cons, List.count_append] at perm ⊢
  omega

/-- A list in front may be divided, with the new lists going in front of it. -/
theorem divide (h : Scheduled builder (list :: rest))
    (division : Division builder.lists.size (builder.itemsOf list) left news) :
    Scheduled ((builder.append news).setItems list left)
      (List.range' builder.lists.size news.length ++ list :: rest) := by
  have old : ∀ other : Nat, other ∈ list :: rest → other < builder.lists.size :=
    fun other mem => (h.pending other mem).1
  constructor
  · refine List.nodup_append.mpr ⟨List.nodup_range' .., h.unique, fun new mem other queued same => ?_⟩
    exact absurd (old other queued) (Nat.not_lt.mpr (same ▸ (List.mem_range'_1.mp mem).1))
  · intro other mem
    rw [size_setItems, size_append, nodeOf_setItems, nodeOf_append]
    rcases List.mem_append.mp mem with mem | mem
    · have := List.mem_range'_1.mp mem
      exact ⟨this.2, nodeOf_of_size_le _ this.1⟩
    · exact ⟨Nat.lt_add_right _ (old other mem), (h.pending other mem).2⟩
  · intro other
    rw [h.count_needs_divided division, h.once, nodeOf_setItems, nodeOf_append, List.count_append]
    omega
  · refine List.pairwise_append.mpr ⟨?_, List.pairwise_cons.mpr ⟨?_, ?_⟩, ?_⟩
    · refine (List.pairwise_lt_range' 1).imp_of_mem fun {first later} mem _ lt needed => ?_
      exact Nat.lt_asymm lt (h.references_new division mem needed).1
    · intro later mem needed
      have queued := List.mem_cons_of_mem list mem
      exact h.not_mem_queue (h.references_left division (old later queued) needed) queued
    · refine (List.pairwise_cons.mp h.inOrder).2.imp_of_mem fun {first later} mem _ apart => ?_
      rwa [h.itemsOf_rest left news mem]
    · intro new mem later queued needed
      exact h.not_mem_queue ((h.references_new division mem needed).2 (old later queued)) queued
  · intro other mem needed
    rcases List.mem_append.mp mem with mem | mem
    · exact Nat.lt_irrefl other (h.references_new division mem needed).1
    rcases List.mem_cons.mp mem with rfl | later
    · exact h.apart other mem (h.references_left division (old other mem) needed)
    · rw [h.itemsOf_rest left news later] at needed
      exact h.apart other mem needed

end Divided

/-- A list in front may be finished. -/
theorem finish (h : Scheduled builder (list :: rest))
    (same : after.lists = (builder.releaseAll (references (builder.itemsOf list))).lists)
    (node : NodeId) : Scheduled (after.finish list node) rest := by
  have size : after.lists.size = builder.lists.size := by rw [same, size_releaseAll]
  have bound := (h.pending list List.mem_cons_self).1
  have apart : ∀ other ∈ rest, other ≠ list :=
    fun other mem => ne_of_mem_of_not_mem mem (List.nodup_cons.mp h.unique).1
  have items : ∀ other ∈ rest, (after.finish list node).itemsOf other = builder.itemsOf other := by
    intro other mem
    rw [itemsOf_finish, if_neg (apart other mem), itemsOf_congr same, itemsOf_releaseAll]
  have nodes : ∀ other : Nat, (after.finish list node).nodeOf other =
      if other = list then some node
      else if other ∈ references (builder.itemsOf list) then none else builder.nodeOf other := by
    intro other
    rw [nodeOf_finish _ (by omega), nodeOf_congr same, nodeOf_releaseAll]
  constructor
  · exact (List.nodup_cons.mp h.unique).2
  · intro other mem
    obtain ⟨lt, none⟩ := h.pending other (List.mem_cons_of_mem _ mem)
    rw [size_finish, nodes, if_neg (apart other mem), none]
    exact ⟨by omega, by simp⟩
  · intro other
    have once := h.once other
    obtain ⟨unique, ready⟩ := h.front_ready
    have restNeeds : (rest.flatMap fun other =>
        references ((after.finish list node).itemsOf other)) =
          rest.flatMap fun other => references (builder.itemsOf other) :=
      List.flatMap_congr fun other mem => by rw [items other mem]
    simp only [needs, List.flatMap_cons, restNeeds, nodes, List.count_cons, List.count_append]
      at once ⊢
    by_cases isList : other = list
    · subst isList
      have absent : (references (builder.itemsOf other)).count other = 0 :=
        List.count_eq_zero.mpr (h.apart other List.mem_cons_self)
      have none := (h.pending other List.mem_cons_self).2
      simp only [absent, none, Option.isSome_none, beq_self_eq_true, if_true, Option.isSome_some] at once ⊢
      simp only [Bool.false_eq_true, if_false] at once
      omega
    · have notFront : (list == other) = false := by simpa using Ne.symm isList
      simp only [isList, notFront, if_false, Bool.false_eq_true, Nat.add_zero] at once ⊢
      by_cases needed : other ∈ references (builder.itemsOf list)
      · have one := (List.nodup_iff_count.mp unique) other
        have pos := List.count_pos_iff.mpr needed
        have absent := List.count_eq_zero.mpr
          (fun mem => h.not_mem_queue needed (List.mem_cons_of_mem _ mem))
        simp only [needed, if_true, ready other needed, Option.isSome_none, Bool.false_eq_true,
          if_false] at once ⊢
        omega
      · simp only [needed, if_false, List.count_eq_zero.mpr needed] at once ⊢
        omega
  · refine (List.pairwise_cons.mp h.inOrder).2.imp_of_mem fun {first later} mem _ apart => ?_
    rw [items first mem]
    exact apart
  · intro other mem
    rw [items other mem]
    exact h.apart other (List.mem_cons_of_mem _ mem)

end Scheduled

end Reckoner.Builder
