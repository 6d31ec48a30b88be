import Reckoner.Proofs.Builder.Complete
import Reckoner.Proofs.Builder.Viewed
import Reckoner.Proofs.Lexeme.Enclosed

/-!
Building a tree between parentheses. The first pass makes a list of what stands between them and leaves a group behind,
then the passes are those over the lexemes alone, behind that group, and the last pass gives the group its node. So two
passes more are needed, and the tree is the same one at other places.
-/
namespace Reckoner

namespace Item

/-- Brackets are balanced from wherever they are seen. -/
theorem balanced_viewed {view : View} {depth : Nat} {items : List Item} :
    Token.Balanced depth (outline (items.map (Item.viewed view))) ↔ Token.Balanced depth (outline items) := by
  induction items generalizing depth with
  | nil => rfl
  | cons item rest ih =>
    simp only [outline, List.map_cons, balanced_cons, opensGroup_viewed, closesGroup_viewed] at ih ⊢
    simp only [ih]

end Item

namespace Builder

/-- The lists of the queue are done with after so many passes, whatever other lists come behind them. -/
def Drains (builder : Builder) (queue : List ListId) (passes : Nat) (after : Builder) : Prop :=
  ∀ limit more stalled back, ∃ stalled', Schedule.run limit (passes + more) ⟨builder, queue ++ back, stalled⟩ =
    Schedule.run limit more ⟨after, back, stalled'⟩

variable {view : View} {front : Array WorkList} {builder image after built : Builder} {list : Nat}
  {rest queue : List ListId} {passes more : Nat}

namespace Drains

theorem nil : Drains builder [] 0 builder := by
  intro limit more stalled back
  exact ⟨stalled, by rw [Nat.zero_add, List.nil_append]⟩

theorem pass (later : Drains after queue passes built) (passed : ∀ queue' stalled back,
      Schedule.pass ⟨builder, queue', stalled⟩ list (rest ++ back) = .ok ⟨after, queue ++ back, 0⟩) :
    Drains builder (list :: rest) (passes + 1) built := by
  intro limit more stalled back
  obtain ⟨stalled', same⟩ := later limit more 0 back
  refine ⟨stalled', ?_⟩
  rw [Nat.add_right_comm, List.cons_append, run_succ rfl, passed, ← same]
  rfl

theorem append (first : Drains builder queue passes after) (second : Drains after rest more built) :
    Drains builder (queue ++ rest) (passes + more) built := by
  intro limit extra stalled back
  obtain ⟨stalled', one⟩ := first limit (more + extra) stalled (rest ++ back)
  obtain ⟨stalled'', two⟩ := second limit extra stalled' back
  refine ⟨stalled'', ?_⟩
  rw [Nat.add_assoc, List.append_assoc, one, two]

/-- More passes than are needed do no harm. -/
theorem run (drains : Drains builder queue passes built) {limit left : Nat} (enough : passes ≤ left) (stalled : Nat) :
    Schedule.run limit left ⟨builder, queue, stalled⟩ = .ok built := by
  obtain ⟨extra, rfl⟩ := Nat.exists_eq_add_of_le enough
  obtain ⟨stalled', same⟩ := drains limit extra stalled []
  rw [List.append_nil] at same
  rw [same, run_nil rfl]

end Drains

namespace Sees

/-- A pass that succeeds does the same with more lists in the queue behind. -/
theorem pass_behind {schedule next : Schedule} (scheduled : Scheduled schedule.builder (list :: rest))
    (sees : Sees view front schedule.builder image) (passed : schedule.pass list rest = .ok next) :
    ∃ image', Sees view front next.builder image' ∧ ∀ queue' stalled back,
      Schedule.pass ⟨image, queue', stalled⟩ (view.list list) (rest.map view.list ++ back) =
        .ok ⟨image', next.queue.map view.list ++ back, 0⟩ := by
  simp only [Schedule.pass] at passed ⊢
  have mirrors := sees.process list
  cases ran : schedule.builder.process list with
  | error error =>
    rw [ran] at passed
    cases passed
  | ok reply =>
    obtain ⟨step, after⟩ := reply
    rw [ran] at passed mirrors
    obtain ⟨⟨_, image'⟩, ran', rfl, sees'⟩ := mirrors.exists_ok
    cases step with
    | waiting => exact ((process_ok ran).not_waiting scheduled).elim
    | done | progress =>
      cases passed
      refine ⟨image', sees', fun queue' stalled back => ?_⟩
      rw [ran']
      simp only [bind, Except.bind, id, sees.numbers sees', List.map_append, List.map_cons, List.append_assoc,
        List.cons_append]
      rfl

/-- A run that ends does the same with more lists in the queue behind. -/
theorem run_behind {schedule : Schedule} {limit left : Nat} (scheduled : Scheduled schedule.builder schedule.queue)
    (sees : Sees view front schedule.builder image) (ran : schedule.run limit left = .ok built) :
    ∃ image' passes, Sees view front built image' ∧ passes ≤ left ∧
      Drains image (schedule.queue.map view.list) passes image' := by
  induction left generalizing schedule image with
  | zero =>
    cases queued : schedule.queue with
    | nil =>
      rw [run_nil queued] at ran
      cases ran
      exact ⟨image, 0, sees, Nat.le_refl 0, .nil⟩
    | cons list rest =>
      rw [run_zero queued] at ran
      cases ran
  | succ left ih =>
    cases queued : schedule.queue with
    | nil =>
      rw [run_nil queued] at ran
      cases ran
      exact ⟨image, 0, sees, Nat.zero_le _, .nil⟩
    | cons list rest =>
      rw [queued] at scheduled
      rw [run_succ queued] at ran
      cases passed : schedule.pass list rest with
      | error error =>
        rw [passed] at ran
        cases ran
      | ok next =>
        rw [passed] at ran
        obtain ⟨image', sees', passes⟩ := sees.pass_behind scheduled passed
        obtain ⟨image'', count, sees'', le, later⟩ := ih ((pass_ok scheduled passed).scheduled scheduled) sees' ran
        exact ⟨image'', count + 1, sees'', Nat.succ_le_succ le, later.pass passes⟩

/-- The root is put above the same node. -/
theorem rooted (sees : Sees view front builder image) {result : Nat} (lt : result < builder.tree.size) :
    image.rooted result = (builder.rooted result).viewed view := by
  have span : (image.tree.node result).span = view.place (builder.tree.node result).span := by
    rw [sees.tree, Tree.node_viewed view builder.tree lt, Node.span_viewed]
  have size : image.tree.size = builder.tree.size := by rw [sees.tree, Tree.size_viewed]
  obtain ⟨-, added⟩ := sees.addNode (.alone .root (builder.tree.node result).span (.owned .void)) [result]
  rw [Builder.rooted, Builder.rooted, span, size]
  exact Tree.mk.injEq .. ▸ ⟨congrArg Tree.nodes added.tree, rfl⟩

end Sees

section Parentheses

variable {opening closing : Lexeme} {source : String} {lexemes : List Lexeme}

/-- The list of all lexemes after the first pass over a source between parentheses. -/
def outer (opening closing : Lexeme) (source : String) : WorkList :=
  let span := opening.span.cover closing.span
  ⟨[groupItem ⟨source, #[], .empty⟩ 1 span opening.position], Span.whole source, none⟩

/-- The first pass makes a list of what stands between the parentheses. -/
theorem pass_parentheses (opens : opening.IsMark .openGroup) (closes : closing.IsMark .closeGroup)
    (balanced : Token.Balanced 0 (Item.outline (lexemes.map .lexeme))) (queue : List ListId) (stalled : Nat)
    (back : List ListId) :
    Schedule.pass ⟨start source (opening :: (lexemes ++ [closing])), queue, stalled⟩ 0 back =
      .ok ⟨addList ⟨source, #[outer opening closing source], .empty⟩ (lexemes.map .lexeme)
        (opening.span.cover closing.span), [1, 0] ++ back, 0⟩ := by
  have isOpening : (Item.lexeme opening).opensGroup = true := opens.opensGroup
  obtain ⟨notOpening, isClosing⟩ := closes.closesGroup
  have taken : Item.takeGroup? 0 (lexemes.map .lexeme ++ [.lexeme closing]) =
      some (lexemes.map .lexeme, closing.span, []) :=
    @Item.takeGroup?_of_balanced 0 _ [] (.lexeme closing) notOpening isClosing balanced
  have items : (start source (opening :: (lexemes ++ [closing]))).itemsOf 0 =
      .lexeme opening :: (lexemes.map .lexeme ++ [.lexeme closing]) := by
    simp [start, addList, itemsOf]
  have groups : hasGroups (.lexeme opening :: (lexemes.map .lexeme ++ [.lexeme closing])) = true := by
    simp [hasGroups, isOpening]
  have regrouped := regroup_cons (start source (opening :: (lexemes ++ [closing]))) (.lexeme opening)
    (lexemes.map .lexeme ++ [.lexeme closing])
  rw [if_pos isOpening, taken] at regrouped
  simp only [Schedule.pass, process, items, groups, if_true, regrouped]
  simp only [regroup, bind, Except.bind, pure, Except.pure]
  -- The group has to wait for its list, so everything else can be computed.
  rfl

/-- A group whose list is finished becomes the node of that list. -/
theorem pass_group {text : String} {span : Span} {inner position node : Nat}
    (items : builder.itemsOf list = [.group inner text span position]) (finished : builder.nodeOf inner = some node)
    (queue : List ListId) (stalled : Nat) (back : List ListId) :
    Schedule.pass ⟨builder, queue, stalled⟩ list back = .ok ⟨(builder.release inner).finish list node, back, 0⟩ := by
  have ready : builder.isReady (.group inner text span position) = true := by
    simp [isReady_iff, finished]
  have taken : builder.takeNode inner span = .ok (node, builder.release inner) := by
    rw [nodeOf] at finished
    rw [takeNode, finished]
    rfl
  have processed : builder.process list = .ok (.done, (builder.release inner).finish list node) := by
    have groups : hasGroups [Item.group inner text span position] = false := rfl
    have operators : operatorIndices [Item.group inner text span position] = [] := rfl
    simp only [process, items, groups, Bool.false_eq_true, if_false, reduce, operators, reduceOperand, ready, if_true,
      linkOperand, taken, bind, Except.bind, pure, Except.pure]
  have size : ((builder.release inner).finish list node).lists.size = builder.lists.size := by
    rw [size_finish]
    exact size_releaseAll builder [inner]
  simp only [Schedule.pass, processed, bind, Except.bind, pure, Except.pure, size, Nat.sub_self, List.range'_zero,
    List.nil_append]

/-- Behind the group is what the lexemes alone begin with. -/
theorem sees_start (source : String) (lexemes : List Lexeme) (group : WorkList) (span : Span) :
    Sees (.enclosed source) #[group] (start source lexemes)
      (addList ⟨"(" ++ source ++ ")", #[group], .empty⟩
        ((lexemes.map (Lexeme.viewed (.enclosed source))).map .lexeme) span) := by
  have empty : Sees (.enclosed source) #[group] ⟨source, #[], .empty⟩ ⟨"(" ++ source ++ ")", #[group], .empty⟩ :=
    ⟨rfl, rfl, fun _ _ => rfl, fun list => by simp [View.list, View.enclosed], by simp [Tree.viewed, Tree.empty]⟩
  have added := empty.addList (lexemes.map .lexeme) (Span.whole source) span
  rw [List.map_map] at added
  rw [List.map_map]
  exact added

/-- Between parentheses a run needs the two passes over the group more. -/
theorem drains_parentheses {limit left : Nat} {result : NodeId} (opens : opening.IsMark .openGroup)
    (closes : closing.IsMark .closeGroup) (balanced : Token.Balanced 0 (Item.outline (lexemes.map .lexeme)))
    (ran : Schedule.run limit left ⟨start source lexemes, [0], 0⟩ = .ok built)
    (found : built.nodeOf 0 = some result) :
    ∃ image passes, Sees (.enclosed source) #[outer opening closing ("(" ++ source ++ ")")] built image ∧
      passes ≤ left ∧
      Drains (start ("(" ++ source ++ ")")
          (opening :: (lexemes.map (Lexeme.viewed (.enclosed source)) ++ [closing]))) [0] (passes + 2)
        ((image.release 1).finish 0 result) := by
  have balanced' : Token.Balanced 0
      (Item.outline ((lexemes.map (Lexeme.viewed (.enclosed source))).map .lexeme)) := by
    have same := (@Item.balanced_viewed (.enclosed source) 0 (lexemes.map .lexeme)).mpr balanced
    rw [List.map_map] at same
    rw [List.map_map]
    exact same
  have first := @pass_parentheses opening closing ("(" ++ source ++ ")") _ opens closes balanced'
  have start := sees_start source lexemes (outer opening closing ("(" ++ source ++ ")"))
    (opening.span.cover closing.span)
  obtain ⟨image, passes, sees, le, drains⟩ :=
    start.run_behind (scheduled_start source lexemes) ran
  have items : image.itemsOf 0 = (outer opening closing ("(" ++ source ++ ")")).items := by
    rw [itemsOf, sees.front 0 Nat.one_pos]
    rfl
  have last : Drains image [0] 1 ((image.release 1).finish 0 result) :=
    Drains.nil.pass (pass_group items ((sees.nodeOf 0).trans found))
  exact ⟨image, passes, sees, le, (drains.append last).pass first⟩

end Parentheses

end Builder

/-- Between parentheses a tree needs two more passes and is the same one at other places. -/
theorem Tree.build_enclosed {opening closing : Lexeme} {source : String} {lexemes : List Lexeme} {passLimit : Nat}
    {tree : Tree} (opens : opening.IsMark .openGroup) (closes : closing.IsMark .closeGroup)
    (balanced : Token.Balanced 0 (Item.outline (lexemes.map .lexeme)))
    (built : Tree.build source lexemes passLimit = .ok tree) :
    Tree.build ("(" ++ source ++ ")") (opening :: (lexemes.map (Lexeme.viewed (.enclosed source)) ++ [closing]))
      (passLimit + 2) = .ok (tree.viewed (.enclosed source)) := by
  rcases Builder.build_cases source lexemes passLimit with
    ⟨_, -, failed⟩ | ⟨final, result, ran, _, found, done⟩
  · rw [built] at failed
    cases failed
  rw [built] at done
  cases done
  obtain ⟨image, passes, sees, le, drains⟩ := Builder.drains_parentheses opens closes balanced ran found
  have ran' : Builder.Schedule.run (passLimit + 2) (passLimit + 2) ⟨_, [0], 0⟩ = _ :=
    drains.run (Nat.add_le_add_right le 2) 0
  have found' : ((image.release 1).finish 0 result).nodeOf 0 = some result := by
    have size : (image.release 1).lists.size = 1 + final.lists.size :=
      (Builder.size_releaseAll image [1]).trans sees.size
    rw [Builder.nodeOf_finish _ (by omega), if_pos rfl]
  have lt : (result : Nat) < final.tree.size := ((Builder.grown_of_run ran).release found).bound List.mem_cons_self
  rcases Builder.build_cases ("(" ++ source ++ ")")
    (opening :: (lexemes.map (Lexeme.viewed (.enclosed source)) ++ [closing])) (passLimit + 2) with
    ⟨_, failed, -⟩ | ⟨_, result', again, _, same, done'⟩
  · rw [ran'] at failed
    cases failed
  rw [ran'] at again
  cases again
  rw [found'] at same
  cases same
  rw [done']
  exact congrArg Except.ok (sees.rooted lt)

end Reckoner
