import Mathlib.Data.List.Perm.Basic

/-!
Trees with a label at every node and any number of children in order. They are what the numbered
nodes of an expression stand for once the numbers are followed.
-/
namespace Reckoner

/-- A tree with a label at every node. -/
inductive Rose (α : Type) where
  | node (label : α) (children : List (Rose α))

namespace Rose

/-- The label at the top. -/
def label : Rose α → α
  | node a _ => a

/-- The trees below the top, from left to right. -/
def children : Rose α → List (Rose α)
  | node _ cs => cs

mutual

/-- The tree of the same form with other labels. -/
def map (f : α → β) : Rose α → Rose β
  | node a cs => node (f a) (mapAll f cs)

/-- The trees of the same forms with other labels. -/
def mapAll (f : α → β) : List (Rose α) → List (Rose β)
  | [] => []
  | c :: cs => map f c :: mapAll f cs

end

mutual

/-- The labels, those of the children from left to right before that of their parent. -/
def postorder : Rose α → List α
  | node a cs => postorderAll cs ++ [a]

/-- The labels of several trees one after the other. -/
def postorderAll : List (Rose α) → List α
  | [] => []
  | c :: cs => postorder c ++ postorderAll cs

end

mutual

/-- The labels, each after those of as many children as `before` says and before those of the others. -/
def inorder (before : α → Nat) : Rose α → List α
  | node a cs =>
    ((inorderAll before cs).take (before a)).flatten ++
      a :: ((inorderAll before cs).drop (before a)).flatten

/-- The labels of several trees, tree by tree. -/
def inorderAll (before : α → Nat) : List (Rose α) → List (List α)
  | [] => []
  | c :: cs => inorder before c :: inorderAll before cs

end

mutual

/-- What holds of a tree whenever it holds of its children holds of every tree. -/
@[elab_as_elim, induction_eliminator]
theorem induction {motive : Rose α → Prop}
    (node : ∀ a cs, (∀ c ∈ cs, motive c) → motive (node a cs)) : ∀ tree, motive tree
  | .node a cs => node a cs (forall_of_induction node cs)

/-- What holds of a tree whenever it holds of its children holds of every tree of a list. -/
theorem forall_of_induction {motive : Rose α → Prop}
    (node : ∀ a cs, (∀ c ∈ cs, motive c) → motive (.node a cs)) :
    ∀ cs : List (Rose α), ∀ c ∈ cs, motive c
  | [] => by simp
  | c :: cs => List.forall_mem_cons.mpr ⟨induction node c, forall_of_induction node cs⟩

end

theorem mapAll_eq (f : α → β) (cs : List (Rose α)) : mapAll f cs = cs.map (map f) := by
  induction cs with
  | nil => rfl
  | cons c cs ih => simp [mapAll, ih]

@[simp] theorem map_node (f : α → β) (a : α) (cs : List (Rose α)) :
    map f (node a cs) = node (f a) (cs.map (map f)) := by
  rw [map, mapAll_eq]

theorem postorderAll_eq (cs : List (Rose α)) : postorderAll cs = cs.flatMap postorder := by
  induction cs with
  | nil => rfl
  | cons c cs ih => simp [postorderAll, ih]

@[simp] theorem postorder_node (a : α) (cs : List (Rose α)) :
    postorder (node a cs) = cs.flatMap postorder ++ [a] := by
  rw [postorder, postorderAll_eq]

theorem label_mem_postorder (tree : Rose α) : tree.label ∈ tree.postorder := by
  cases tree
  simp [label]

/-- The label at the top comes last. -/
theorem exists_postorder_eq (tree : Rose α) : ∃ inner, tree.postorder = inner ++ [tree.label] := by
  cases tree with
  | node a cs => exact ⟨_, postorder_node a cs⟩

/-- The tops of trees that stand beside each other come in this order. -/
theorem map_label_sublist (cs : List (Rose α)) : (cs.map label).Sublist (cs.flatMap postorder) := by
  induction cs with
  | nil => exact .slnil
  | cons c cs ih =>
    rw [List.map_cons, List.flatMap_cons]
    exact (List.singleton_sublist.mpr c.label_mem_postorder).append ih

theorem inorderAll_eq (before : α → Nat) (cs : List (Rose α)) :
    inorderAll before cs = cs.map (inorder before) := by
  induction cs with
  | nil => rfl
  | cons c cs ih => simp [inorderAll, ih]

@[simp] theorem inorder_node (before : α → Nat) (a : α) (cs : List (Rose α)) :
    inorder before (node a cs) = (cs.take (before a)).flatMap (inorder before) ++
      a :: (cs.drop (before a)).flatMap (inorder before) := by
  rw [inorder, inorderAll_eq, ← List.map_take, ← List.map_drop, List.flatMap_def, List.flatMap_def]

theorem inorder_map (f : α → β) (before : β → Nat) (tree : Rose α) :
    (tree.map f).inorder before = (tree.inorder (before ∘ f)).map f := by
  induction tree with
  | node a cs ih =>
    simp only [map_node, inorder_node, Function.comp_apply, List.map_append, List.map_cons,
      List.map_flatMap, ← List.map_take, ← List.map_drop, List.flatMap_map]
    rw [List.flatMap_congr fun c mem => ih c (List.mem_of_mem_take mem),
      List.flatMap_congr fun c mem => ih c (List.mem_of_mem_drop mem)]

/-- The labels of a child stand together. -/
theorem inorder_infix (before : α → Nat) {a : α} {cs : List (Rose α)} {c : Rose α} (mem : c ∈ cs) :
    c.inorder before <:+: (node a cs).inorder before := by
  have among {cs : List (Rose α)} (mem : c ∈ cs) : c.inorder before <:+: cs.flatMap (inorder before) := by
    rw [List.flatMap_def]
    exact List.infix_of_mem_flatten (List.mem_map_of_mem mem)
  rw [inorder_node]
  rw [← List.take_append_drop (before a) cs] at mem
  rcases List.mem_append.mp mem with first | later
  · exact (among first).trans (List.prefix_append _ _).isInfix
  · exact (among later).trans ((List.suffix_cons _ _).trans (List.suffix_append _ _)).isInfix

/-- Both orders have the same labels. -/
theorem inorder_perm_postorder (before : α → Nat) (tree : Rose α) :
    (tree.inorder before).Perm tree.postorder := by
  induction tree with
  | node a cs ih =>
    rw [inorder_node, postorder_node]
    have parts : (cs.take (before a)).flatMap (inorder before) ++
        (cs.drop (before a)).flatMap (inorder before) = cs.flatMap (inorder before) := by
      rw [← List.flatMap_append, List.take_append_drop]
    refine List.perm_middle.trans ?_
    rw [parts]
    exact ((List.Perm.flatMap_left cs ih).cons a).trans (List.perm_append_singleton a _).symm

end Rose

end Reckoner
