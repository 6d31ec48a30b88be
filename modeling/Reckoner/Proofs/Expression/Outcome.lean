import Reckoner.Proofs.Expression.Recursion

/-!
What an evaluation comes to: a value or a failure at some place, and the host left behind. It depends on what
the nodes of the tree stand for, on their types and places and on what the constants hold, and neither on the
numbers of the nodes nor on what an earlier evaluation left in them.
-/
namespace Reckoner

/-- What evaluating a node depends on besides its operands. -/
structure Node.Sense where
  kind : Node.Kind
  type : ValueType
  /-- What the node keeps when it is evaluated. -/
  kept : Option Slot

/-- What evaluating the node depends on. -/
def Node.sense (node : Node) : Node.Sense :=
  ⟨node.kind, node.type, match node.kind with
    | .root | .constant => some node.slot
    | _ => none⟩

namespace Tree

/-- A reply with a place for the number of the node that failed. -/
def located {α : Type} (place : NodeId → Span) (reply : Except (NodeId × RuntimeError) α × Host) :
    Except EvaluationError α × Host :=
  (reply.1.mapError fun (id, cause) => ⟨cause, place id⟩, reply.2)

/-- A reply of the node at a place. -/
def blaming {α : Type} (place : Span) (reply : Except RuntimeError α × Host) :
    Except EvaluationError α × Host :=
  (reply.1.mapError (⟨·, place⟩), reply.2)

/-- Goes on with a result, or keeps the failure. -/
def continued {α β : Type} (reply : Except EvaluationError α × Host)
    (next : α → Host → Except EvaluationError β × Host) : Except EvaluationError β × Host :=
  match reply with
  | (.ok result, host) => next result host
  | (.error error, host) => (.error error, host)

/-- The value in the slot that a part of a tree comes to. -/
def settled (reply : Except EvaluationError Slot × Host) : Except EvaluationError Value × Host :=
  (reply.1.map (·.read reply.2.heap), reply.2)

/-- What evaluating a tree comes to. -/
def outcome (now : Registry) (tree : Tree) (order : List NodeId) (host : Host) :
    Except EvaluationError Value × Host :=
  ((tree.evaluate now order host).1, (tree.evaluate now order host).2.2)

/-- The senses of the nodes of a part, with a place for each. -/
def senses (place : NodeId → Span) (part : Rose (NodeId × Node)) : Rose (Span × Node.Sense) :=
  part.map fun (id, node) => (place id, node.sense)

variable {registry now : Registry} {tree other : Tree} {order : List NodeId} {root result : Nat}
  {host : Host} {place place' : NodeId → Span}

theorem senses_node (id : NodeId) (node : Node) (parts : List (Rose (NodeId × Node))) :
    senses place (.node (id, node) parts) = .node (place id, node.sense) (parts.map (senses place)) :=
  Rose.map_node ..

theorem continued_congr {α β : Type} {reply : Except EvaluationError α × Host}
    {next other : α → Host → Except EvaluationError β × Host}
    (same : ∀ result host, next result host = other result host) :
    continued reply next = continued reply other := by
  obtain ⟨_ | result, host⟩ := reply
  · rfl
  · exact same result host

theorem evaluatePart_node (id : NodeId) (node : Node) (parts : List (Rose (NodeId × Node))) (host : Host) :
    located place (evaluatePart now (.node (id, node) parts) host) =
      continued (located place (evaluateParts now parts host)) fun operands between =>
        blaming (place id) (combine now node operands between) := by
  rw [evaluatePart]
  obtain ⟨⟨_, _⟩ | operands, between⟩ := evaluateParts now parts host
  · rfl
  · simp only [located, Except.mapError, continued]
    obtain ⟨_ | slot, after⟩ := combine now node operands between <;> rfl

theorem evaluateParts_cons (part : Rose (NodeId × Node)) (parts : List (Rose (NodeId × Node)))
    (host : Host) :
    located place (evaluateParts now (part :: parts) host) =
      continued (located place (evaluatePart now part host)) fun slot between =>
        continued (located place (evaluateParts now parts between)) fun slots after =>
          (.ok (slot :: slots), after) := by
  rw [evaluateParts]
  obtain ⟨⟨_, _⟩ | slot, between⟩ := evaluatePart now part host
  · rfl
  · simp only [located, Except.mapError, continued]
    obtain ⟨⟨_, _⟩ | slots, after⟩ := evaluateParts now parts between <;> rfl

/-- Nodes of one sense make the same of the same operands. -/
theorem combine_congr {first second : Node} (same : first.sense = second.sense) (operands : List Slot)
    (host : Host) : combine now first operands host = combine now second operands host := by
  obtain ⟨kind, type, kept⟩ := Node.Sense.mk.inj same
  simp only [combine, kind, type]
  cases isKind : second.kind with
  | root | constant =>
    rw [kind, isKind] at kept
    obtain held : first.slot = second.slot := Option.some.inj kept
    rw [held]
  | «variable» | operator | call => rfl

/-- Evaluating several parts of the same senses comes to the same. -/
private theorem evaluateParts_congr {first second : List (Rose (NodeId × Node))}
    (each : ∀ part ∈ first, ∀ other, senses place part = senses place' other → ∀ host,
      located place (evaluatePart now part host) = located place' (evaluatePart now other host))
    (same : first.map (senses place) = second.map (senses place')) (host : Host) :
    located place (evaluateParts now first host) = located place' (evaluateParts now second host) := by
  induction first generalizing second host with
  | nil =>
    rw [List.map_nil, eq_comm, List.map_eq_nil_iff] at same
    rw [same]
    rfl
  | cons part rest ih =>
    obtain ⟨other, others, rfl, here, later⟩ := List.map_eq_cons_iff.mp same.symm
    rw [evaluateParts_cons, evaluateParts_cons, each part List.mem_cons_self other here.symm host]
    apply continued_congr
    intro slot between
    rw [ih (fun part mem => each part (List.mem_cons_of_mem _ mem)) later.symm]

/-- Evaluating a part depends on the senses and places of its nodes. -/
theorem evaluatePart_congr {first second : Rose (NodeId × Node)}
    (same : senses place first = senses place' second) (host : Host) :
    located place (evaluatePart now first host) = located place' (evaluatePart now second host) := by
  induction first generalizing second host with
  | node one parts ih =>
    obtain ⟨two, others⟩ := second
    simp only [senses, Rose.map_node, Rose.node.injEq, Prod.mk.injEq] at same
    obtain ⟨⟨samePlace, sameSense⟩, sameParts⟩ := same
    rw [evaluatePart_node, evaluatePart_node, samePlace,
      evaluateParts_congr (fun part mem other same host => ih part mem same host) sameParts]
    apply continued_congr
    intro operands between
    rw [combine_congr sameSense]

/-- A checked tree is evaluated as the recursion over the part below its root says. -/
theorem Checked.outcome_eq (h : tree.Checked registry order root result) (now : Registry) (host : Host) :
    tree.outcome now order host =
      settled (located (fun id => (tree.node id).span)
        (evaluatePart now ((tree.below root result).map tree.labelled) host)) := by
  have comes := h.comesTo now host
  generalize evaluatePart now _ host = reply at comes ⊢
  cases comes with
  | value _ evaluated | failure _ _ _ evaluated =>
    rw [outcome, evaluated]
    rfl

theorem Agrees.sense_eq (agrees : tree.Agrees other) {id : Nat} (notRoot : (tree.node id).kind ≠ .root) :
    (other.node id).sense = (tree.node id).sense := by
  unfold Node.sense
  rw [agrees.kind_eq, agrees.type_eq]
  cases kind : (tree.node id).kind with
  | root => exact absurd kind notRoot
  | constant => rw [agrees.constant_eq id kind]
  | «variable» | operator | call => rfl

/-- Whatever an evaluation left in the slots of a checked tree, evaluating it again comes to the same as
evaluating a tree that was never evaluated. -/
theorem Checked.outcome_agrees (h : tree.Checked registry order root result) (agrees : tree.Agrees other)
    (now : Registry) (host : Host) : other.outcome now order host = tree.outcome now order host := by
  rw [h.outcome_eq, (agrees.checked h).outcome_eq, agrees.below_eq]
  obtain ⟨-, due⟩ := h.due
  have inner : ∀ id ∈ (tree.below root result).postorder, (tree.node id).kind ≠ .root :=
    fun id mem => (due.inner id mem).2
  congr 1
  apply evaluatePart_congr
  generalize tree.below root result = part at inner ⊢
  induction part with
  | node id parts ih =>
    simp only [Rose.postorder_node, List.mem_append, List.mem_flatMap, List.mem_singleton] at inner
    simp only [senses, Rose.map_node, List.map_map, labelled, Rose.node.injEq, Prod.mk.injEq]
    refine ⟨⟨agrees.span_eq id, agrees.sense_eq (inner id (.inr rfl))⟩, List.map_congr_left ?_⟩
    intro part mem
    exact ih part mem fun id inside => inner id (.inl ⟨part, mem, inside⟩)

end Tree

end Reckoner
