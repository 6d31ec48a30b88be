import Reckoner.Expression
import Reckoner.Proofs.Builder.Arrangement
import Reckoner.Proofs.Expression.Causes
import Reckoner.Proofs.Lexeme.Kind
import Reckoner.Proofs.Lexeme.Picks

/-!
The operands of step operators. The side that classifying picks is the one that the tree has: the operand of a step
operator is the node of the variable that it was put next to. So the checker finds a variable there.
-/
namespace Reckoner

open Lexeme (Picks)

/-- The node of the lexeme of rank `i`: the nodes are in the order of the lexemes that are no punctuation. -/
def Tree.nodeOf? (tree : Tree) (lexemes : List Lexeme) (i : Nat) : Option NodeId :=
  tree.inOrder[(lexemes.take i).countP (fun lexeme => !lexeme.isPunctuation)]?

namespace Tree

variable {tree : Tree} {rose : Rose NodeId} {id : NodeId} {op : Operator} {fixity : Fixity}

private theorem nodeOf?_of_inOrder {before rest : List Lexeme} {front back : List NodeId}
    (inOrder : tree.inOrder = front ++ id :: back)
    (count : before.countP (fun lexeme => !lexeme.isPunctuation) = front.length) :
    tree.nodeOf? (before ++ rest) before.length = some id := by
  simp [nodeOf?, inOrder, count]

/-- A step operator at a variable by itself has its node next to that of the variable. -/
theorem exists_cell_of_stepped (shows : tree.Shows rose)
    (stepped : Term.Stepped (rose.map fun id => (tree.node id).label)) (mem : id ∈ rose.postorder)
    (kind : (tree.node id).kind = .operator op fixity) (isStep : op.form.needsSide = true) :
    ∃ child, (tree.node id).children = [child] ∧ (tree.node child).isVariable = true ∧
      (if fixity = .leading then [id, child] else [child, id]) <:+: rose.inorder fun id => (tree.node id).kind.before := by
  induction shows with
  | node top parts children each ih =>
    rw [Rose.map_node] at stepped
    cases stepped with
    | node here below =>
      rw [Rose.postorder_node] at mem
      rcases List.mem_append.mp mem with inside | isTop
      · obtain ⟨part, isPart, inside⟩ := List.mem_flatMap.mp inside
        obtain ⟨child, only, isVariable, within⟩ := ih part isPart (below _ (List.mem_map_of_mem isPart)) inside
        exact ⟨child, only, isVariable, within.trans (Rose.inorder_infix _ isPart)⟩
      · obtain rfl := List.mem_singleton.mp isTop
        obtain ⟨operand, single, name, cell, span, rfl⟩ := here op fixity kind isStep
        obtain ⟨part, rfl, leaf⟩ := List.map_eq_singleton_iff.mp single
        cases part with
        | node child parts =>
          rw [Rose.map_node, Term.cell, Rose.node.injEq, List.map_eq_nil_iff] at leaf
          obtain ⟨label, rfl⟩ := leaf
          have isVariable : (tree.node child).kind = .variable name := congrArg Label.kind label
          refine ⟨child, children, by rw [Node.isVariable, isVariable], ?_⟩
          rw [Rose.inorder_node, kind]
          cases fixity <;> simp [Node.Kind.before]

/-- The lexeme of a node with everything before and behind it. -/
private theorem exists_lexeme {lexemes : List Lexeme} {front back : List NodeId} {relation : Lexeme → NodeId → Prop}
    (h : List.Forall₂ relation (lexemes.filter fun lexeme => !lexeme.isPunctuation) (front ++ id :: back)) :
    ∃ before lexeme rest, lexemes = before ++ lexeme :: rest ∧ lexeme.isPunctuation = false ∧ relation lexeme id ∧
      before.countP (fun lexeme => !lexeme.isPunctuation) = front.length ∧
      List.Forall₂ relation (rest.filter fun lexeme => !lexeme.isPunctuation) back := by
  induction lexemes generalizing front with
  | nil =>
    have lengths := h.length_eq
    simp at lengths
  | cons lexeme lexemes ih =>
    by_cases mark : lexeme.isPunctuation = true
    · rw [List.filter_cons_of_neg (by simp [mark])] at h
      obtain ⟨before, found, rest, rfl, others⟩ := ih h
      exact ⟨lexeme :: before, found, rest, rfl, by simpa [mark] using others⟩
    · rw [List.filter_cons_of_pos (by simp [mark])] at h
      cases front with
      | nil =>
        cases h with
        | cons here later => exact ⟨[], lexeme, lexemes, rfl, by simpa using mark, here, rfl, later⟩
      | cons first front =>
        cases h with
        | cons here later =>
          obtain ⟨before, found, rest, rfl, others⟩ := ih later
          exact ⟨lexeme :: before, found, rest, rfl, by simpa [mark] using others⟩

/-- The lexeme of an operator node, which can take its operands in this way. -/
private theorem operator_of_spells {lexeme : Lexeme} (spells : lexeme.token.Spells [(tree.node id).label])
    (kind : (tree.node id).kind = .operator op fixity) :
    ∃ occurrence, lexeme.kind = .operator occurrence ∧ occurrence.operator = op ∧
      occurrence.form.allows fixity = true := by
  cases Lexeme.becomes_of_spells spells with
  | constant _ _ same | «variable» _ _ same | call _ same =>
    rw [kind] at same
    cases same
  | operator occurrence other isOperator same =>
    rw [kind] at same
    cases same
    refine ⟨occurrence, isOperator, rfl, ?_⟩
    simp only [Lexeme.token, isOperator, Node.label, kind] at spells
    split at spells
    case h_4 =>
      cases spells with
      | leading allowed | trailing allowed | binary allowed => exact allowed
    all_goals cases spells

private theorem not_isPunctuation {lexeme : Lexeme} (lvalue : lexeme.isLvalue = true) :
    lexeme.isPunctuation = false := by
  unfold Lexeme.isLvalue at lvalue
  split at lvalue
  · next cell kind =>
    simp [Lexeme.isPunctuation, Lexeme.opensGroup, Lexeme.closesGroup, Lexeme.isComma, Lexeme.isOperatorOf,
      Lexeme.occurrence?, kind]
  · cases lvalue

/-- The operand of a step operator is the node of the variable that it picks. -/
structure StepsAt (tree : Tree) (lexemes : List Lexeme) (id : NodeId) (fixity : Fixity) (i k : Nat) : Prop where
  picks : Picks lexemes i k
  side : fixity = .leading ∧ k = i + 1 ∨ fixity = .trailing ∧ i = k + 1
  node : tree.nodeOf? lexemes i = some id
  step : ∃ lexeme, lexemes[i]? = some lexeme ∧ lexeme.Becomes (tree.node id)
  operand : ∃ child name, (tree.node id).children = [child] ∧ tree.nodeOf? lexemes k = some child ∧
    lexemes[k]? = some name ∧ name.isLvalue = true ∧ name.Becomes (tree.node child)

variable {registry : Registry} {source : String} {lexemes classified : List Lexeme} {limit : Nat}

/-- What stands next to each other in the tree does so among the lexemes. -/
private theorem stepsAt_of_pair (read : Lexeme.tokenize source = .ok lexemes)
    (known : Lexeme.classify registry lexemes = .ok classified) {child : NodeId}
    (spells : List.Forall₂ (fun lexeme id => lexeme.token.Spells [(tree.node id).label])
      (classified.filter fun lexeme => !lexeme.isPunctuation) tree.inOrder)
    (kind : (tree.node id).kind = .operator op fixity) (isStep : op.form.needsSide = true)
    (only : (tree.node id).children = [child])
    (pair : (if fixity = .leading then [id, child] else [child, id]) <:+: tree.inOrder) :
    ∃ i k, tree.StepsAt classified id fixity i k := by
  obtain ⟨front, back, inOrder⟩ := pair
  cases fixity with
  | binary =>
    replace inOrder : tree.inOrder = (front ++ [child]) ++ id :: back := by simpa using inOrder.symm
    rw [inOrder] at spells
    obtain ⟨before, lexeme, rest, rfl, -, here, -⟩ := exists_lexeme spells
    obtain ⟨occurrence, isOperator, rfl, between⟩ := operator_of_spells here kind
    have settled := Lexeme.settled_of_classify read known lexeme (by simp)
    rw [Lexeme.Settled, isOperator] at settled
    exact absurd ((settled.of_step isStep).2.symm.trans between) Bool.false_ne_true
  | leading =>
    replace inOrder : tree.inOrder = front ++ id :: child :: back := by simpa using inOrder.symm
    rw [inOrder] at spells
    obtain ⟨before, lexeme, rest, rfl, notMark, here, count, later⟩ := exists_lexeme spells
    obtain ⟨occurrence, isOperator, rfl, leads⟩ := operator_of_spells here kind
    obtain ⟨name, after, rfl, lvalue⟩ := Lexeme.exists_ahead read known isOperator isStep leads
    rw [List.filter_cons_of_pos (by simp [not_isPunctuation lvalue])] at later
    obtain ⟨next, -⟩ := List.forall₂_cons.mp later
    have split : tree.inOrder = (front ++ [id]) ++ child :: back := by simpa using inOrder
    have operand : tree.nodeOf? ((before ++ [lexeme]) ++ name :: after) (before ++ [lexeme]).length = some child :=
      nodeOf?_of_inOrder split (by simp [count, notMark])
    exact ⟨before.length, before.length + 1,
      ⟨lexeme, occurrence, by simp, isOperator, isStep, .inl ⟨leads, rfl⟩⟩, .inl ⟨rfl, rfl⟩,
      nodeOf?_of_inOrder inOrder count, ⟨lexeme, by simp, Lexeme.becomes_of_spells here⟩,
      child, name, only, by simpa using operand, by simp, lvalue, Lexeme.becomes_of_spells next⟩
  | trailing =>
    replace inOrder : tree.inOrder = front ++ child :: id :: back := by simpa using inOrder.symm
    rw [inOrder] at spells
    obtain ⟨before, name, rest, rfl, notMark, here, count, later⟩ := exists_lexeme spells
    rw [← List.nil_append (id :: back)] at later
    obtain ⟨between, lexeme, after, rfl, -, step, nothing, -⟩ := exists_lexeme later
    obtain ⟨occurrence, isOperator, rfl, trails⟩ := operator_of_spells step kind
    have whole : Lexeme.classify registry lexemes = .ok ((before ++ name :: between) ++ lexeme :: after) := by
      simpa using known
    obtain ⟨others, last, split, lvalue⟩ := Lexeme.exists_behind read whole isOperator trails
    -- only punctuation could stand between the two, and a variable is none
    obtain rfl : between = [] := by
      by_contra some
      have isLast := congrArg List.getLast? split
      rw [List.getLast?_append_of_ne_nil _ (List.cons_ne_nil _ _), List.getLast?_cons_of_ne_nil some,
        List.getLast?_concat] at isLast
      have mark := List.countP_eq_zero.mp nothing last (List.mem_of_getLast? isLast)
      simp [not_isPunctuation lvalue] at mark
    obtain ⟨rfl, same⟩ := List.append_inj' split rfl
    obtain rfl := List.singleton_inj.mp same
    have apart : tree.inOrder = (front ++ [child]) ++ id :: back := by simpa using inOrder
    have node : tree.nodeOf? ((before ++ [name]) ++ lexeme :: after) (before ++ [name]).length = some id :=
      nodeOf?_of_inOrder apart (by simp [count, notMark])
    exact ⟨before.length + 1, before.length,
      ⟨lexeme, occurrence, by simp, isOperator, isStep, .inr ⟨trails, rfl⟩⟩, .inr ⟨rfl, rfl⟩,
      by simpa using node, ⟨lexeme, by simp, Lexeme.becomes_of_spells step⟩,
      child, name, only, nodeOf?_of_inOrder inOrder count, by simp, lvalue, Lexeme.becomes_of_spells here⟩

/-- Every step operator has the variable that it picks, if the lexemes leave it to it. -/
private theorem operands_of_once {tree : Tree} (read : Lexeme.tokenize source = .ok lexemes)
    (known : Lexeme.classify registry lexemes = .ok classified)
    (built : Tree.build source classified limit = .ok tree)
    (once : ∀ i j k, Picks classified i k → Picks classified j k → i = j)
    (noCast : ∀ k lexeme, Picks classified (k + 2) (k + 1) → classified[k]? = some lexeme → lexeme.isCast = false)
    (id : NodeId) (kind : (tree.node id).kind = .operator op fixity) (isStep : op.form.needsSide = true) :
    (∃ i k, tree.StepsAt classified id fixity i k) ∧
      ∃ child, (tree.node id).children = [child] ∧ (tree.node child).isVariable = true := by
  obtain ⟨root, result, formed⟩ := Builder.formed_of_build (Lexeme.settled_of_classify read known) built
  obtain ⟨term, isTerm, run⟩ := Builder.term?_of_build (Item.proper_of_classify read known) built
  obtain ⟨parts, each, spelling⟩ := Machine.spelling_run run
  have spells := forall_spells each <| by
    have same := tree.map_inOrder
    rwa [isTerm, Option.elim_some, spelling] at same
  have stepped := Grammar.stepped_of_parse? (Lexeme.sided_of_classify read known once noCast)
    ((Machine.parse?_eq_run _).trans run)
  have top : tree.term? = some (tree.term result) := by
    simp [term?, formed.result?_eq]
  obtain rfl : term = tree.term result := Option.some.inj (isTerm.symm.trans top)
  have mem : id ∈ tree.inOrder := formed.mem_inOrder (by simp [kind])
  rw [formed.inOrder_eq, (Rose.inorder_perm_postorder _ _).mem_iff] at mem
  obtain ⟨child, only, isVariable, pair⟩ := exists_cell_of_stepped
    (shows_below formed.descending (Nat.lt_trans formed.result_lt formed.root_lt)) stepped mem kind isStep
  rw [← formed.inOrder_eq] at pair
  exact ⟨stepsAt_of_pair read known spells kind isStep only pair, child, only, isVariable⟩

/-- The checker finds no variable only where there is none. -/
private theorem checkOperator_notAnLvalue {span : Span} {operands : List Operand} {error : CompileError}
    {symbol : String} (failed : checkOperator op fixity span operands = .error error)
    (cause : error.cause = .notAnLvalue symbol) :
    symbol = op.symbol ∧ ∃ first rest, operands = first :: rest ∧ first.isVariable = false := by
  by_cases count : operands.length = fixity.operandCount
  · cases (checkOperator_error_iff count).mp failed with
    | unsupported | mismatch => cases cause
    | noLvalue _ _ _ noVariable =>
      cases cause
      exact ⟨rfl, _, _, rfl, noVariable⟩
  · simp only [checkOperator, ne_eq, count, not_false_eq_true, if_true] at failed
    cases failed
    cases cause

/-- Where an operator has variables for operands, the checker never misses them. -/
private theorem check_notAnLvalue {checked : Tree} {error : CompileError} {order : List NodeId}
    (targets : ∀ id fixity, (tree.node id).kind = .operator op fixity →
      ∃ child, (tree.node id).children = [child] ∧ (tree.node child).isVariable = true)
    (failed : tree.check registry order = (.error error, checked)) : error.cause ≠ .notAnLvalue op.symbol := by
  induction order generalizing tree with
  | nil => cases failed
  | cons id rest ih =>
    rw [check] at failed
    split at failed
    · refine ih (fun other fixity kind => ?_) failed
      rw [kind_setType] at kind
      obtain ⟨child, only, isVariable⟩ := targets other fixity kind
      exact ⟨child, by rw [children_setType, only], by rwa [Node.isVariable, kind_setType]⟩
    · next here =>
      cases failed
      unfold checkNode at here
      dsimp only at here
      split at here
      · cases here
      · cases here
      · cases here
      · next other fixity kind =>
        intro cause
        obtain ⟨same, first, others, operands, missing⟩ := checkOperator_notAnLvalue here cause
        obtain rfl : op = other := by simpa [Operator.ofSymbol?_symbol] using congrArg Operator.ofSymbol? same
        obtain ⟨child, only, isVariable⟩ := targets id fixity kind
        rw [operandsOf, only, List.map_singleton, List.cons.injEq] at operands
        obtain ⟨rfl, -⟩ := operands
        exact absurd (missing.symm.trans isVariable) Bool.false_ne_true
      · intro cause
        have miscalled := checkCall_error here
        rw [cause] at miscalled
        cases miscalled

/-- Where no variable is picked twice, and none from behind that stands behind a cast, every step operator has the
variable that it picks for its operand. So no step operator is refused for want of a variable. -/
theorem step_operands {tree : Tree} (read : Lexeme.tokenize source = .ok lexemes)
    (known : Lexeme.classify registry lexemes = .ok classified)
    (built : Tree.build source classified limit = .ok tree)
    (once : ∀ i j k, Picks classified i k → Picks classified j k → i = j)
    (noCast : ∀ k lexeme, Picks classified (k + 2) (k + 1) → classified[k]? = some lexeme →
      lexeme.isCast = false) :
    (∀ id op fixity, (tree.node id).kind = .operator op fixity → op = .increment ∨ op = .decrement →
      ∃ i k, tree.StepsAt classified id fixity i k) ∧
    ∀ error (op : Operator), Expression.compileTree registry limit source = .error error → op = .increment ∨ op = .decrement →
      error.cause ≠ .notAnLvalue op.symbol := by
  have isStep {op : Operator} (isStep : op = .increment ∨ op = .decrement) : op.form.needsSide = true := by
    rcases isStep with rfl | rfl <;> rfl
  refine ⟨fun id op fixity kind step => (operands_of_once read known built once noCast id kind (isStep step)).1,
    fun error op failed step => ?_⟩
  simp only [Expression.compileTree, Expression.parse, read, known, built, bind, Except.bind] at failed
  split at failed
  · cases failed
  · next unchecked =>
    cases failed
    exact check_notAnLvalue
      (fun id fixity kind => (operands_of_once read known built once noCast id kind (isStep step)).2) unchecked

/-- In `-x++ * --y` each step operator has its variable, in spite of the sign. -/
theorem step_operands_sign :
    ∃ lexemes classified tree registry, Lexeme.tokenize "-x++ * --y" = .ok lexemes ∧
      Lexeme.classify registry lexemes = .ok classified ∧ Tree.build "-x++ * --y" classified 10 = .ok tree ∧
      (∀ i j k, Picks classified i k → Picks classified j k → i = j) ∧
      (∀ k lexeme, Picks classified (k + 2) (k + 1) → classified[k]? = some lexeme → lexeme.isCast = false) ∧
      (∀ id op fixity, (tree.node id).kind = .operator op fixity → op = .increment ∨ op = .decrement →
        ∃ i k, tree.StepsAt classified id fixity i k) ∧
      ∀ error (op : Operator), Expression.compileTree registry 10 "-x++ * --y" = .error error →
        op = .increment ∨ op = .decrement → error.cause ≠ .notAnLvalue op.symbol := by
  have stages : ∃ lexemes classified tree, Lexeme.tokenize "-x++ * --y" = .ok lexemes ∧
      Lexeme.classify ⟨.insert (.insert .empty "x" (.int 0)) "y" (.int 0), .empty⟩ lexemes = .ok classified ∧
      Tree.build "-x++ * --y" classified 10 = .ok tree ∧
      classified.map Lexeme.occurrence? =
        [some ⟨.subtraction, ⟨false, true, false, false⟩, Operator.unaryPrecedence, .right⟩, none,
          some ⟨.increment, ⟨false, false, true, true⟩, Operator.unaryPrecedence, .right⟩,
          some (.ofOperator .multiplication),
          some ⟨.decrement, ⟨false, true, false, true⟩, Operator.unaryPrecedence, .right⟩, none] :=
    ⟨_, _, _, by cbv, by cbv, by cbv, by cbv⟩
  obtain ⟨lexemes, classified, tree, read, known, built, row⟩ := stages
  have picked : ∀ i k, Picks classified i k → i = 2 ∧ k = 1 ∨ i = 4 ∧ k = 5 := by
    intro i k picks
    obtain ⟨occurrence, here, isStep, side⟩ := row ▸ Lexeme.picks_iff.mp picks
    rcases i with _ | _ | _ | _ | _ | _ | i <;> cases here
    · cases isStep
    · simpa using side
    · cases isStep
    · simpa using side
  have once : ∀ i j k, Picks classified i k → Picks classified j k → i = j := by
    intro i j k first second
    have := picked i k first
    have := picked j k second
    omega
  have noCast : ∀ k lexeme, Picks classified (k + 2) (k + 1) → classified[k]? = some lexeme →
      lexeme.isCast = false := by
    intro k lexeme behind found
    obtain rfl : k = 0 := by
      have := picked _ _ behind
      omega
    have here := congrArg (·[0]?) row
    simp only [List.getElem?_map, found, Option.map_some] at here
    rw [Lexeme.isCast, Option.some.inj here]
    rfl
  exact ⟨lexemes, classified, tree, _, read, known, built, once, noCast,
    step_operands read known built once noCast⟩

/-- A cast takes the variable in front of a step operator, which then has the cast for its operand. -/
theorem cast_before_step :
    ∃ lexemes classified tree registry, Lexeme.tokenize "(int)x++" = .ok lexemes ∧
      Lexeme.classify registry lexemes = .ok classified ∧ Tree.build "(int)x++" classified 10 = .ok tree ∧
      (∀ i j k, Picks classified i k → Picks classified j k → i = j) ∧ Picks classified 2 1 ∧
      ∃ id, (tree.node id).kind = .operator .increment .trailing ∧
        (¬ ∃ i k, tree.StepsAt classified id .trailing i k) ∧
        ∃ error, Expression.compileTree registry 10 "(int)x++" = .error error ∧ error.cause = .notAnLvalue "++" := by
  have stages : ∃ lexemes classified tree error, Lexeme.tokenize "(int)x++" = .ok lexemes ∧
      Lexeme.classify ⟨.insert .empty "x" (.int 0), .empty⟩ lexemes = .ok classified ∧
      Tree.build "(int)x++" classified 10 = .ok tree ∧
      classified.map Lexeme.occurrence? =
        [some (.ofOperator .castInt), none,
          some ⟨.increment, ⟨false, false, true, true⟩, Operator.unaryPrecedence, .right⟩] ∧
      (tree.node 2).kind = .operator .increment .trailing ∧ (tree.node 2).children = [1] ∧
      tree.nodeOf? classified 1 = some 0 ∧
      Expression.compileTree ⟨.insert .empty "x" (.int 0), .empty⟩ 10 "(int)x++" = .error error ∧
      error.cause = .notAnLvalue "++" :=
    ⟨_, _, _, _, by cbv, by cbv, by cbv, by cbv, by cbv, by cbv, by cbv, by cbv, by cbv⟩
  obtain ⟨lexemes, classified, tree, error, read, known, built, row, kind, children, node, refused⟩ := stages
  have picked : ∀ i k, Picks classified i k → i = 2 ∧ k = 1 := by
    intro i k picks
    obtain ⟨occurrence, here, isStep, side⟩ := row ▸ Lexeme.picks_iff.mp picks
    rcases i with _ | _ | _ | i <;> cases here
    · cases isStep
    · simpa using side
  refine ⟨lexemes, classified, tree, _, read, known, built, ?_, ?_, 2, kind, ?_, error, refused⟩
  · intro i j k first second
    rw [(picked i k first).1, (picked j k second).1]
  · rw [Lexeme.picks_iff, row]
    exact ⟨_, rfl, rfl, .inr ⟨rfl, rfl⟩⟩
  · rintro ⟨i, k, steps⟩
    obtain ⟨-, rfl⟩ := picked i k steps.picks
    obtain ⟨child, name, only, isChild, -⟩ := steps.operand
    rw [children, List.singleton_inj] at only
    rw [node, ← only] at isChild
    cases isChild

end Tree

end Reckoner
