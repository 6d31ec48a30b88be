import Reckoner.Proofs.Builder.Nodes
import Reckoner.Proofs.Lexeme.Outside
import Reckoner.Proofs.Tree.Sexpr

/-!
Reading the text of a tree back. The text of a leaf ends in front of a space or a closing parenthesis, or at its
second double quote. What an operation is called ends in front of the first space or, where it has no operands, of
the parenthesis that closes it, for only the symbols of conversions have parentheses and they begin with one. So a
text is that of one tree only, whatever follows behind a space or a closing parenthesis.
-/
namespace Reckoner

open Lexeme (Word Quoted kindOf)

/-- What a node says in the text of its tree: what it stands for, and how the source has it if it is a constant. -/
structure Node.Writing where
  kind : Node.Kind
  constant : Option String
deriving DecidableEq

/-- What the node says in the text of its tree. -/
def Node.writing (source : String) (node : Node) : Node.Writing :=
  ⟨node.kind, match node.kind with
    | .constant => some ((node.span.text? source).getD "?")
    | _ => none⟩

namespace Tree

/-- What follows begins with a space or a closing parenthesis. -/
def Stops (rest : List Char) : Prop :=
  ∀ c ∈ rest.head?, c = ' ' ∨ c = ')'

/-- No character begins another part of a text. -/
def Plain (text : List Char) : Prop :=
  ∀ c ∈ text, c ≠ ' ' ∧ c ≠ '"' ∧ c ≠ '(' ∧ c ≠ ')'

/-- Plain characters, or what stands between double quotes. -/
inductive Atom : List Char → Prop where
  | plain {text : List Char} : text ≠ [] → Plain text → Atom text
  | quoted {text : List Char} : Quoted text → Atom text

/-- The node is a variable or a constant with this text, of which one can tell that it is. -/
inductive Leaf (source : String) (node : Node) (text : String) : Prop where
  | variable (kind : node.kind = .variable text) (word : Word text.toList)
      (unresolved : kindOf text.toList = .unresolved) : Leaf source node text
  | constant (kind : node.kind = .constant) (read : node.span.text? source = some text) (atom : Atom text.toList)
      (value : Value) (isValue : kindOf text.toList = .constant value) : Leaf source node text

/-- The node is an operator with its operands, or a call of a name with so many arguments. -/
inductive Operation (node : Node) (count : Nat) : Prop where
  | operator {op : Operator} {fixity : Fixity} (kind : node.kind = .operator op fixity)
      (allowed : op.form.allows fixity = true) (operands : count = fixity.operandCount) : Operation node count
  | call {name : String} (kind : node.kind = .call name) (word : Word name.toList) : Operation node count

/-- All nodes are leaves and operations. -/
inductive Legible (source : String) : Rose Node → Prop where
  | leaf {node : Node} {text : String} : Leaf source node text → Legible source (.node node [])
  | operation {node : Node} {parts : List (Rose Node)} : Operation node parts.length →
      (∀ part ∈ parts, Legible source part) → Legible source (.node node parts)

variable {source other : String} {node node' : Node} {text : String} {count : Nat}
  {first second rest rest' : List Char} {parts parts' : List (Rose Node)} {tree tree' : Rose Node}

section Leaves

/-- Two beginnings of one text are the same if neither goes on where the other ends. -/
private theorem append_cancel (same : first ++ rest = second ++ rest')
    (here : ∀ c more after, second = first ++ c :: more → rest = c :: after → False)
    (there : ∀ c more after, first = second ++ c :: more → rest' = c :: after → False) :
    first = second ∧ rest = rest' := by
  rcases List.append_eq_append_iff.mp same with ⟨more, longer, behind⟩ | ⟨more, longer, behind⟩
  · cases more with
    | nil => exact ⟨by rw [longer, List.append_nil], behind⟩
    | cons c more => exact (here c more _ longer behind).elim
  · cases more with
    | nil => exact ⟨by rw [longer, List.append_nil], behind.symm⟩
    | cons c more => exact (there c more _ longer behind).elim

theorem atom_of_word (word : Word first) : Atom first := by
  refine .plain ?_ fun c mem => ?_
  · rintro rfl
    cases word
  · have continues := word.isContinue c mem
    refine ⟨?_, Lexeme.ne_of_isContinue continues⟩
    rintro rfl
    cases continues

theorem Atom.ne_nil (atom : Atom first) : first ≠ [] := by
  cases atom with
  | plain nonempty => exact nonempty
  | quoted quoted =>
    obtain ⟨body, -, rfl⟩ := quoted
    exact List.cons_ne_nil _ _

/-- The text of a leaf does not begin like that of an operation. -/
theorem Atom.ne_opening (atom : Atom first) : first ++ rest ≠ '(' :: rest' := by
  intro same
  cases atom with
  | plain nonempty free =>
    obtain ⟨c, more, rfl⟩ := List.exists_cons_of_ne_nil nonempty
    exact (free c List.mem_cons_self).2.2.1 (List.cons.inj same).1
  | quoted quoted =>
    obtain ⟨body, -, rfl⟩ := quoted
    cases (List.cons.inj same).1

private theorem Plain.ends (plain : Plain second) (stops : Stops rest) (c : Char) (more after : List Char)
    (longer : second = first ++ c :: more) (behind : rest = c :: after) : False := by
  have free := plain c (by simp [longer])
  rcases stops c (by simp [behind]) with rfl | rfl
  · exact free.1 rfl
  · exact free.2.2.2 rfl

private theorem Plain.ne_quoted (plain : Plain first) (nonempty : first ≠ []) (quoted : Quoted second) :
    first ++ rest ≠ second ++ rest' := by
  obtain ⟨body, -, rfl⟩ := quoted
  obtain ⟨c, more, rfl⟩ := List.exists_cons_of_ne_nil nonempty
  intro same
  exact (plain c List.mem_cons_self).2.1 (List.cons.inj same).1

private theorem quoted_unique (one : Quoted first) (two : Quoted second) (same : first ++ rest = second ++ rest') :
    first = second ∧ rest = rest' := by
  have ends {body body' rest : List Char} (unquoted : '"' ∉ body') (c : Char) (more after : List Char)
      (longer : body' = body ++ c :: more) (behind : '"' :: rest = c :: after) : False := by
    obtain ⟨rfl, -⟩ := List.cons.inj behind
    exact unquoted (by simp [longer])
  obtain ⟨body, unquoted, rfl⟩ := one
  obtain ⟨body', unquoted', rfl⟩ := two
  have bodies : body ++ '"' :: rest = body' ++ '"' :: rest' := by simpa using same
  obtain ⟨rfl, behind⟩ := append_cancel bodies (ends unquoted') (ends unquoted)
  exact ⟨rfl, (List.cons.inj behind).2⟩

/-- The text of a leaf ends where the next part of the text begins. -/
theorem Atom.unique (one : Atom first) (two : Atom second) (stops : Stops rest) (stops' : Stops rest')
    (same : first ++ rest = second ++ rest') : first = second ∧ rest = rest' := by
  cases one with
  | plain nonempty plain =>
    cases two with
    | plain _ plain' => exact append_cancel same (plain'.ends stops) (plain.ends stops')
    | quoted quoted => exact (plain.ne_quoted nonempty quoted same).elim
  | quoted quoted =>
    cases two with
    | plain nonempty plain => exact (plain.ne_quoted nonempty quoted same.symm).elim
    | quoted quoted' => exact quoted_unique quoted quoted' same

theorem Leaf.atom (leaf : Leaf source node text) : Atom text.toList := by
  cases leaf with
  | «variable» _ word => exact atom_of_word word
  | constant _ _ atom => exact atom

theorem Leaf.leafText?_eq (leaf : Leaf source node text) : leafText? source node = some text := by
  cases leaf with
  | «variable» kind => simp only [leafText?, kind]
  | constant kind read => simp only [leafText?, kind, read, Option.getD_some]

/-- The text of a leaf tells whether it is a variable or a constant, and which. -/
theorem Leaf.writing_eq (one : Leaf source node text) (two : Leaf other node' text) :
    node.writing source = node'.writing other := by
  cases one with
  | «variable» kind _ unresolved =>
    cases two with
    | «variable» kind' => simp only [Node.writing, kind, kind']
    | constant _ _ _ value isValue => cases unresolved.symm.trans isValue
  | constant kind read _ value isValue =>
    cases two with
    | «variable» _ _ unresolved => cases unresolved.symm.trans isValue
    | constant kind' read' => simp only [Node.writing, kind, kind', read, read']

end Leaves

section Operations

theorem Operation.leafText?_eq (operation : Operation node count) : leafText? source node = none := by
  cases operation with
  | operator kind | call kind => simp only [leafText?, kind]

private theorem headText_call {name : String} (kind : node.kind = .call name) : headText node = name := by
  simp only [headText, kind]

/-- What an operator is called with operands on these sides. -/
private def called (op : Operator) (fixity : Fixity) : String :=
  match fixity with
  | .trailing => "post" ++ op.symbol
  | _ => op.symbol

private theorem headText_operator {op : Operator} {fixity : Fixity} (kind : node.kind = .operator op fixity) :
    headText node = called op fixity := by
  cases fixity <;> simp only [headText, kind, called]

/-- What an operator is called has no space, and if it has a closing parenthesis it begins with an opening one. -/
private theorem called_spec {op : Operator} {fixity : Fixity} (allowed : op.form.allows fixity = true) :
    ' ' ∉ (called op fixity).toList ∧
      (')' ∈ (called op fixity).toList → (called op fixity).toList.head? = some '(') ∧
      Identifier.matchesAll (called op fixity).toList = false := by
  cases op <;> cases fixity <;> first | exact absurd allowed (by decide) | decide

private theorem called_inj {op op' : Operator} {fixity fixity' : Fixity}
    (count : fixity.operandCount = fixity'.operandCount) (same : called op fixity = called op' fixity') :
    op = op' ∧ fixity = fixity' := by
  have symbols {op op' : Operator} (same : op.symbol = op'.symbol) : op = op' := by
    have found := Operator.ofSymbol?_symbol op
    rw [same, Operator.ofSymbol?_symbol] at found
    exact (Option.some.inj found).symm
  have noPost (op op' : Operator) : op.symbol ≠ "post" ++ op'.symbol := by
    intro same
    have first : op.symbol.toList.head? = some 'p' := by
      rw [same, String.toList_append]
      rfl
    revert first
    cases op <;> decide
  cases fixity <;> cases fixity' <;> simp only [called] at same
  case binary.leading | binary.trailing | leading.binary | trailing.binary => cases count
  case leading.trailing => exact (noPost _ _ same).elim
  case trailing.leading => exact (noPost _ _ same.symm).elim
  case binary.binary | leading.leading => exact ⟨symbols same, rfl⟩
  case trailing.trailing =>
    have behind := congrArg String.toList same
    rw [String.toList_append, String.toList_append, List.append_cancel_left_eq] at behind
    exact ⟨symbols (String.toList_inj.mp behind), rfl⟩

theorem Operation.space_notMem (operation : Operation node count) : ' ' ∉ (headText node).toList := by
  cases operation with
  | operator kind allowed =>
    rw [headText_operator kind]
    exact (called_spec allowed).1
  | call kind word =>
    rw [headText_call kind]
    intro mem
    cases word.isContinue _ mem

theorem Operation.head?_of_closing (operation : Operation node count) (closing : ')' ∈ (headText node).toList) :
    (headText node).toList.head? = some '(' := by
  cases operation with
  | operator kind allowed =>
    rw [headText_operator kind] at closing ⊢
    exact (called_spec allowed).2.1 closing
  | call kind word =>
    rw [headText_call kind] at closing
    cases word.isContinue _ closing

/-- What stands behind the name of an operation with so many operands. -/
private def Beyond (count : Nat) (rest : List Char) : Prop :=
  rest.head? = some (if count = 0 then ')' else ' ')

/-- The name of an operation does not go on where that of another one ends. -/
private theorem Operation.ends (one : Operation node count) {count' : Nat} (two : Operation node' count')
    (follows : Beyond count rest) (c : Char) (more after : List Char)
    (longer : (headText node').toList = (headText node).toList ++ c :: more) (behind : rest = c :: after) : False := by
  have mem : c ∈ (headText node').toList := by simp [longer]
  rw [Beyond, behind, List.head?_cons, Option.some.injEq] at follows
  subst follows
  split at mem
  · next none =>
    -- Only a call can do without operands, and its name begins with no parenthesis.
    have opening := two.head?_of_closing mem
    cases one with
    | @operator op fixity _ _ operands => cases fixity <;> cases none.symm.trans operands
    | call kind word =>
      obtain ⟨d, ds, split⟩ := List.exists_cons_of_ne_nil (atom_of_word word).ne_nil
      rw [longer, headText_call kind, split, List.cons_append, List.head?_cons, Option.some.injEq] at opening
      rw [split, opening] at word
      cases (Lexeme.word_cons.mp word).1
  · exact two.space_notMem mem

/-- What an operation is called ends where its operands begin or the parenthesis closes. -/
theorem Operation.unique (one : Operation node count) {count' : Nat} (two : Operation node' count')
    (follows : Beyond count rest) (follows' : Beyond count' rest')
    (same : (headText node).toList ++ rest = (headText node').toList ++ rest') :
    headText node = headText node' ∧ rest = rest' := by
  obtain ⟨heads, behind⟩ := append_cancel same (one.ends two follows) (two.ends one follows')
  exact ⟨String.toList_inj.mp heads, behind⟩

/-- What it is called and the number of operands tell which operation it is. -/
theorem Operation.writing_eq (one : Operation node count) (two : Operation node' count)
    (same : headText node = headText node') : node.writing source = node'.writing other := by
  have apart {op : Operator} {fixity : Fixity} {name : String} (allowed : op.form.allows fixity = true)
      (word : Word name.toList) : called op fixity ≠ name := by
    rintro rfl
    exact Bool.false_ne_true ((called_spec allowed).2.2.symm.trans word)
  cases one with
  | operator kind allowed operands =>
    rw [headText_operator kind] at same
    cases two with
    | operator kind' _ operands' =>
      rw [headText_operator kind'] at same
      obtain ⟨rfl, rfl⟩ := called_inj (operands.symm.trans operands') same
      simp only [Node.writing, kind, kind']
    | call kind' word =>
      rw [headText_call kind'] at same
      exact (apart allowed word same).elim
  | call kind word =>
    rw [headText_call kind] at same
    cases two with
    | operator kind' allowed =>
      rw [headText_operator kind'] at same
      exact (apart allowed word same.symm).elim
    | call kind' =>
      rw [headText_call kind'] at same
      simp only [Node.writing, kind, kind', same]

end Operations

section Trees

private theorem toList_sexprAll_cons (part : Rose Node) (parts : List (Rose Node)) :
    (Rose.sexprAll source (part :: parts)).toList =
      ' ' :: ((part.sexpr source).toList ++ (Rose.sexprAll source parts).toList) := by
  rw [Rose.sexprAll, String.toList_append, String.toList_append]
  rfl

private theorem follows_sexprAll (parts : List (Rose Node)) (rest : List Char) :
    Beyond parts.length ((Rose.sexprAll source parts).toList ++ ')' :: rest) := by
  cases parts with
  | nil => rfl
  | cons part parts =>
    rw [toList_sexprAll_cons]
    rfl

private theorem stops_sexprAll (parts : List (Rose Node)) (rest : List Char) :
    Stops ((Rose.sexprAll source parts).toList ++ ')' :: rest) := by
  intro c mem
  rw [follows_sexprAll parts rest, Option.mem_some] at mem
  subst mem
  split
  · exact .inr rfl
  · exact .inl rfl

private theorem toList_sexpr_leaf (leaf : Leaf source node text) :
    ((Rose.node node parts).sexpr source).toList = text.toList := by
  simp only [Rose.sexpr, leaf.leafText?_eq]

private theorem toList_sexpr_operation (operation : Operation node count) :
    ((Rose.node node parts).sexpr source).toList =
      '(' :: ((headText node).toList ++ ((Rose.sexprAll source parts).toList ++ [')'])) := by
  simp only [Rose.sexpr, operation.leafText?_eq, String.toList_append, List.append_assoc]
  rfl

/-- The texts of operands are those of one list of trees only, if that is so for each of them. -/
private theorem unique_sexprAll
    (each : ∀ part ∈ parts, ∀ {tree : Rose Node} {rest rest' : List Char}, Legible other tree → Stops rest →
      Stops rest' → (part.sexpr source).toList ++ rest = (tree.sexpr other).toList ++ rest' →
      part.map (Node.writing source) = tree.map (Node.writing other) ∧ rest = rest')
    (legible : ∀ part ∈ parts', Legible other part)
    (same : (Rose.sexprAll source parts).toList ++ ')' :: rest =
      (Rose.sexprAll other parts').toList ++ ')' :: rest') :
    parts.map (Rose.map (Node.writing source)) = parts'.map (Rose.map (Node.writing other)) ∧ rest = rest' := by
  induction parts generalizing parts' with
  | nil =>
    cases parts' with
    | nil => exact ⟨rfl, (List.cons.inj same).2⟩
    | cons part' parts' =>
      rw [toList_sexprAll_cons] at same
      cases (List.cons.inj same).1
  | cons part parts ih =>
    cases parts' with
    | nil =>
      rw [toList_sexprAll_cons] at same
      cases (List.cons.inj same).1
    | cons part' parts' =>
      rw [toList_sexprAll_cons, toList_sexprAll_cons, List.cons_append, List.cons_append, List.append_assoc,
        List.append_assoc] at same
      obtain ⟨first, behind⟩ := each part List.mem_cons_self (legible part' List.mem_cons_self)
        (stops_sexprAll parts rest) (stops_sexprAll parts' rest') (List.cons.inj same).2
      obtain ⟨others, after⟩ := ih (fun part mem => each part (List.mem_cons_of_mem _ mem))
        (fun part mem => legible part (List.mem_cons_of_mem _ mem)) behind
      exact ⟨by rw [List.map_cons, List.map_cons, first, others], after⟩

/-- A text is that of one tree only, and it ends where this tree has it. -/
theorem Legible.unique (one : Legible source tree) (two : Legible other tree') (stops : Stops rest)
    (stops' : Stops rest') (same : (tree.sexpr source).toList ++ rest = (tree'.sexpr other).toList ++ rest') :
    tree.map (Node.writing source) = tree'.map (Node.writing other) ∧ rest = rest' := by
  induction one generalizing tree' rest rest' with
  | leaf leaf =>
    rw [toList_sexpr_leaf leaf] at same
    cases two with
    | leaf leaf' =>
      rw [toList_sexpr_leaf leaf'] at same
      obtain ⟨texts, behind⟩ := leaf.atom.unique leaf'.atom stops stops' same
      rw [String.toList_inj] at texts
      subst texts
      exact ⟨by rw [Rose.map_node, Rose.map_node, leaf.writing_eq leaf']; rfl, behind⟩
    | operation operation' =>
      rw [toList_sexpr_operation operation'] at same
      exact (leaf.atom.ne_opening same).elim
  | @operation node parts operation below ih =>
    rw [toList_sexpr_operation operation] at same
    cases two with
    | leaf leaf' =>
      rw [toList_sexpr_leaf leaf'] at same
      exact (leaf'.atom.ne_opening same.symm).elim
    | @operation node' parts' operation' below' =>
      rw [toList_sexpr_operation operation'] at same
      simp only [List.cons_append, List.append_assoc, List.nil_append] at same
      obtain ⟨heads, operands⟩ := operation.unique operation' (follows_sexprAll parts rest)
        (follows_sexprAll parts' rest') (List.cons.inj same).2
      obtain ⟨children, behind⟩ := unique_sexprAll (fun part mem => ih part mem) below' operands
      have count : parts.length = parts'.length := by simpa using congrArg List.length children
      rw [← count] at operation'
      exact ⟨by rw [Rose.map_node, Rose.map_node, operation.writing_eq operation' heads, children], behind⟩

private theorem leafText?_congr (same : node.writing source = node'.writing other) :
    leafText? source node = leafText? other node' := by
  have kind : node.kind = node'.kind := congrArg Node.Writing.kind same
  have constant := congrArg Node.Writing.constant same
  simp only [Node.writing, kind] at constant
  cases isConstant : node'.kind with
  | constant =>
    rw [isConstant] at constant
    simp only [leafText?, kind, isConstant, Option.some.inj constant]
  | root | operator | call | «variable» => simp only [leafText?, kind, isConstant]

/-- Trees that say the same have the same text. -/
theorem sexpr_congr (same : tree.map (Node.writing source) = tree'.map (Node.writing other)) :
    tree.sexpr source = tree'.sexpr other := by
  induction tree generalizing tree' with
  | node node parts ih =>
    obtain ⟨node', parts'⟩ := tree'
    rw [Rose.map_node, Rose.map_node, Rose.node.injEq] at same
    obtain ⟨top, children⟩ := same
    have head : headText node = headText node' := by
      simp only [headText, show node.kind = node'.kind from congrArg Node.Writing.kind top]
    have operands : Rose.sexprAll source parts = Rose.sexprAll other parts' := by
      induction parts generalizing parts' with
      | nil =>
        obtain rfl := List.map_eq_nil_iff.mp children.symm
        rfl
      | cons part parts later =>
        obtain ⟨part', parts', rfl, first, others⟩ := List.map_eq_cons_iff.mp children.symm
        rw [Rose.sexprAll, Rose.sexprAll, ih part List.mem_cons_self first.symm,
          later (fun part mem => ih part (List.mem_cons_of_mem _ mem)) parts' others.symm]
    rw [Rose.sexpr, Rose.sexpr, leafText?_congr top, head, operands]

end Trees

end Tree

end Reckoner
