import Reckoner.Proofs.Lexeme.Settled

/-!
How the lexemes of a classified source stand beside each other. Their order and their operators are those
of the source; a function name stands before a parenthesis, a step operator that trails behind a variable,
and what is still a sign behind something that an operand can end with.
-/
namespace Reckoner.Lexeme

/-- Each lexeme stands to the one before it, or to the given one, as it should. -/
def Follows (relation : Option Lexeme → Lexeme → Prop) : Option Lexeme → List Lexeme → Prop
  | _, [] => True
  | previous, lexeme :: rest => relation previous lexeme ∧ Follows relation (some lexeme) rest

/-- An operator trails a variable only. -/
def BehindLvalue (previous : Option Lexeme) (lexeme : Lexeme) : Prop :=
  ∀ occurrence, lexeme.kind = .operator occurrence → occurrence.form.trailing = true →
    previous.any isLvalue = true

/-- An operator can be binary as well as unary only behind an operand. -/
def BehindOperand (previous : Option Lexeme) (lexeme : Lexeme) : Prop :=
  ∀ occurrence, lexeme.kind = .operator occurrence → occurrence.form.isIndefinite = true →
    previous.any endsOperand = true

/-- Every function name stands before an opening parenthesis. -/
def Calls : List Lexeme → Prop
  | [] => True
  | lexeme :: rest => (lexeme.kind = .function → rest.head?.any opensGroup = true) ∧ Calls rest

/-- The rank of the lexeme, and the operator that it is. -/
def place (lexeme : Lexeme) : Nat × Option Operator :=
  (lexeme.position, lexeme.occurrence?.map (·.operator))

/-- The lexeme with nothing said about where the operands of an operator stand. -/
def plain (lexeme : Lexeme) : Lexeme :=
  match lexeme.kind with
  | .operator occurrence => { lexeme with kind := .operator (.ofOperator occurrence.operator) }
  | _ => lexeme

theorem isOperatorOf_congr {first second : Lexeme} (same : first.place = second.place)
    (op : Operator) : first.isOperatorOf op = second.isOperatorOf op := by
  have : ∀ lexeme : Lexeme, lexeme.isOperatorOf op = lexeme.place.2.any (· == op) := by
    intro lexeme
    simp only [isOperatorOf, place]
    cases lexeme.occurrence? <;> rfl
  rw [this, this, same]

theorem place_plain (lexeme : Lexeme) : lexeme.plain.place = lexeme.place := by
  unfold plain
  split
  · next isOperator => simp [place, occurrence?, isOperator, Occurrence.ofOperator]
  · rfl

theorem place_eq_of_plain_eq {first second : Lexeme} (same : first.plain = second.plain) :
    first.place = second.place := by
  rw [← place_plain first, same, place_plain]

theorem isLvalue_plain (lexeme : Lexeme) : lexeme.plain.isLvalue = lexeme.isLvalue := by
  unfold plain
  split
  · next isOperator => simp [isLvalue, isOperator]
  · rfl

theorem plain_eq_of_operator {lexeme : Lexeme} {occurrence other : Occurrence}
    (isOperator : lexeme.kind = .operator occurrence) (same : other.operator = occurrence.operator) :
    plain { lexeme with kind := .operator other } = lexeme.plain := by
  simp only [plain, isOperator, same]

theorem function_iff_of_plain_eq {first second : Lexeme} (same : first.plain = second.plain) :
    first.kind = .function ↔ second.kind = .function := by
  have : ∀ lexeme : Lexeme, lexeme.kind = .function ↔ lexeme.plain.kind = .function := by
    intro lexeme
    unfold plain
    split
    · next isOperator => simp [isOperator]
    · rfl
  rw [this first, this second, same]

/-- No identifier is an operator symbol. -/
theorem ofSymbol?_of_isStart {c : Char} {cs : List Char} (start : Identifier.isStart c = true) :
    Operator.ofSymbol? (String.ofList (c :: cs)) = none := by
  have first : ∀ op : Operator, op.symbol.toList.head?.any Identifier.isStart = false := by
    intro op
    cases op <;> decide
  refine List.find?_eq_none.mpr fun op _ same => ?_
  have isSymbol : op.symbol = String.ofList (c :: cs) := by simpa using same
  have := first op
  rw [isSymbol] at this
  simp [start] at this

/-- What has to be looked up begins like an identifier. -/
theorem front_unresolved {c : Char} {cs : List Char} {found : Front}
    (h : front c cs = .ok found) (unresolved : found.kind = .unresolved) :
    Identifier.isStart c = true := by
  cases finds_of_front h with
  | identifier _ start => exact start
  | symbol | text | numeral => cases unresolved

/-- Lexemes are ranked in their order, and no name is an operator symbol. -/
theorem scan_ranked {offset position : Nat} {cs : List Char} {lexemes : List Lexeme}
    (h : scan offset position cs = .ok lexemes) :
    (∀ lexeme ∈ lexemes, position ≤ lexeme.position) ∧
      (lexemes.Pairwise fun first second => first.position < second.position) ∧
      ∀ lexeme ∈ lexemes, lexeme.kind = .unresolved → Operator.ofSymbol? lexeme.text = none := by
  fun_induction scan offset position cs generalizing lexemes with
  | case1 =>
    cases h
    simp
  | case2 _ _ _ _ _ ih => exact ih h
  | case3 | case5 => cases h
  | case4 offset position c cs _ found isFront text stop lexeme rest ran =>
    rename_i ih
    cases h
    obtain ⟨least, sorted, named⟩ := ih ran
    refine ⟨List.forall_mem_cons.mpr ⟨Nat.le_refl _, fun other mem => Nat.le_of_succ_le (least other mem)⟩,
      List.pairwise_cons.mpr ⟨fun other mem => least other mem, sorted⟩,
      List.forall_mem_cons.mpr ⟨fun unresolved => ?_, named⟩⟩
    exact ofSymbol?_of_isStart (front_unresolved isFront unresolved)

private theorem place_resolve {registry : Registry} {lexeme : Lexeme} {beforeGroup : Bool} {kind : Kind}
    (unresolved : lexeme.kind = .unresolved) (named : Operator.ofSymbol? lexeme.text = none)
    (h : resolve registry lexeme beforeGroup = .ok kind) :
    place { lexeme with kind := kind } = lexeme.place ∧ (kind = .function → beforeGroup = true) := by
  simp only [resolve, named] at h
  split at h
  · next before =>
    split at h
    · cases h
      exact ⟨by simp [place, occurrence?, unresolved], fun _ => before⟩
    · split at h <;> cases h
  · split at h
    · cases h
      exact ⟨by simp [place, occurrence?, unresolved], by rintro ⟨⟩⟩
    · split at h <;> cases h

/-- Looking up the names changes no operator, and only names before a parenthesis become functions. -/
theorem resolveNames_calls {registry : Registry} {lexemes resolved : List Lexeme}
    (raw : ∀ lexeme ∈ lexemes, Raw lexeme.kind)
    (named : ∀ lexeme ∈ lexemes, lexeme.kind = .unresolved → Operator.ofSymbol? lexeme.text = none)
    (h : resolveNames registry lexemes = .ok resolved) :
    resolved.map place = lexemes.map place ∧ Calls resolved := by
  induction lexemes generalizing resolved with
  | nil =>
    cases h
    exact ⟨rfl, trivial⟩
  | cons lexeme rest ih =>
    obtain ⟨isRaw, raw⟩ := List.forall_mem_cons.mp raw
    obtain ⟨isNamed, named⟩ := List.forall_mem_cons.mp named
    have opens : ∀ {resolved : List Lexeme}, resolved.map place = rest.map place →
        resolved.head?.any opensGroup = rest.head?.any opensGroup := by
      intro resolved same
      cases resolved <;> cases rest <;> simp only [List.map_nil, List.map_cons, reduceCtorEq,
        List.cons.injEq] at same
      · rfl
      · exact isOperatorOf_congr same.1 _
    rw [resolveNames.eq_def] at h
    simp only at h
    split at h
    · next unresolved =>
      split at h
      · cases h
      next kind looked =>
      split at h <;> cases h
      next resolved ran =>
      obtain ⟨same, calls⟩ := ih raw named ran
      obtain ⟨samePlace, function⟩ := place_resolve unresolved (isNamed unresolved) looked
      refine ⟨by rw [List.map_cons, List.map_cons, samePlace, same], fun isFunction => ?_, calls⟩
      rw [opens same]
      exact function isFunction
    · split at h <;> cases h
      next resolved ran =>
      obtain ⟨same, calls⟩ := ih raw named ran
      refine ⟨by rw [List.map_cons, List.map_cons, same], fun isFunction => ?_, calls⟩
      rw [isFunction] at isRaw
      cases isRaw

/-- What stands before a parenthesis does not depend on where the operands of operators stand. -/
private theorem calls_congr {first second : List Lexeme} (same : first.map plain = second.map plain)
    (calls : Calls second) : Calls first := by
  induction second generalizing first with
  | nil =>
    rw [List.map_nil, List.map_eq_nil_iff] at same
    rw [same]
    trivial
  | cons lexeme rest ih =>
    obtain ⟨lexeme', rest', rfl, here, later⟩ := List.map_eq_cons_iff.mp same
    refine ⟨fun isFunction => ?_, ih later calls.2⟩
    have opens := calls.1 ((function_iff_of_plain_eq here).mp isFunction)
    cases rest with
    | nil => cases opens
    | cons second rest =>
      obtain ⟨second', rest', rfl, follows, -⟩ := List.map_eq_cons_iff.mp later
      rw [List.head?_cons, Option.any_some] at opens ⊢
      rwa [opensGroup, isOperatorOf_congr (place_eq_of_plain_eq follows)]

/-- Only step operators can trail, and they get a side. -/
private theorem not_trailing_of_plain (op : Operator) (plain : op.form.needsSide = false) :
    op.form.trailing = false := by
  cases op <;> first | rfl | cases plain

/-- A step operator is put behind a variable only. -/
private theorem resolveSides_behind {registry : Registry} {previous : Option Lexeme}
    {lexemes sided : List Lexeme} (resolved : ∀ lexeme ∈ lexemes, Resolved registry lexeme)
    (h : resolveSides previous lexemes = .ok sided) :
    sided.map plain = lexemes.map plain ∧ Follows BehindLvalue previous sided := by
  induction lexemes generalizing previous sided with
  | nil =>
    cases h
    exact ⟨rfl, trivial⟩
  | cons lexeme rest ih =>
    obtain ⟨isResolved, resolved⟩ := List.forall_mem_cons.mp resolved
    rw [resolveSides.eq_def] at h
    simp only at h
    split at h
    · cases h
    next lexeme' side =>
    split at h <;> cases h
    next sided ran =>
    obtain ⟨same, behind⟩ := ih resolved ran
    suffices lexeme'.plain = lexeme.plain ∧ BehindLvalue previous lexeme' from
      ⟨by rw [List.map_cons, List.map_cons, this.1, same], this.2, behind⟩
    split at side
    · next occurrence isOperator =>
      split at side
      · next settled =>
        cases side
        refine ⟨rfl, fun other isOther trailing => ?_⟩
        rw [isOperator] at isOther
        cases isOther
        have unchanged : occurrence = .ofOperator occurrence.operator := by
          simpa [Resolved, isOperator] using isResolved
        rw [unchanged] at settled trailing
        have := not_trailing_of_plain occurrence.operator (by simpa [Occurrence.ofOperator] using settled)
        cases trailing.symm.trans this
      split at side
      · cases side
        refine ⟨plain_eq_of_operator isOperator rfl, fun other isOther trailing => ?_⟩
        cases isOther
        cases trailing
      split at side
      · next lvalue =>
        cases side
        exact ⟨plain_eq_of_operator isOperator rfl, fun _ _ _ => lvalue⟩
      · cases side
    · next notOperator =>
      cases side
      exact ⟨rfl, fun occurrence isOperator => absurd isOperator (notOperator _)⟩

/-- A sign keeps both its forms behind an operand only, and does not start to trail. -/
private theorem resolveSigns_cons {before previous : Option Lexeme} {lexeme : Lexeme} (rest : List Lexeme)
    (behind : BehindLvalue before lexeme)
    (lvalue : before.any isLvalue = true → previous.any isLvalue = true) :
    ∃ signed, resolveSigns previous (lexeme :: rest) = signed :: resolveSigns (some signed) rest ∧
      signed.plain = lexeme.plain ∧ BehindLvalue previous signed ∧ BehindOperand previous signed := by
  refine ⟨_, resolveSigns.eq_2 .., ?_⟩
  split
  · next occurrence isOperator =>
    split
    · refine ⟨plain_eq_of_operator isOperator rfl, fun other isOther trailing => ?_,
        fun other isOther indefinite => ?_⟩
      · cases isOther
        exact lvalue (behind occurrence isOperator trailing)
      · cases isOther
        cases indefinite
    · next settled =>
      refine ⟨rfl, fun other isOther trailing => lvalue (behind other isOther trailing),
        fun other isOther indefinite => ?_⟩
      rw [isOperator] at isOther
      cases isOther
      simpa [indefinite] using settled
  · next notOperator =>
    exact ⟨rfl, fun other isOther => absurd isOther (notOperator _),
      fun other isOther => absurd isOther (notOperator _)⟩

private theorem resolveSigns_behind {before previous : Option Lexeme} {lexemes : List Lexeme}
    (behind : Follows BehindLvalue before lexemes)
    (lvalue : before.any isLvalue = true → previous.any isLvalue = true) :
    (resolveSigns previous lexemes).map plain = lexemes.map plain ∧
      Follows (fun previous lexeme => BehindLvalue previous lexeme ∧ BehindOperand previous lexeme)
        previous (resolveSigns previous lexemes) := by
  induction lexemes generalizing before previous with
  | nil => exact ⟨rfl, trivial⟩
  | cons lexeme rest ih =>
    obtain ⟨here, behind⟩ := behind
    obtain ⟨signed, whole, same, settled⟩ := resolveSigns_cons rest here lvalue
    have kept : lexeme.isLvalue = signed.isLvalue := by
      rw [← isLvalue_plain lexeme, ← same, isLvalue_plain]
    obtain ⟨sameRest, later⟩ := @ih (some lexeme) (some signed) behind (by simp [kept])
    rw [whole]
    exact ⟨by rw [List.map_cons, List.map_cons, same, sameRest], settled, later⟩

/-- The lexemes of a source stand beside each other as their forms say. -/
theorem classify_follows {registry : Registry} {source : String} {lexemes classified : List Lexeme}
    (read : tokenize source = .ok lexemes) (h : classify registry lexemes = .ok classified) :
    classified.map place = lexemes.map place ∧ Calls classified ∧
      Follows (fun previous lexeme => BehindLvalue previous lexeme ∧ BehindOperand previous lexeme)
        none classified := by
  obtain ⟨-, resolved, sided, names, sides, rfl⟩ := stages_of_classify h
  have raw := raw_of_scan read
  obtain ⟨ranks, calls⟩ := resolveNames_calls raw (scan_ranked read).2.2 names
  obtain ⟨sameSides, lvalues⟩ := resolveSides_behind (resolveNames_resolved raw names) sides
  obtain ⟨sameSigns, behind⟩ := @resolveSigns_behind none none _ lvalues id
  have same := sameSigns.trans sameSides
  refine ⟨?_, calls_congr same calls, behind⟩
  have ofPlain : ∀ list : List Lexeme, list.map place = (list.map plain).map place := by
    intro list
    simp [place_plain]
  rw [ofPlain, same, ← ofPlain, ranks]

/-- Every step operator that leads stands before a variable. -/
def Leads : List Lexeme → Prop
  | [] => True
  | lexeme :: rest => (∀ occurrence, lexeme.kind = .operator occurrence →
      occurrence.operator.form.needsSide = true → occurrence.form.leading = true →
      rest.head?.any isLvalue = true) ∧ Leads rest

private theorem isLvalue_head_of_plain {first second : List Lexeme} (same : first.map plain = second.map plain) :
    first.head?.any isLvalue = second.head?.any isLvalue := by
  have ofPlain (list : List Lexeme) : list.head?.any isLvalue = (list.map plain).head?.any isLvalue := by
    cases list with
    | nil => rfl
    | cons lexeme list => simp [isLvalue_plain]
  rw [ofPlain, same, ← ofPlain]

/-- A step operator is put in front of a variable only. -/
private theorem resolveSides_leads {registry : Registry} {previous : Option Lexeme}
    {lexemes sided : List Lexeme} (resolved : ∀ lexeme ∈ lexemes, Resolved registry lexeme)
    (h : resolveSides previous lexemes = .ok sided) : Leads sided := by
  induction lexemes generalizing previous sided with
  | nil =>
    cases h
    trivial
  | cons lexeme rest ih =>
    obtain ⟨isResolved, resolved⟩ := List.forall_mem_cons.mp resolved
    rw [resolveSides.eq_def] at h
    simp only at h
    split at h
    · cases h
    next lexeme' side =>
    split at h <;> cases h
    next sided ran =>
    refine ⟨fun other isOther isStep leads => ?_, ih resolved ran⟩
    rw [isLvalue_head_of_plain (resolveSides_behind resolved ran).1]
    split at side
    · next occurrence isOperator =>
      split at side
      · next settled =>
        cases side
        rw [isOperator] at isOther
        cases isOther
        have unchanged : other = .ofOperator other.operator := by
          simpa [Resolved, isOperator] using isResolved
        rw [unchanged] at settled
        simp [Occurrence.ofOperator, isStep] at settled
      split at side
      · next lvalue => exact lvalue
      split at side
      · cases side
        cases isOther
        cases leads
      · cases side
    · next notOperator =>
      cases side
      exact absurd isOther (notOperator other)

private theorem isLvalue_head_resolveSigns (previous : Option Lexeme) (lexemes : List Lexeme) :
    (resolveSigns previous lexemes).head?.any isLvalue = lexemes.head?.any isLvalue := by
  cases lexemes with
  | nil => rfl
  | cons lexeme rest =>
    rw [resolveSigns.eq_2, List.head?_cons, List.head?_cons, Option.any_some, Option.any_some]
    split
    · next occurrence isOperator =>
      split
      · simp [isLvalue, isOperator]
      · rfl
    · rfl

/-- A sign that is made unary leads as before. -/
private theorem resolveSigns_leads {previous : Option Lexeme} {lexemes : List Lexeme} (leads : Leads lexemes) :
    Leads (resolveSigns previous lexemes) := by
  induction lexemes generalizing previous with
  | nil => trivial
  | cons lexeme rest ih =>
    obtain ⟨here, later⟩ := leads
    rw [resolveSigns.eq_2]
    refine ⟨fun other isOther isStep leads => ?_, ih later⟩
    rw [isLvalue_head_resolveSigns]
    split at isOther
    · next occurrence isOperator =>
      split at isOther
      · cases isOther
        exact here occurrence isOperator isStep leads
      · exact here other isOther isStep leads
    · exact here other isOther isStep leads

/-- The lexemes of a source lead before a variable. -/
theorem classify_leads {registry : Registry} {source : String} {lexemes classified : List Lexeme}
    (read : tokenize source = .ok lexemes) (h : classify registry lexemes = .ok classified) : Leads classified := by
  obtain ⟨-, resolved, sided, names, sides, rfl⟩ := stages_of_classify h
  exact resolveSigns_leads (resolveSides_leads (resolveNames_resolved (raw_of_scan read) names) sides)

/-- Classified lexemes are ranked in their order. -/
theorem sorted_of_classify {registry : Registry} {source : String} {lexemes classified : List Lexeme}
    (read : tokenize source = .ok lexemes) (h : classify registry lexemes = .ok classified) :
    classified.Pairwise fun first second => first.position < second.position := by
  have ranked := (scan_ranked read).2.1
  have same : classified.map (·.position) = lexemes.map (·.position) := by
    simpa [Function.comp_def, place] using congrArg (List.map Prod.fst) (classify_follows read h).1
  rw [← List.pairwise_map (f := position)] at ranked ⊢
  rwa [same]

end Reckoner.Lexeme
