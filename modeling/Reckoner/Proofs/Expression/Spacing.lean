import Reckoner.Proofs.Expression.Answer
import Reckoner.Proofs.Tree.Alike

/-!
Gaps mean nothing. A source that spells the lexemes of another one in other gaps is read, classified and
compiled as this is: the expressions have the same text and type and evaluate to the same, or compiling fails
with the same code.
-/
namespace Reckoner

/-- Puts the text of a lexeme in for its constant. -/
private def Lexeme.named (lexeme : Lexeme) : Lexeme :=
  { lexeme with kind := lexeme.kind.relabel fun _ => .string lexeme.text }

variable {registry : Registry} {passLimit limit : Nat} {source other : String} {lexemes others : List Lexeme}

private theorem Lexeme.viewed_reads (read : tokenize source = .ok lexemes) :
    lexemes.map (viewed (.blank (Tree.reads source))) = (lexemes.map unplaced).map named := by
  rw [List.map_map]
  apply List.map_congr_left
  intro lexeme mem
  have text := (partition_of_tokenize read).text lexeme mem
  have label : Tree.reads source lexeme.span = fun _ => .string lexeme.text := by
    funext _
    rw [Tree.reads, text, Option.getD_some]
  show Lexeme.mk lexeme.text default lexeme.position (lexeme.kind.relabel (Tree.reads source lexeme.span)) = _
  rw [label]
  rfl

private theorem Lexeme.map_viewed (lexemes : List Lexeme) :
    lexemes.map (viewed (.blank .keep)) = lexemes.map unplaced :=
  List.map_congr_left fun lexeme _ => lexeme.viewed_blank

namespace Expression

/-- The expressions have the same text and type and evaluate to the same. -/
structure Same (expression other : Expression) : Prop where
  sexpr : expression.sexpr = other.sexpr
  resultType : expression.resultType = other.resultType
  nodeCount : expression.nodeCount = other.nodeCount
  /-- They give the same value or fail for the same reason, and leave the same host. -/
  answer : ∀ now host, expression.answer now host = other.answer now host

private theorem parse_viewed (label : Labelling) (read : Lexeme.tokenize source = .ok lexemes) :
    Mirrors (Tree.viewed (.blank label)) (parse registry passLimit source)
      (Lexeme.classify registry (lexemes.map (Lexeme.viewed (.blank label))) >>= fun classified =>
        Tree.build "" classified passLimit) := by
  rw [parse, read]
  apply (Lexeme.classify_viewed (.blank label) registry lexemes).bind
  intro classified
  exact Tree.build_viewed label source classified passLimit

/-- The trees of two sources with the same lexemes differ in their places only. -/
private theorem parse_agree (read : Lexeme.tokenize source = .ok lexemes)
    (read' : Lexeme.tokenize other = .ok others)
    (same : others.map Lexeme.unplaced = lexemes.map Lexeme.unplaced) :
    (∃ tree tree', parse registry passLimit source = .ok tree ∧ parse registry passLimit other = .ok tree' ∧
      tree.viewed (.blank .keep) = tree'.viewed (.blank .keep) ∧
      tree.viewed (.blank (Tree.reads source)) = tree'.viewed (.blank (Tree.reads other))) ∨
    ∃ error error', parse registry passLimit source = .error error ∧
      parse registry passLimit other = .error error' ∧ error.cause.code = error'.cause.code := by
  -- Both sources have the same mirror image, once with the constants kept and once with their texts instead.
  have plain := Lexeme.map_viewed
  have places := @parse_viewed registry passLimit _ _ .keep read
  have places' := @parse_viewed registry passLimit _ _ .keep read'
  have texts := @parse_viewed registry passLimit _ _ (Tree.reads source) read
  have texts' := @parse_viewed registry passLimit _ _ (Tree.reads other) read'
  rw [plain, ← same, ← plain] at places
  rw [Lexeme.viewed_reads read, ← same, ← Lexeme.viewed_reads read'] at texts
  rcases places.agree places' with ⟨tree, tree', parsed, parsed', alike⟩ | failed
  · rcases texts.agree texts' with ⟨_, _, again, again', written⟩ | ⟨_, _, failed, -⟩
    · rw [parsed] at again
      rw [parsed'] at again'
      cases again
      cases again'
      exact .inl ⟨tree, tree', parsed, parsed', alike, written⟩
    · rw [parsed] at failed
      cases failed
  · exact .inr failed

private theorem codes_eq {error error' : CompileError} (code : error.cause.code = error'.cause.code) :
    (Failure.ofCompileError source error).diagnostics.map (·.code) =
      (Failure.ofCompileError other error').diagnostics.map (·.code) := by
  have codes (source : String) (error : CompileError) :
      (Failure.ofCompileError source error).diagnostics.map (·.code) =
        if error.cause.code = "E0024" then [] else [some error.cause.code] := by
    obtain ⟨cause, span, related⟩ := error
    cases cause <;> rfl
  rw [codes, codes, code]

/-- Two checked trees that differ in their places make the same expression, if their constants read alike. -/
theorem same_of_check {tree tree' checked checked' : Tree}
    (parsed : parse registry passLimit source = .ok tree)
    (parsed' : parse registry limit other = .ok tree') (moved : tree.Moved tree')
    (texts : ∀ id, (tree.node id).kind = .constant →
      ((tree.node id).span.text? source).getD "?" = ((tree'.node id).span.text? other).getD "?")
    (isChecked : tree.check registry tree.postOrder = (.ok (), checked))
    (isChecked' : tree'.check registry tree'.postOrder = (.ok (), checked'))
    (alike : checked.Alike checked') :
    Same ⟨source, checked, tree.postOrder⟩ ⟨other, checked', tree'.postOrder⟩ := by
  obtain ⟨root, result, formed⟩ := formed_of_parse parsed
  obtain ⟨root', result', formed'⟩ := formed_of_parse parsed'
  have outcome := Tree.Checked.of_check formed isChecked
  have outcome' := Tree.Checked.of_check formed' isChecked'
  refine ⟨?_, alike.resultType, alike.size, ?_⟩
  · apply alike.sexpr
    intro id constant
    obtain ⟨type, same⟩ := Tree.node_check isChecked id
    obtain ⟨type', same'⟩ := Tree.node_check isChecked' id
    rw [same] at constant ⊢
    rw [same']
    exact texts id constant
  · apply outcome.answer_congr outcome'
    have results := alike.result?
    rw [outcome.formed.result?_eq, outcome'.formed.result?_eq] at results
    rw [Tree.shape_check isChecked, Tree.shape_check isChecked', Option.some.inj results]
    exact moved.shape_eq result'

/-- A source that spells the lexemes of another one in other gaps has the same lexemes, which are classified in
the same way, and it compiles to an expression with the same text and type that evaluates to the same. Where it
is refused, it is refused with the same code. -/
theorem compile_spaced {source other : String} {lexemes : List Lexeme}
    (read : Lexeme.tokenize source = .ok lexemes)
    (spaced : Lexeme.Spaced (lexemes.map (·.text)) other.toList) :
    ∃ others, Lexeme.tokenize other = .ok others ∧
      others.map Lexeme.unplaced = lexemes.map Lexeme.unplaced ∧
      ∀ registry,
        (match Lexeme.classify registry lexemes, Lexeme.classify registry others with
        | .ok classified, .ok classified' =>
          classified'.map Lexeme.unplaced = classified.map Lexeme.unplaced
        | .error error, .error error' => error'.cause.code = error.cause.code
        | _, _ => False) ∧
        ∀ passLimit, match compile registry passLimit source, compile registry passLimit other with
        | .ok expression, .ok expression' => expression'.Same expression
        | .error failure, .error failure' =>
          failure'.diagnostics.map (·.code) = failure.diagnostics.map (·.code)
        | _, _ => False := by
  obtain ⟨others, read', same⟩ := Lexeme.tokenize_of_spaced read spaced
  refine ⟨others, read', same, ?_⟩
  intro registry
  constructor
  · have here := Lexeme.classify_viewed (.blank .keep) registry lexemes
    have there := Lexeme.classify_viewed (.blank .keep) registry others
    rw [Lexeme.map_viewed, ← same, ← Lexeme.map_viewed] at here
    rcases there.agree here with ⟨_, _, known, known', alike⟩ | ⟨_, _, failed, failed', code⟩
    · rw [known, known']
      rw [Lexeme.map_viewed, Lexeme.map_viewed] at alike
      exact alike
    · rw [failed, failed']
      exact code
  · intro passLimit
    rcases @parse_agree registry passLimit _ _ _ _ read' read same.symm with
      ⟨tree', tree, parsed', parsed, places, texts⟩ | ⟨_, _, failed', failed, code⟩
    · obtain ⟨root, result, formed⟩ := formed_of_parse parsed
      obtain ⟨root', result', formed'⟩ := formed_of_parse parsed'
      have moved := formed'.moved formed places
      rw [compile_of_parse parsed, compile_of_parse parsed']
      rcases moved.alike.check tree'.postOrder with ⟨checked', checked, isChecked', isChecked, alike'⟩ |
        ⟨_, _, _, _, failed', failed, code⟩
      · rw [moved.alike.postOrder] at isChecked
        rw [isChecked, isChecked']
        exact same_of_check parsed' parsed moved (fun id => formed'.text_eq formed texts) isChecked' isChecked alike'
      · rw [moved.alike.postOrder] at failed
        rw [failed, failed']
        exact codes_eq code
    · have none {source : String} {error : CompileError}
          (failed : parse registry passLimit source = .error error) :
          compile registry passLimit source = .error (.ofCompileError source error) := by
        simp only [compile, compileTree, failed, bind, Except.bind]
      rw [none failed, none failed']
      exact codes_eq code

/-- A step and a sum, run together and apart. -/
theorem compile_spaced_step :
    ∃ lexemes others expression expression',
      Lexeme.tokenize "x+++1" = .ok lexemes ∧ lexemes.map (·.text) = ["x", "++", "+", "1"] ∧
      Lexeme.Spaced ["x", "++", "+", "1"] " x ++ + 1".toList ∧
      Lexeme.tokenize " x ++ + 1" = .ok others ∧
      others.map Lexeme.unplaced = lexemes.map Lexeme.unplaced ∧
      compile ⟨Names.empty.insert "x" (.int 0), .empty⟩ 100 "x+++1" = .ok expression ∧
      compile ⟨Names.empty.insert "x" (.int 0), .empty⟩ 100 " x ++ + 1" = .ok expression' ∧
      expression.sexpr = "(+ (post++ x) 1)" ∧ expression'.Same expression := by
  have read : ∃ lexemes, Lexeme.tokenize "x+++1" = .ok lexemes ∧
      lexemes.map (·.text) = ["x", "++", "+", "1"] := ⟨_, by cbv, by cbv⟩
  have compiled : ∃ expression,
      compile ⟨Names.empty.insert "x" (.int 0), .empty⟩ 100 "x+++1" = .ok expression ∧
      expression.sexpr = "(+ (post++ x) 1)" := ⟨_, by cbv, by cbv⟩
  have spaced : Lexeme.Spaced ["x", "++", "+", "1"] " x ++ + 1".toList := Lexeme.Spaced.blanks _
  obtain ⟨lexemes, isRead, texts⟩ := read
  obtain ⟨expression, isCompiled, text⟩ := compiled
  obtain ⟨others, isRead', same, alike⟩ := compile_spaced isRead (by rw [texts]; exact spaced)
  have result := (alike ⟨Names.empty.insert "x" (.int 0), .empty⟩).2 100
  rw [isCompiled] at result
  cases isCompiled' : compile ⟨Names.empty.insert "x" (.int 0), .empty⟩ 100 " x ++ + 1" with
  | error failure =>
    rw [isCompiled'] at result
    exact result.elim
  | ok expression' =>
    rw [isCompiled'] at result
    exact ⟨lexemes, others, expression, expression', isRead, texts, spaced, isRead', same, isCompiled, rfl,
      text, result⟩

end Expression

end Reckoner
