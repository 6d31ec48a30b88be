import Mathlib.Data.List.Basic
import Reckoner.Proofs.Lexeme.Settled

/-!
The names in a source, and what classifying asks of a registry. A name directly before an opening parenthesis
is looked up among the functions and any other among the variables, so registries with the same entries there
classify a source alike, and so does the registry that has no other entries.
-/
namespace Reckoner

namespace Lexeme

/-- The names that stand directly before an opening parenthesis, or else the other names. -/
def names (beforeGroup : Bool) : List Lexeme → List String
  | [] => []
  | lexeme :: rest =>
    match lexeme.kind with
    | .unresolved =>
      if rest.head?.any opensGroup = beforeGroup then lexeme.text :: names beforeGroup rest
      else names beforeGroup rest
    | _ => names beforeGroup rest

theorem names_subset (beforeGroup : Bool) (lexeme : Lexeme) (rest : List Lexeme) :
    names beforeGroup rest ⊆ names beforeGroup (lexeme :: rest) := by
  intro name mem
  rw [names]
  split
  · split
    · exact List.mem_cons_of_mem _ mem
    · exact mem
  · exact mem

/-- A name is among those that stand as it does. -/
theorem text_mem_names {lexeme : Lexeme} (rest : List Lexeme) (unresolved : lexeme.kind = .unresolved) :
    lexeme.text ∈ names (rest.head?.any opensGroup) (lexeme :: rest) := by
  simp [names, unresolved]

end Lexeme

/-- The names of a source that do not stand directly before an opening parenthesis. -/
def variablesIn (source : String) : List String :=
  match Lexeme.tokenize source with
  | .ok lexemes => Lexeme.names false lexemes
  | .error _ => []

/-- The names of a source that stand directly before an opening parenthesis. -/
def functionsIn (source : String) : List String :=
  match Lexeme.tokenize source with
  | .ok lexemes => Lexeme.names true lexemes
  | .error _ => []

/-- The table with the entries of these names only. -/
def Names.only {α : Type} (table : Names α) (names : List String) : Names α :=
  ⟨table.entries.filter fun (name, _) => name ∈ names, table.ordered.filter _⟩

theorem Names.find?_only {α : Type} (table : Names α) (names : List String) (name : String) :
    (table.only names).find? name = if name ∈ names then table.find? name else none := by
  obtain ⟨entries, ordered⟩ := table
  simp only [only, find?]
  clear ordered
  induction entries with
  | nil => simp [findEntry]
  | cons head rest ih =>
    obtain ⟨key, entry⟩ := head
    by_cases same : name = key
    · subst same
      by_cases kept : name ∈ names <;> simp_all [findEntry]
    · by_cases kept : key ∈ names <;> simp_all [findEntry]

namespace Registry

/-- The registries have the same entries for these names. -/
structure Shares (plain called : List String) (first second : Registry) : Prop where
  cellOf?_eq : ∀ name ∈ plain, second.cellOf? name = first.cellOf? name
  function?_eq : ∀ name ∈ called, second.function? name = first.function? name

/-- The registry with the entries of these names only. -/
def only (registry : Registry) (plain called : List String) : Registry :=
  ⟨registry.cells.only plain, registry.functions.only called⟩

variable {first second registry : Registry} {plain called : List String} {name : String}

theorem Shares.mono (same : Shares plain called first second) {fewer less : List String}
    (isFewer : fewer ⊆ plain) (isLess : less ⊆ called) : Shares fewer less first second :=
  ⟨fun name mem => same.cellOf?_eq name (isFewer mem), fun name mem => same.function?_eq name (isLess mem)⟩

theorem shares_only (registry : Registry) (plain called : List String) :
    Shares plain called registry (registry.only plain called) :=
  ⟨fun _ mem => (Names.find?_only ..).trans (if_pos mem), fun _ mem => (Names.find?_only ..).trans (if_pos mem)⟩

theorem mem_of_cellOf?_only {cell : Cell} (found : (registry.only plain called).cellOf? name = some cell) :
    name ∈ plain := by
  rw [cellOf?, only, Names.find?_only] at found
  split at found
  · next mem => exact mem
  · cases found

theorem mem_of_function?_only (found : ((registry.only plain called).function? name).isSome = true) :
    name ∈ called := by
  rw [function?, only, Names.find?_only] at found
  split at found
  · next mem => exact mem
  · cases found

/-- Binding another name to a cell changes no entry that matters. -/
theorem shares_addVariable {cell : Cell} (other : name ∉ plain)
    (added : first.addVariable name cell = .ok second) : Shares plain called first second := by
  obtain ⟨_, -, same⟩ := bind_eq_ok.mp added
  cases same
  refine ⟨fun used mem => ?_, fun _ _ => rfl⟩
  have differ : used ≠ name := ne_of_mem_of_not_mem mem other
  exact (Names.find?_insert ..).trans (if_neg differ)

/-- Binding another name to a function changes no entry that matters. -/
theorem shares_addFunction {function : HostFunction} (other : name ∉ called)
    (added : first.addFunction name function = .ok second) : Shares plain called first second := by
  obtain ⟨_, -, same⟩ := bind_eq_ok.mp added
  cases same
  refine ⟨fun _ _ => rfl, fun used mem => ?_⟩
  have differ : used ≠ name := ne_of_mem_of_not_mem mem other
  exact (Names.find?_insert ..).trans (if_neg differ)

end Registry

namespace Lexeme

variable {first second : Registry} {lexemes : List Lexeme}

/-- Looking up a name asks for that name only, and only for what its place lets it be. -/
private theorem resolve_congr {lexeme : Lexeme} {beforeGroup : Bool}
    (cells : beforeGroup = false → second.cellOf? lexeme.text = first.cellOf? lexeme.text)
    (functions : beforeGroup = true → second.function? lexeme.text = first.function? lexeme.text) :
    resolve second lexeme beforeGroup = resolve first lexeme beforeGroup := by
  unfold resolve
  cases beforeGroup with
  | false => simp only [cells rfl, Bool.false_eq_true, if_false]
  | true => simp only [functions rfl, if_true]

private theorem resolveNames_congr (same : Registry.Shares (names false lexemes) (names true lexemes) first second) :
    resolveNames second lexemes = resolveNames first lexemes := by
  induction lexemes with
  | nil => rfl
  | cons lexeme rest ih =>
    have later := ih (same.mono (names_subset false lexeme rest) (names_subset true lexeme rest))
    rw [resolveNames, resolveNames, later]
    cases kind : lexeme.kind with
    | unresolved =>
      have mem := text_mem_names rest kind
      rw [resolve_congr (fun other => same.cellOf?_eq _ (other ▸ mem))
        fun before => same.function?_eq _ (before ▸ mem)]
    | operator | function | constant | «variable» => rfl

/-- Classifying asks for the names of the lexemes only. -/
theorem classify_congr (same : Registry.Shares (names false lexemes) (names true lexemes) first second) :
    classify second lexemes = classify first lexemes := by
  simp only [classify, resolveNames_congr same]

/-- Functions and variables of a classified source are among its names. -/
theorem mem_names_of_classify {source : String} {classified : List Lexeme} (read : tokenize source = .ok lexemes)
    (h : classify first lexemes = .ok classified) {lexeme : Lexeme} (mem : lexeme ∈ classified) :
    (lexeme.kind = .function → lexeme.text ∈ names true lexemes) ∧
      ∀ cell, lexeme.kind = .variable cell → lexeme.text ∈ names false lexemes := by
  rw [← classify_congr (first.shares_only _ _)] at h
  have settled := settled_of_classify read h lexeme mem
  unfold Settled at settled
  constructor
  · intro isFunction
    rw [isFunction] at settled
    exact Registry.mem_of_function?_only settled
  · intro cell isVariable
    rw [isVariable] at settled
    exact Registry.mem_of_cellOf?_only settled

end Lexeme

end Reckoner
