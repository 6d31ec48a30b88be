/-!
Tables from names to entries. A table lists its entries in the order of their names, each name
once, so a table is given by which names have which entries.
-/
namespace Reckoner

/-- A list of entries in the order of their names, each name once. -/
def InNameOrder {α : Type} (entries : List (String × α)) : Prop :=
  entries.Pairwise fun a b => a.1 < b.1

/-- A table with an entry for each of some names. -/
structure Names (α : Type) where
  entries : List (String × α)
  ordered : InNameOrder entries

namespace Names

variable {α : Type}

/-- The table without entries. -/
def empty : Names α :=
  ⟨[], .nil⟩

instance : Inhabited (Names α) := ⟨empty⟩

/-- The first entry of a name. -/
def findEntry (name : String) : List (String × α) → Option α
  | [] => none
  | (other, entry) :: rest => if name = other then some entry else findEntry name rest

/-- Puts an entry at its place in the order, instead of an earlier one of that name. -/
def insertEntry (name : String) (entry : α) : List (String × α) → List (String × α)
  | [] => [(name, entry)]
  | (other, kept) :: rest =>
    if name = other then (name, entry) :: rest
    else if name < other then (name, entry) :: (other, kept) :: rest
    else (other, kept) :: insertEntry name entry rest

theorem name_of_mem_insertEntry {name : String} {entry : α} {item : String × α} :
    ∀ {entries : List (String × α)}, item ∈ insertEntry name entry entries →
      item.1 = name ∨ item ∈ entries
  | [], h => by
    simp only [insertEntry, List.mem_singleton] at h
    exact .inl (h ▸ rfl)
  | (other, kept) :: rest, h => by
    simp only [insertEntry] at h
    split at h
    · rcases List.mem_cons.mp h with h | h
      · exact .inl (h ▸ rfl)
      · exact .inr (List.mem_cons_of_mem _ h)
    · split at h
      · rcases List.mem_cons.mp h with h | h
        · exact .inl (h ▸ rfl)
        · exact .inr h
      · rcases List.mem_cons.mp h with h | h
        · exact .inr (h ▸ List.mem_cons_self)
        · exact (name_of_mem_insertEntry h).imp_right (List.mem_cons_of_mem _)

theorem inNameOrder_insertEntry (name : String) (entry : α) :
    ∀ {entries : List (String × α)}, InNameOrder entries →
      InNameOrder (insertEntry name entry entries)
  | [], _ => by simp [insertEntry, InNameOrder]
  | (other, kept) :: rest, h => by
    obtain ⟨first, sorted⟩ := List.pairwise_cons.mp h
    simp only [insertEntry]
    split
    · next same =>
      subst same
      exact List.pairwise_cons.mpr ⟨first, sorted⟩
    · next differ =>
      split
      · next before =>
        refine List.pairwise_cons.mpr ⟨fun item mem => ?_, h⟩
        rcases List.mem_cons.mp mem with rfl | mem
        · exact before
        · exact String.lt_trans before (first item mem)
      · next notBefore =>
        refine List.pairwise_cons.mpr ⟨fun item mem => ?_, inNameOrder_insertEntry name entry sorted⟩
        rcases name_of_mem_insertEntry mem with named | mem
        · rw [named]
          exact Std.lt_of_le_of_ne (String.not_lt.mp notBefore) (Ne.symm differ)
        · exact first item mem

/-- The entry of a name. -/
def find? (table : Names α) (name : String) : Option α :=
  findEntry name table.entries

/-- The number of entries. -/
def size (table : Names α) : Nat :=
  table.entries.length

/-- The table with this entry for the name. -/
def insert (table : Names α) (name : String) (entry : α) : Names α :=
  ⟨insertEntry name entry table.entries, inNameOrder_insertEntry name entry table.ordered⟩

/-- The table without an entry for the name. -/
def erase (table : Names α) (name : String) : Names α :=
  ⟨table.entries.filter fun (other, _) => other ≠ name, table.ordered.filter _⟩

theorem find?_empty (name : String) : (empty : Names α).find? name = none := rfl

theorem findEntry_insertEntry (name other : String) (entry : α) (entries : List (String × α)) :
    findEntry other (insertEntry name entry entries) =
      if other = name then some entry else findEntry other entries := by
  induction entries with
  | nil => rfl
  | cons head rest ih =>
    obtain ⟨key, kept⟩ := head
    by_cases same : name = key
    · subst same
      by_cases h : other = name <;> simp [insertEntry, findEntry, h]
    · by_cases before : name < key
      · simp [insertEntry, findEntry, same, before]
      · by_cases h : other = key
        · have : other ≠ name := fun e => same (e ▸ h)
          simp [insertEntry, findEntry, same, before, h, Ne.symm same]
        · simp [insertEntry, findEntry, same, before, h, ih]

theorem findEntry_filter (name other : String) (entries : List (String × α)) :
    findEntry other (entries.filter fun (key, _) => key ≠ name) =
      if other = name then none else findEntry other entries := by
  induction entries with
  | nil => simp [findEntry]
  | cons head rest ih =>
    obtain ⟨key, kept⟩ := head
    by_cases gone : key = name
    · subst gone
      by_cases h : other = key <;> simp_all [findEntry]
    · by_cases h : other = key
      · subst h
        simp_all [findEntry]
      · simp_all [findEntry]

/-- The name just inserted has the new entry and every other name the entry it had. -/
theorem find?_insert (table : Names α) (name other : String) (entry : α) :
    (table.insert name entry).find? other =
      if other = name then some entry else table.find? other :=
  findEntry_insertEntry name other entry table.entries

/-- The erased name has no entry and every other name the entry it had. -/
theorem find?_erase (table : Names α) (name other : String) :
    (table.erase name).find? other = if other = name then none else table.find? other :=
  findEntry_filter name other table.entries

end Names

end Reckoner
