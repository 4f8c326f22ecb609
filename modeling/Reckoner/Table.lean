/-!
# Tables of names

A table keeps its names in the order in which they were first bound; binding a name again
changes its entry and not its place.
-/

namespace Reckoner

/-- Names with what they are bound to, in the order of their first binding. -/
abbrev Table (α : Type) := List (String × α)

namespace Table

variable {α : Type}

/-- Binds a name, in its old place if it has one. -/
def bind : Table α → String → α → Table α
  | [], name, value => [(name, value)]
  | (other, old) :: rest, name, value =>
    if other = name then (name, value) :: rest else (other, old) :: bind rest name value

/-- What a name is bound to. -/
def get? (table : Table α) (name : String) : Option α :=
  List.lookup name table

/-- The names in order. -/
def names (table : Table α) : List String :=
  table.map (·.1)

/-- The values in order. -/
def values (table : Table α) : List α :=
  table.map (·.2)

/-- Binds all pairs in order, so that a later one wins. -/
def bindAll (table : Table α) (pairs : List (String × α)) : Table α :=
  pairs.foldl (fun table pair => table.bind pair.1 pair.2) table

/-- The entries in ascending order of their names. -/
def byName (table : Table α) : List (String × α) :=
  table.mergeSort fun a b => decide (a.1 ≤ b.1)

theorem get?_bind_self (table : Table α) (name : String) (value : α) :
    (table.bind name value).get? name = some value := by
  induction table with
  | nil => simp [bind, get?]
  | cons entry rest ih =>
    obtain ⟨other, old⟩ := entry
    by_cases h : other = name
    · simp [bind, get?, h]
    · have apart : (name == other) = false := beq_eq_false_iff_ne.2 (Ne.symm h)
      simpa only [bind, get?, h, if_false, List.lookup_cons, apart] using ih

theorem get?_bind_of_ne (table : Table α) {name other : String} (value : α) (h : other ≠ name) :
    (table.bind name value).get? other = table.get? other := by
  have apart : (other == name) = false := beq_eq_false_iff_ne.2 h
  induction table with
  | nil => simp [bind, get?, List.lookup_cons, apart]
  | cons entry rest ih =>
    obtain ⟨key, old⟩ := entry
    by_cases same : key = name
    · subst same
      simp [bind, get?, List.lookup_cons, apart]
    · simp only [get?] at ih
      simp only [bind, same, if_false, get?, List.lookup_cons, ih]

/-- Exactly the names of the table are bound. -/
theorem isSome_get?_iff (table : Table α) (name : String) :
    (table.get? name).isSome ↔ name ∈ table.names := by
  induction table with
  | nil => simp [get?, names]
  | cons entry rest ih =>
    obtain ⟨key, value⟩ := entry
    simp only [get?, names] at ih
    by_cases same : name = key
    · subst same
      simp [get?, names]
    · have apart : (name == key) = false := beq_eq_false_iff_ne.2 same
      simp only [get?, names, List.lookup_cons, apart, List.map_cons, List.mem_cons, same, false_or]
      exact ih

/-- Binding adds a new name at the end and keeps all old ones in place. -/
theorem names_bind (table : Table α) (name : String) (value : α) :
    (table.bind name value).names =
      if name ∈ table.names then table.names else table.names ++ [name] := by
  induction table with
  | nil => simp [bind, names]
  | cons entry rest ih =>
    obtain ⟨key, old⟩ := entry
    simp only [names] at ih
    by_cases same : key = name
    · simp [bind, names, same]
    · simp only [bind, same, if_false, names, List.map_cons, ih, List.mem_cons, Ne.symm same,
        false_or]
      split <;> rename_i known <;> simp only [known, if_true, if_false, List.cons_append]

/-- Every entry of the table with one more binding is that binding or an old one. -/
theorem mem_bind {table : Table α} {name : String} {value : α} {entry : String × α}
    (h : entry ∈ table.bind name value) : entry = (name, value) ∨ entry ∈ table := by
  induction table with
  | nil => exact Or.inl (List.mem_singleton.1 h)
  | cons old rest ih =>
    unfold bind at h
    split at h
    · rcases List.mem_cons.1 h with same | later
      · exact Or.inl same
      · exact Or.inr (List.mem_cons_of_mem old later)
    · rcases List.mem_cons.1 h with same | later
      · exact Or.inr (same ▸ List.mem_cons_self)
      · exact (ih later).imp_right (List.mem_cons_of_mem old)

theorem mem_values_bind {table : Table α} {name : String} {value found : α}
    (h : found ∈ (table.bind name value).values) : found = value ∨ found ∈ table.values := by
  obtain ⟨entry, among, rfl⟩ := List.mem_map.1 h
  rcases mem_bind among with rfl | old
  · exact Or.inl rfl
  · exact Or.inr (List.mem_map_of_mem old)

end Table

end Reckoner
