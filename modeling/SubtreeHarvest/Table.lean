/-
Names and tables. Names stand in the order in which they first came, each of them once. A table has one
value for each of its names: entering a name again replaces its value and keeps its place, and a new name
comes last.

The values of a table stand in a row that is as long as the names are. A list of pairs, with a proof
beside it that no name comes twice, would not do: a tree can only have tables of trees if no proof in a
table speaks of its values.
-/

namespace SubtreeHarvest

/-! ## Names -/

/-- Names in order, each of them once. -/
@[ext]
structure Names where
  toList : List String
  nodup : toList.Nodup

namespace Names

variable {names : Names} {name : String}

instance : Membership String Names :=
  ⟨fun names name => name ∈ names.toList⟩

instance (name : String) (names : Names) : Decidable (name ∈ names) :=
  inferInstanceAs (Decidable (name ∈ names.toList))

theorem mem_toList : name ∈ names.toList ↔ name ∈ names :=
  Iff.rfl

def empty : Names :=
  ⟨[], List.nodup_nil⟩

/-- The names with a new one at the end. -/
def push (names : Names) (name : String) (new : name ∉ names) : Names where
  toList := names.toList ++ [name]
  nodup := List.nodup_append.2 ⟨names.nodup, List.pairwise_singleton _ _, by
    rintro a ha b hb rfl
    exact new (List.mem_singleton.1 hb ▸ ha)⟩

/-- The names with one more at the end, unless it is there. -/
def insert (names : Names) (name : String) : Names :=
  if there : name ∈ names then names else names.push name there

theorem insert_of_mem (there : name ∈ names) : names.insert name = names :=
  dif_pos there

theorem insert_of_not_mem (new : name ∉ names) : names.insert name = names.push name new :=
  dif_neg new

end Names

/-! ## Rows -/

/-- Values, one for each of some names. -/
inductive Row (α : Type) : List String → Type
  | nil : Row α []
  | cons {name : String} {names : List String} (value : α) (rest : Row α names) :
      Row α (name :: names)

namespace Row

variable {α : Type}

/-- The values with their names. -/
def entries : {names : List String} → Row α names → List (String × α)
  | [], .nil => []
  | name :: _, .cons value rest => (name, value) :: entries rest

/-- The row with another value for a name. -/
def replace (name : String) (value : α) : {names : List String} → Row α names → Row α names
  | [], .nil => .nil
  | first :: _, .cons old rest =>
    if first = name then .cons value rest else .cons old (replace name value rest)

/-- The row with a value for one more name. -/
def push (name : String) (value : α) : {names : List String} → Row α names → Row α (names ++ [name])
  | [], .nil => .cons value .nil
  | _ :: _, .cons first rest => .cons first (push name value rest)

/-- The values that a function gives to names. -/
def ofNames (value : String → α) : (names : List String) → Row α names
  | [] => .nil
  | name :: names => .cons (value name) (ofNames value names)

variable {names : List String}

@[simp] theorem map_fst_entries (row : Row α names) : row.entries.map Prod.fst = names := by
  induction row with
  | nil => rfl
  | cons value rest ih => rw [entries, List.map_cons, ih]

theorem eq_of_entries {row other : Row α names} (h : row.entries = other.entries) : row = other := by
  induction row with
  | nil => cases other; rfl
  | cons value rest ih =>
    cases other with
    | cons value' rest' =>
      rw [entries, entries, List.cons.injEq] at h
      cases h.1
      rw [ih h.2]

theorem entries_ofNames (value : String → α) : ∀ names : List String,
    (ofNames value names).entries = names.map fun name => (name, value name)
  | [] => rfl
  | name :: names => by rw [ofNames, entries, entries_ofNames value names, List.map_cons]

theorem entries_push (name : String) (value : α) (row : Row α names) :
    (row.push name value).entries = row.entries ++ [(name, value)] := by
  induction row with
  | nil => rfl
  | cons first rest ih => exact congrArg (_ :: ·) ih

theorem lookup_replace {name other : String} {value : α} (there : name ∈ names) (row : Row α names) :
    (row.replace name value).entries.lookup other =
      if name = other then some value else row.entries.lookup other := by
  induction row with
  | nil => cases there
  | cons old rest ih =>
    rename_i first names
    rw [replace]
    by_cases here : first = name
    · subst here
      rw [if_pos rfl, entries, entries, List.lookup_cons, List.lookup_cons]
      by_cases same : other = first
      · simp [same]
      · simp [beq_false_of_ne same, Ne.symm same]
    · have later : name ∈ names := (List.mem_cons.1 there).resolve_left (Ne.symm here)
      rw [if_neg here, entries, entries, List.lookup_cons, List.lookup_cons, ih later]
      by_cases same : other = first
      · subst same
        simp [Ne.symm here]
      · simp [beq_false_of_ne same]

end Row

/-! ## Tables -/

/-- Values under names, in the order of the names. -/
structure Table (α : Type) where
  names : Names
  row : Row α names.toList

namespace Table

variable {α : Type} {name other : String} {value : α} {table : Table α}

def empty : Table α :=
  ⟨.empty, .nil⟩

/-- The values with their names, in order. -/
def entries (table : Table α) : List (String × α) :=
  table.row.entries

/-- The value under a name. -/
def get? (table : Table α) (name : String) : Option α :=
  table.entries.lookup name

/-- The table with a value under a name: in the name's place, or at the end for a new name. -/
def enter (table : Table α) (name : String) (value : α) : Table α :=
  if there : name ∈ table.names then ⟨table.names, table.row.replace name value⟩
  else ⟨table.names.push name there, table.row.push name value⟩

/-- The values that a function gives to names. -/
def ofNames (names : Names) (value : String → α) : Table α :=
  ⟨names, .ofNames value names.toList⟩

@[simp] theorem map_fst_entries (table : Table α) : table.entries.map Prod.fst = table.names.toList :=
  table.row.map_fst_entries

theorem eq_of_entries {others : Table α} (h : table.entries = others.entries) : table = others := by
  obtain ⟨names, row⟩ := table
  obtain ⟨names', row'⟩ := others
  have same : names = names' := by
    refine Names.ext ?_
    rw [← row.map_fst_entries, ← row'.map_fst_entries]
    exact congrArg (List.map Prod.fst) h
  subst same
  exact congrArg (mk names) (Row.eq_of_entries h)

@[simp] theorem entries_ofNames (names : Names) (value : String → α) :
    (ofNames names value).entries = names.toList.map fun name => (name, value name) :=
  Row.entries_ofNames value names.toList

theorem enter_of_mem (there : name ∈ table.names) :
    table.enter name value = ⟨table.names, table.row.replace name value⟩ :=
  dif_pos there

theorem enter_of_not_mem (new : name ∉ table.names) :
    table.enter name value = ⟨table.names.push name new, table.row.push name value⟩ :=
  dif_neg new

theorem get?_eq_none_iff : table.get? name = none ↔ name ∉ table.names := by
  rw [get?, List.lookup_eq_none_iff, ← Names.mem_toList, ← map_fst_entries, List.mem_map]
  constructor
  · rintro h ⟨entry, hm, rfl⟩
    exact bne_iff_ne.1 (h entry hm) rfl
  · intro h entry hm
    exact bne_iff_ne.2 fun same => h ⟨entry, hm, same.symm⟩

/-- A new name comes last. -/
theorem entries_enter_of_not_mem (new : name ∉ table.names) :
    (table.enter name value).entries = table.entries ++ [(name, value)] := by
  rw [enter_of_not_mem new]
  exact Row.entries_push name value table.row

theorem get?_enter : (table.enter name value).get? other =
    if name = other then some value else table.get? other := by
  by_cases there : name ∈ table.names
  · rw [enter_of_mem there]
    exact Row.lookup_replace there table.row
  · rw [get?, entries_enter_of_not_mem there, List.lookup_append, ← get?]
    by_cases same : name = other
    · subst same
      rw [get?_eq_none_iff.2 there, Option.none_or, List.lookup_cons_self, if_pos rfl]
    · rw [List.lookup_cons, beq_false_of_ne (Ne.symm same), if_neg same]
      exact Option.or_none

end Table

end SubtreeHarvest
