/-
Looking up in tables. As no name comes twice, what is found under a name is exactly what stands there,
and two tables with the same names have under each name two values that stand side by side. Names that
are entered one by one are those of a list, each where it first comes.
-/
import Mathlib.Data.List.Nodup
import Mathlib.Data.List.Perm.Subperm
import SubtreeHarvest.Table

namespace SubtreeHarvest

/-! ## Names -/

namespace Names

variable {names : Names} {name : String}

theorem toList_insert : (names.insert name).toList =
    if name ∈ names then names.toList else names.toList ++ [name] := by
  rw [insert]
  split <;> rfl

/-- Entering names one by one leaves of each the first. -/
theorem toList_foldl_insert : ∀ (all : List String) (seen : Names), (all.foldl insert seen).toList =
    seen.toList ++ (all.filter fun name => !seen.toList.contains name).eraseDups
  | [], seen => by simp
  | name :: all, seen => by
    rw [List.foldl_cons, toList_foldl_insert all, toList_insert]
    by_cases there : name ∈ seen
    · have known : seen.toList.contains name = true := List.contains_iff_mem.2 there
      rw [if_pos there, List.filter_cons_of_neg (by rw [known]; decide)]
    · have unknown : seen.toList.contains name = false := by
        rw [Bool.eq_false_iff, Ne, List.contains_iff_mem]
        exact there
      have others : (all.filter fun other => !(seen.toList ++ [name]).contains other) =
          (all.filter fun other => !seen.toList.contains other).filter fun other => !other == name := by
        rw [List.filter_filter]
        refine List.filter_congr fun other _ => ?_
        by_cases same : other = name <;> simp [same]
      rw [if_neg there, others, List.filter_cons_of_pos (by rw [unknown]; rfl), List.eraseDups_cons,
        List.append_assoc, List.singleton_append]

theorem toList_foldl_insert_empty (all : List String) : (all.foldl insert empty).toList = all.eraseDups := by
  rw [toList_foldl_insert]
  simp [empty]

/-- The names in a list, each where it first comes. -/
def ofList (all : List String) : Names where
  toList := all.eraseDups
  nodup := toList_foldl_insert_empty all ▸ (all.foldl insert empty).nodup

theorem foldl_insert_empty (all : List String) : all.foldl insert empty = ofList all :=
  Names.ext (toList_foldl_insert_empty all)

/-- Names that are all among others, no fewer than those, are in some order the others. -/
theorem perm_of_subset {others : Names} (length : names.toList.length = others.toList.length)
    (subset : names.toList ⊆ others.toList) : names.toList.Perm others.toList :=
  (names.nodup.subperm subset).perm_of_length_le (Nat.le_of_eq length.symm)

end Names

/-! ## Rows -/

namespace Row

variable {α β : Type} {names : List String} {name : String} {value : α}

theorem mem_of_mem_entries {row : Row α names} (h : (name, value) ∈ row.entries) : name ∈ names := by
  rw [← row.map_fst_entries]
  exact List.mem_map_of_mem h

theorem sizeOf_lt_of_mem [SizeOf α] {row : Row α names} (h : (name, value) ∈ row.entries) :
    sizeOf value < sizeOf row := by
  induction row with
  | nil => cases h
  | cons first rest ih =>
    rw [cons.sizeOf_spec]
    rcases List.mem_cons.1 h with here | later
    · cases here
      omega
    · have := ih later
      omega

/-- A test of the values of a row one after the other, each against what stands under its name in a
table. -/
theorem all_iff_of_cons {others : Table β} (alike : α → β → Bool)
    (all : {names : List String} → Row α names → Bool) (nil : all .nil = true)
    (cons : ∀ {name names} value (rest : Row α names),
      all (.cons value rest : Row α (name :: names)) = ((others.get? name).any (alike value) && all rest)) :
    ∀ {names} (row : Row α names), all row = true ↔ ∀ name value, (name, value) ∈ row.entries →
      ∃ other, others.get? name = some other ∧ alike value other = true
  | _, .nil => ⟨fun _ _ _ h => absurd h List.not_mem_nil, fun _ => nil⟩
  | name :: _, .cons value rest => by
    rw [cons, Bool.and_eq_true, all_iff_of_cons alike all nil cons rest, Option.any_eq_true, entries]
    constructor
    · rintro ⟨here, later⟩ other found hm
      rcases List.mem_cons.1 hm with first | hm
      · cases first
        exact here
      · exact later other found hm
    · intro h
      exact ⟨h name value List.mem_cons_self, fun other found hm => h other found (List.mem_cons_of_mem _ hm)⟩

/-- Where each value has one that is related to it, they make up a row. -/
theorem exists_row {R : String × α → String × β → Prop} : ∀ {names : List String} (row : Row α names),
    (∀ name value, (name, value) ∈ row.entries → ∃ other, R (name, value) (name, other)) →
      ∃ others : Row β names, List.Forall₂ R row.entries others.entries
  | _, .nil, _ => ⟨.nil, .nil⟩
  | _, .cons value rest, h => by
    obtain ⟨other, first⟩ := h _ value List.mem_cons_self
    obtain ⟨others, later⟩ := exists_row rest fun name value hm => h name value (List.mem_cons_of_mem _ hm)
    exact ⟨.cons other others, .cons first later⟩

/-- In two rows with the same names each entry has one beside it. -/
theorem exists_mem_zip : ∀ {names : List String} {row : Row α names} (others : Row β names),
    (name, value) ∈ row.entries → ∃ other, ((name, value), (name, other)) ∈ row.entries.zip others.entries
  | _, .nil, _, h => nomatch h
  | _, .cons first rest, .cons other others, h => by
    rw [entries, entries, List.zip_cons_cons]
    rcases List.mem_cons.1 h with here | later
    · cases here
      exact ⟨other, List.mem_cons_self⟩
    · obtain ⟨other, beside⟩ := exists_mem_zip others later
      exact ⟨other, List.mem_cons_of_mem _ beside⟩

theorem replace_ofNames (value : α) (name : String) : ∀ names : List String,
    (ofNames (fun _ => value) names).replace name value = ofNames (fun _ => value) names
  | [] => rfl
  | other :: names => by
    rw [ofNames, replace, replace_ofNames value name names, ite_self]

theorem push_ofNames (value : α) (name : String) : ∀ names : List String,
    (ofNames (fun _ => value) names).push name value = ofNames (fun _ => value) (names ++ [name])
  | [] => rfl
  | _ :: names => congrArg (cons value) (push_ofNames value name names)

end Row

/-! ## Tables -/

namespace Table

variable {α β : Type} {name : String} {value : α} {table : Table α}

/-- What is found under a name is what stands there. -/
theorem get?_eq_some_iff : table.get? name = some value ↔ (name, value) ∈ table.entries := by
  have distinct : (table.entries.map Prod.fst).Nodup := table.map_fst_entries ▸ table.names.nodup
  rw [get?]
  constructor
  · intro h
    obtain ⟨front, behind, parted, -⟩ := List.lookup_eq_some_iff.1 h
    rw [parted]
    exact List.mem_append_right _ List.mem_cons_self
  · intro hm
    obtain ⟨front, behind, parted⟩ := List.append_of_mem hm
    rw [parted, List.map_append, List.map_cons, List.nodup_append] at distinct
    refine List.lookup_eq_some_iff.2 ⟨front, behind, parted, fun entry he => bne_iff_ne.2 ?_⟩
    exact (distinct.2.2 _ (List.mem_map_of_mem he) _ List.mem_cons_self).symm

theorem mem_names_of_mem (h : (name, value) ∈ table.entries) : name ∈ table.names :=
  Row.mem_of_mem_entries h

theorem exists_mem_of_mem_names (h : name ∈ table.names) : ∃ value, (name, value) ∈ table.entries := by
  obtain ⟨value, found⟩ := Option.ne_none_iff_exists'.1 fun none => get?_eq_none_iff.1 none h
  exact ⟨value, get?_eq_some_iff.1 found⟩

theorem sizeOf_lt_of_mem [SizeOf α] (h : (name, value) ∈ table.entries) : sizeOf value < sizeOf table := by
  have within := Row.sizeOf_lt_of_mem h
  rw [mk.sizeOf_spec]
  omega

/-- Two tables with the same names have under each name two entries that stand side by side. -/
theorem exists_mem_zip_of_get? {others : Table β} (same : others.names = table.names)
    (h : table.get? name = some value) : ∃ other, others.get? name = some other ∧
      ((name, value), (name, other)) ∈ table.entries.zip others.entries := by
  obtain ⟨names, row⟩ := table
  obtain ⟨names', row'⟩ := others
  subst same
  obtain ⟨other, beside⟩ := Row.exists_mem_zip row' (get?_eq_some_iff.1 h)
  exact ⟨other, get?_eq_some_iff.2 (List.of_mem_zip beside).2, beside⟩

theorem get?_ofNames {names : Names} (value : String → α) (h : name ∈ names) :
    (ofNames names value).get? name = some (value name) := by
  rw [get?_eq_some_iff, entries_ofNames]
  exact List.mem_map_of_mem h

theorem enter_ofNames (value : α) (names : Names) (name : String) :
    (ofNames names fun _ => value).enter name value = ofNames (names.insert name) fun _ => value := by
  by_cases there : name ∈ names
  · have entered : (ofNames names fun _ => value).enter name value = _ := enter_of_mem there
    rw [Names.insert_of_mem there, entered]
    exact congrArg (mk names) (Row.replace_ofNames value name names.toList)
  · have entered : (ofNames names fun _ => value).enter name value = _ := enter_of_not_mem there
    rw [Names.insert_of_not_mem there, entered]
    exact congrArg (mk (names.push name there)) (Row.push_ofNames value name names.toList)

end Table

end SubtreeHarvest
