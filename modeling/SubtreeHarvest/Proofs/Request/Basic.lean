/-
Requests as trees. What holds of a request if it holds of the requests of its children holds of every
request. The selectors of a request are its own and those of the requests of its children.

Two requests are the same when they want the text alike, ask for the same attributes, and have the same
selectors with requests that are the same again. The comparison itself looks only from the first request
to the second, and counts; as no name comes twice, this is enough for it to hold the other way round.
-/
import SubtreeHarvest.Proofs.Table
import SubtreeHarvest.Request

namespace SubtreeHarvest.Request

variable {request : Request} {selector : String} {child : Request}

theorem sizeOf_child (h : (selector, child) ∈ request.children) : sizeOf child < sizeOf request := by
  obtain ⟨wantsText, names, under⟩ := request
  have within : sizeOf child < sizeOf under := Table.sizeOf_lt_of_mem h
  simp only [mk.sizeOf_spec]
  omega

/-- Induction along the tree of a request. -/
@[elab_as_elim]
theorem induct {P : Request → Prop}
    (step : ∀ request : Request, (∀ selector child, (selector, child) ∈ request.children → P child) →
      P request) (request : Request) : P request :=
  step request fun _ child _ => induct step child
termination_by request
decreasing_by exact sizeOf_child ‹_›

/-! ## Selectors -/

theorem mem_rowSelectors {name : String} : ∀ {names : List String} {row : Row Request names},
    name ∈ rowSelectors row ↔ ∃ selector child, (selector, child) ∈ row.entries ∧ name ∈ child.selectors
  | _, .nil => by simp [rowSelectors, Row.entries]
  | selector :: _, .cons child rest => by
    rw [rowSelectors, List.mem_append, mem_rowSelectors, Row.entries]
    constructor
    · rintro (⟨other, found, hm, hn⟩ | hn)
      · exact ⟨other, found, List.mem_cons_of_mem _ hm, hn⟩
      · exact ⟨selector, child, List.mem_cons_self, hn⟩
    · rintro ⟨other, found, hm, hn⟩
      rcases List.mem_cons.1 hm with same | later
      · cases same
        exact .inr hn
      · exact .inl ⟨other, found, later, hn⟩

theorem mem_selectors {name : String} : name ∈ request.selectors ↔ name ∈ request.under.names ∨
    ∃ selector child, (selector, child) ∈ request.children ∧ name ∈ child.selectors := by
  obtain ⟨wantsText, names, under⟩ := request
  rw [selectors, List.mem_append, mem_rowSelectors]
  rfl

/-! ## Requests that are the same -/

variable {a b other : Request}

theorem sameRow_iff {names : List String} {row : Row Request names} {others : Table Request} :
    sameRow row others = true ↔ ∀ selector child, (selector, child) ∈ row.entries →
      ∃ other, others.get? selector = some other ∧ same child other = true := by
  refine Row.all_iff_of_cons same (sameRow · others) ?_ (fun {selector _} child rest => ?_) row
  · simp [sameRow]
  · rw [sameRow]
    cases others.get? selector <;> rfl

theorem same_iff : same a b = true ↔ a.wantsText = b.wantsText ∧
    (a.names.toList.length = b.names.toList.length ∧ a.names.toList ⊆ b.names.toList) ∧
    a.under.names.toList.length = b.under.names.toList.length ∧
    ∀ selector child, (selector, child) ∈ a.children →
      ∃ other, b.under.get? selector = some other ∧ same child other = true := by
  obtain ⟨wantsText, names, under⟩ := a
  rw [same]
  simp only [Bool.and_eq_true, beq_iff_eq, List.all_eq_true, List.contains_iff_mem, and_assoc, sameRow_iff]
  rfl

/-! ## Both ways -/

theorem perm_names (h : a.same b = true) : a.names.toList.Perm b.names.toList := by
  obtain ⟨-, ⟨length, subset⟩, -⟩ := same_iff.1 h
  exact Names.perm_of_subset length subset

theorem perm_under (h : a.same b = true) : a.under.names.toList.Perm b.under.names.toList := by
  obtain ⟨-, -, length, each⟩ := same_iff.1 h
  refine Names.perm_of_subset length fun selector hs => ?_
  obtain ⟨child, hm⟩ := Table.exists_mem_of_mem_names hs
  obtain ⟨other, found, -⟩ := each selector child hm
  exact Table.mem_names_of_mem (Table.get?_eq_some_iff.1 found)

/-- Each selector of the second request stands in the first one, with a request that is the same. -/
theorem exists_of_same (h : a.same b = true) (hm : (selector, other) ∈ b.children) :
    ∃ child, (selector, child) ∈ a.children ∧ child.same other = true := by
  have there : selector ∈ a.under.names := (perm_under h).mem_iff.2 (Table.mem_names_of_mem hm)
  obtain ⟨child, hc⟩ := Table.exists_mem_of_mem_names there
  obtain ⟨-, -, -, each⟩ := same_iff.1 h
  obtain ⟨found, hf, alike⟩ := each selector child hc
  cases hf.symm.trans (Table.get?_eq_some_iff.2 hm)
  exact ⟨child, hc, alike⟩

theorem same_symm (h : a.same b = true) : b.same a = true := by
  induction a using Request.induct generalizing b with
  | step a ih =>
    obtain ⟨text, ⟨length, -⟩, count, -⟩ := same_iff.1 h
    refine same_iff.2 ⟨text.symm, ⟨length.symm, (perm_names h).symm.subset⟩, count.symm, ?_⟩
    intro selector other hm
    obtain ⟨child, hc, alike⟩ := exists_of_same h hm
    exact ⟨child, Table.get?_eq_some_iff.2 hc, ih selector child hc alike⟩

/-- Requests that are the same have the same selectors. -/
theorem selectors_subset (h : a.same b = true) : a.selectors ⊆ b.selectors := by
  induction a using Request.induct generalizing b with
  | step a ih =>
    intro name hn
    rcases mem_selectors.1 hn with own | ⟨selector, child, hm, below⟩
    · exact mem_selectors.2 (.inl ((perm_under h).subset own))
    · obtain ⟨-, -, -, each⟩ := same_iff.1 h
      obtain ⟨other, found, alike⟩ := each selector child hm
      have ho := Table.get?_eq_some_iff.1 found
      exact mem_selectors.2 (.inr ⟨selector, other, ho, ih selector child hm alike below⟩)

end SubtreeHarvest.Request
