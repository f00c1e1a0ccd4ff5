/-
Requests that are the same read the same. Their selectors are compiled, and followed, in different
orders, and of several that fail the first one counts; but which elements are read with which requests
does not depend on the order, so both requests succeed or both fail. Where they succeed the readings
are the same, up to the order of attributes and of selectors.

What is read depends on the compiled selectors only through those that the request has, and these are
the same for both requests. It is therefore enough to read with one table.
-/
import SubtreeHarvest.Proofs.Plan.Conforms
import SubtreeHarvest.Proofs.Request.Basic

namespace SubtreeHarvest

namespace Reading

theorem sameList_iff : ∀ {readings others : List Reading},
    sameList readings others = true ↔ List.Forall₂ (fun r other => r.same other = true) readings others
  | [], [] => by simp [sameList]
  | [], _ :: _ => by simp [sameList]
  | _ :: _, [] => by simp [sameList]
  | r :: rest, other :: others => by
    rw [sameList, Bool.and_eq_true, sameList_iff, List.forall₂_cons]

theorem sameRow_iff {names : List String} {row : Row (List Reading) names} {others : Table (List Reading)} :
    sameRow row others = true ↔ ∀ selector readings, (selector, readings) ∈ row.entries →
      ∃ found, others.get? selector = some found ∧ sameList readings found = true := by
  refine Row.all_iff_of_cons sameList (sameRow · others) ?_ (fun {selector _} readings rest => ?_) row
  · simp [sameRow]
  · rw [sameRow]
    cases others.get? selector <;> rfl

theorem same_iff {r other : Reading} : r.same other = true ↔ r.text = other.text ∧
    sameAttributes r.values other.values = true ∧
    r.under.names.toList.length = other.under.names.toList.length ∧ sameRow r.under.row other.under = true := by
  obtain ⟨text, values, under⟩ := r
  rw [same]
  simp only [Bool.and_eq_true, beq_iff_eq, and_assoc]

/-- Values given to names by one function are the same whatever the order of the names. -/
theorem sameAttributes_of_perm {names others : Names} (perm : names.toList.Perm others.toList)
    (value : String → String) : sameAttributes (.ofNames names value) (.ofNames others value) = true := by
  rw [sameAttributes, Bool.and_eq_true, beq_iff_eq, List.all_eq_true, Table.entries_ofNames]
  refine ⟨perm.length_eq, fun entry hm => ?_⟩
  obtain ⟨name, hn, rfl⟩ := List.mem_map.1 hm
  exact beq_iff_eq.2 (Table.get?_ofNames value (perm.subset hn))

end Reading

namespace Plan

variable {compiled others : CompiledSelectors} {document : Document} {path : List Nat} {a b : Request}

/-! ## One table -/

theorem readRow_congr : ∀ {selectors : List String} (row : Row Request selectors),
    (∀ selector ∈ selectors, compiled.get? selector = others.get? selector) →
      (∀ selector child, (selector, child) ∈ row.entries → ∀ path,
        readElement compiled document path child = readElement others document path child) →
      readRow compiled document path row = readRow others document path row
  | _, .nil, _, _ => rfl
  | selector :: _, .cons child rest, agree, below => by
    have own : reach compiled document path selector = reach others document path selector := by
      rw [reach, reach, agree selector List.mem_cons_self]
    have here : (fun path => readElement compiled document path child) =
        fun path => readElement others document path child :=
      funext (below selector child List.mem_cons_self)
    have later := readRow_congr rest (fun name hn => agree name (List.mem_cons_of_mem _ hn))
      fun name child hm => below name child (List.mem_cons_of_mem _ hm)
    rw [readRow, readRow, own, here, later]

/-- What is read depends on a table only through the selectors of the request. -/
theorem readElement_congr (request : Request) : ∀ {path : List Nat},
    (∀ selector ∈ request.selectors, compiled.get? selector = others.get? selector) →
      readElement compiled document path request = readElement others document path request := by
  induction request using Request.induct with
  | step request ih =>
    intro path agree
    have row : readRow compiled document path request.under.row =
        readRow others document path request.under.row := by
      refine readRow_congr _ (fun selector hs => agree selector (Request.mem_selectors.2 (.inl hs))) ?_
      exact fun selector child hm path => ih selector child hm fun name hn =>
        agree name (Request.mem_selectors.2 (.inr ⟨selector, child, hm, hn⟩))
    obtain ⟨wantsText, names, under⟩ := request
    rw [readElement, readElement, row]

/-! ## Two requests -/

/-- What is related to something, one by one, can be replaced by what is related to it in other ways. -/
theorem exists_forall₂_of_forall₂ {α β γ : Type} {R : α → β → Prop} {S : α → γ → Prop} {T : β → γ → Prop}
    (each : ∀ a b, R a b → ∃ c, S a c ∧ T b c) {as : List α} {bs : List β} (h : List.Forall₂ R as bs) :
    ∃ cs, List.Forall₂ S as cs ∧ List.Forall₂ T bs cs := by
  induction h with
  | nil => exact ⟨[], .nil, .nil⟩
  | cons first _ ih =>
    obtain ⟨c, left, right⟩ := each _ _ first
    obtain ⟨cs, lefts, rights⟩ := ih
    exact ⟨c :: cs, .cons left lefts, .cons right rights⟩

/-- A selector whose request can be replaced at each element can have it replaced. -/
theorem Reads.same {selector : String} {child other : Request} {found : List Reading}
    (each : ∀ path reading, readElement compiled document path child = .ok reading →
      ∃ reading', readElement compiled document path other = .ok reading' ∧ reading.same reading' = true)
    (h : Reads compiled document path (selector, child) (selector, found)) :
    ∃ found', Reads compiled document path (selector, other) (selector, found') ∧
      Reading.sameList found found' = true := by
  obtain ⟨-, paths, reached, read⟩ := h
  obtain ⟨found', read', alike⟩ := exists_forall₂_of_forall₂ each read
  exact ⟨found', ⟨rfl, paths, reached, read'⟩, Reading.sameList_iff.2 alike⟩

/-- A request that is the same reads wherever the first one does, and the same. -/
theorem exists_readElement_of_same (a : Request) : ∀ {b : Request} {path : List Nat} {r : Reading},
    a.same b = true → readElement compiled document path a = .ok r →
      ∃ r', readElement compiled document path b = .ok r' ∧ r.same r' = true := by
  induction a using Request.induct with
  | step a ih =>
    intro b path r alike hr
    obtain ⟨text, values, selectors, children⟩ := readElement_eq_ok_iff.1 hr
    -- Under each selector of `b` stands what `a` reads there.
    obtain ⟨row, beside⟩ : ∃ row : Row (List Reading) b.under.names.toList, List.Forall₂ (fun asked read =>
        Reads compiled document path asked read ∧ ∃ found, r.under.get? asked.1 = some found ∧
          Reading.sameList found read.2 = true) b.children row.entries := by
      refine Row.exists_row b.under.row fun selector other hm => ?_
      obtain ⟨child, hc, alike⟩ := Request.exists_of_same alike hm
      obtain ⟨found, hf, pair⟩ := Table.exists_mem_zip_of_get? selectors (Table.get?_eq_some_iff.2 hc)
      have read : Reads compiled document path (selector, child) (selector, found) :=
        (List.forall₂_iff_zip.1 children).2 pair
      obtain ⟨found', read', alikes⟩ := read.same fun _ _ => ih selector child hc alike
      exact ⟨found', read', found, hf, alikes⟩
    let under : Table (List Reading) := ⟨b.under.names, row⟩
    have children' : List.Forall₂ (Reads compiled document path) b.children under.entries :=
      beside.imp fun _ _ h => h.1
    refine ⟨⟨if b.wantsText then some (textAt document path) else none,
      .ofNames b.names (attributeAt document path), under⟩,
      readElement_eq_ok_iff.2 ⟨rfl, rfl, rfl, children'⟩, Reading.same_iff.2 ⟨?_, ?_, ?_, ?_⟩⟩
    · rw [text, (Request.same_iff.1 alike).1]
    · rw [values]
      exact Reading.sameAttributes_of_perm (Request.perm_names alike) _
    · rw [selectors, (Request.same_iff.1 alike).2.2.1]
    · refine Reading.sameRow_iff.2 fun selector found hm => ?_
      have there : selector ∈ b.under.names :=
        (Request.perm_under alike).subset (selectors ▸ Table.mem_names_of_mem hm)
      obtain ⟨other, ho⟩ := Table.exists_mem_of_mem_names there
      obtain ⟨found', hf, pair⟩ : ∃ found', under.get? selector = some found' ∧
          ((selector, other), (selector, found')) ∈ b.children.zip under.entries :=
        Table.exists_mem_zip_of_get? rfl (Table.get?_eq_some_iff.2 ho)
      obtain ⟨-, _, here, alikes⟩ := (List.forall₂_iff_zip.1 beside).2 pair
      cases (Table.get?_eq_some_iff.2 hm).symm.trans here
      exact ⟨found', hf, alikes⟩

/-! ## Compiled requests -/

/-- The two ways in which a text is not read: it is no document, or a selector has no value. -/
def FailAlike (failure other : Failure) : Prop :=
  (failure.kind = .unreadableFragment ∧ other.kind = .unreadableFragment) ∨
    (failure.IsMalformed ∧ other.IsMalformed)

/-- Of two requests that are the same both are compiled or both are refused, for a malformed selector.
If they are compiled, then from every text both read the same, up to the order of attributes and
selectors, or both fail: because the text is no document, or because a selector has no value. -/
theorem read_same {a b : Request} (h : a.same b = true) :
    (∃ failure other, compile a = .error failure ∧ compile b = .error other ∧
      failure.IsMalformed ∧ other.IsMalformed) ∨
    ∃ plan plan', compile a = .ok plan ∧ compile b = .ok plan' ∧ ∀ text,
      (∃ reading reading', plan.read text = .ok reading ∧ plan'.read text = .ok reading' ∧
        reading.same reading' = true) ∨
      ∃ failure other, plan.read text = .error failure ∧ plan'.read text = .error other ∧
        FailAlike failure other := by
  have back := Request.same_symm h
  have selectors (name : String) : name ∈ a.selectors ↔ name ∈ b.selectors :=
    ⟨fun hn => Request.selectors_subset h hn, fun hn => Request.selectors_subset back hn⟩
  rcases compile_cases a with ⟨bad, hm, failure, fails, ha⟩ | ⟨compiled, ha, holds⟩ <;>
    rcases compile_cases b with ⟨bad', hm', failure', fails', hb⟩ | ⟨compiled', hb, holds'⟩
  · exact .inl ⟨failure, failure', ha, hb, Path.isMalformed_of_compile fails,
      Path.isMalformed_of_compile fails'⟩
  · obtain ⟨_, ok, -⟩ := holds' bad ((selectors bad).1 hm)
    cases fails.symm.trans ok
  · obtain ⟨_, ok, -⟩ := holds bad' ((selectors bad').2 hm')
    cases fails'.symm.trans ok
  refine .inr ⟨_, _, ha, hb, fun text => ?_⟩
  rcases read_cases text with ⟨failure, kind, unread⟩ | ⟨document, path, reads⟩
  · exact .inr ⟨failure, failure, unread _, unread _, .inl ⟨kind, kind⟩⟩
  have table : readElement compiled document path b = readElement compiled' document path b :=
    readElement_congr b fun name hn => holds.get?_eq holds' ((selectors name).2 hn) hn
  rw [reads, reads]
  simp only
  rw [← table]
  cases hr : readElement compiled document path a with
  | ok reading =>
    obtain ⟨reading', hr', alike⟩ := exists_readElement_of_same a h hr
    exact .inl ⟨reading, reading', rfl, hr', alike⟩
  | error failure =>
    cases hr' : readElement compiled document path b with
    | ok reading' =>
      obtain ⟨_, ok, -⟩ := exists_readElement_of_same b back hr'
      cases hr.symm.trans ok
    | error failure' =>
      have malformed := isMalformed_of_readElement a hr
      have malformed' := isMalformed_of_readElement b hr'
      exact .inr ⟨failure, failure', rfl, rfl, .inr ⟨malformed, malformed'⟩⟩

/-- Attributes and selectors in two orders, at two levels. -/
theorem read_same_reordered :
    let inner : Request := (Request.empty.askAttributes ["u", "v"]).askText
    let inner' : Request := (Request.empty.askAttributes ["v", "u", "v"]).askText
    let a := ((Request.empty.askAttributes ["x", "y"]).askChild "b" inner).askChild "c" inner
    let b := ((Request.empty.askChild "c" inner').askAttributes ["y", "x"]).askChild "b" inner'
    let text := "<a x='1'><b u='2'>3</b><c>4</c></a>"
    a.same b = true ∧ ∃ plan plan' reading reading', compile a = .ok plan ∧
      compile b = .ok plan' ∧ plan.read text = .ok reading ∧ plan'.read text = .ok reading' ∧
      reading.same reading' = true := by
  intro inner inner' a b text
  have alike : a.same b = true := by decide +kernel
  have run : (match compile a with
    | .ok plan => match plan.read text with
      | .ok _ => true
      | .error _ => false
    | .error _ => false) = true := by decide +kernel
  rcases read_same alike with ⟨failure, -, ha, -⟩ | ⟨plan, plan', ha, hb, each⟩
  · rw [ha] at run
    cases run
  · simp only [ha] at run
    rcases each text with ⟨reading, reading', hr, hr', alikes⟩ | ⟨failure, -, hr, -⟩
    · exact ⟨alike, plan, plan', reading, reading', ha, hb, hr, hr', alikes⟩
    · rw [hr] at run
      cases run

end Plan

end SubtreeHarvest
