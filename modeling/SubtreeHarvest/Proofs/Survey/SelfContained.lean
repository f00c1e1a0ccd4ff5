/-
Surveys of documents with namespaces. A fragment is cut out of its document with the attributes of its
own elements, and nothing of those around it, and is then read as a document of its own. So a survey
that asks for no children reads exactly the captured elements that are self-contained. Every other
captured element takes up one item that says that it cannot be read, although the document around it
may well declare all that it needs.
-/
import SubtreeHarvest.Proofs.Document.Qualified
import SubtreeHarvest.Proofs.Extract.Limits
import SubtreeHarvest.Proofs.Survey.Items

namespace SubtreeHarvest

open Document Findings

variable {plan : Plan} {e : Element}

/-- What a survey finds of a captured element: its reading if the element is self-contained, and else
that it cannot be read. -/
inductive Element.Fares (request : Request) (e : Element) : Except Failure Reading → Prop
  | read {reading : Reading} : e.SelfContained →
      reading.text = (if request.wantsText then some e.inside.contents else none) →
      reading.values.names = request.names → reading.under = .empty → Fares request e (.ok reading)
  | unreadable {failure : Failure} : ¬ e.SelfContained → failure.kind = .unreadableFragment →
      Fares request e (.error failure)

namespace Plan

/-- No plan reads the fragment of an element that is not self-contained. -/
theorem read_of_not_selfContained (plan : Plan) (ht : Worded e.tag) (hi : e.inside.Worded)
    (h : ¬ e.SelfContained) : plan.read e.fragment.text =
      .error (.saying .unreadableFragment ("cannot reparse fragment: " ++ Failure.unexplained)) := by
  rw [read, Document.parse, ofText?_fragment_none ht hi h]
  rfl

theorem fares_read (childless : plan.request.under = .empty) (ht : Worded e.tag) (hi : e.inside.Worded) :
    e.Fares plan.request (plan.read e.fragment.text) := by
  by_cases h : e.SelfContained
  · obtain ⟨frame, opens, readable⟩ := (selfContained_iff ht hi).1 h
    rw [read_readable childless opens readable]
    exact .read h rfl rfl rfl
  · rw [read_of_not_selfContained plan ht hi h]
    exact .unreadable h rfl

end Plan

theorem Element.Fares.goesOn {request : Request} {item : Except Failure Reading} (h : e.Fares request item) :
    isLast item = false := by
  cases h with
  | read => rfl
  | unreadable _ kind => exact isLast_unreadable kind

namespace Survey

/-- Where all names are words, a survey that asks for no children finds an item for each captured
element, in document order, as the element fares: its reading if it is self-contained, and else a
failure that says that it cannot be read. Under limits these are perhaps only the first items, with
the failure of a limit behind them. -/
theorem items_selfContained {expression : String} {request : Request} {survey : Survey}
    (h : compile expression request = .ok survey) (childless : request.under = .empty) (limits : Limits)
    {forest : Forest} (worded : forest.Worded) :
    ∃ front items rest, front <+: forest.captured survey.selector.chain ∧
      ((survey.withLimits limits).begin (Feed.ofEvents forest.events)).items = items ++ rest ∧
      List.Forall₂ (Element.Fares request) front items ∧
      ((front = forest.captured survey.selector.chain ∧ rest = []) ∨
        ∃ failure, limits.Exceeded failure.kind ∧ rest = [.error failure]) := by
  obtain ⟨selector, plan⟩ := compiled_of_compile h
  have same : survey.plan.request = request := by
    rw [Plan.compile_childless childless] at plan
    exact congrArg Plan.request (Except.ok.inj plan).symm
  let read (e : Element) := survey.plan.read e.fragment.text
  have fares : ∀ e ∈ forest.captured survey.selector.chain, e.Fares request (read e) := by
    intro e he
    obtain ⟨ht, hi⟩ := worded.of_mem (List.mem_filter.1 he).1
    exact same ▸ Plan.fares_read (same ▸ childless) ht hi
  have goesOn (front : List Element) (hf : front ⊆ forest.captured survey.selector.chain) :
      ∀ item ∈ front.map read, isLast item = false := by
    intro item hm
    obtain ⟨e, he, rfl⟩ := List.mem_map.1 hm
    exact (fares e (hf he)).goesOn
  have each (front : List Element) (hf : front ⊆ forest.captured survey.selector.chain) :
      List.Forall₂ (Element.Fares request) front (front.map read) := by
    rw [List.forall₂_map_right_iff, List.forall₂_same]
    exact fun e he => fares e (hf he)
  have readAll (front : List Element) : (front.map fun e => Except.ok e.fragment).map survey.plan.readItem =
      front.map read := by
    rw [List.map_map]
    rfl
  let free : Extraction Feed := .begin survey.selector .none (Feed.ofEvents forest.events)
  have found : ((survey.withLimits limits).begin (Feed.ofEvents forest.events)).items =
      upToLast ((free.under limits).items.map survey.plan.readItem) := items_eq survey.plan (free.under limits)
  have captured : free.items = (forest.captured survey.selector.chain).map fun e => .ok e.fragment :=
    Selector.items_forest survey.selector forest
  rcases Extraction.items_limited (x := free) rfl limits.within_none with all | ⟨made, failure, limit, cut⟩
  · refine ⟨_, _, [], List.prefix_refl _, ?_, each _ (List.Subset.refl _), .inl ⟨rfl, rfl⟩⟩
    rw [found, all, captured, readAll, upToLast_of_goesOn (goesOn _ (List.Subset.refl _)), List.append_nil]
  · have first := List.take_prefix made (forest.captured survey.selector.chain)
    refine ⟨_, _, [.error failure], first, ?_, each _ first.subset, .inr ⟨failure, limit, rfl⟩⟩
    rw [found, cut, captured, ← List.map_take, List.map_append, readAll,
      upToLast_append _ (goesOn _ first.subset), List.map_singleton, Plan.readItem, upToLast]
    split <;> rfl

/-- An element that uses a qualifier of the element around it cannot be read, and behind it one is read
that declares the qualifier anew. The common qualifier needs no declaration on an attribute. -/
theorem items_selfContained_mixed :
    let inside : Forest := .element ⟨"p:c", [⟨"xml:lang", "en"⟩]⟩ .empty (.text " t " .empty)
    let forest : Forest := .element ⟨"r", [⟨"xmlns:p", "u"⟩]⟩ (.element ⟨"p:a", []⟩ .empty
      (.element ⟨"p:b", [⟨"xmlns:p", "v"⟩]⟩ inside .empty)) .empty
    ∃ survey failure reading, compile "/r/*" Request.empty.askText = .ok survey ∧
      (survey.begin (Feed.ofEvents forest.events)).items = [.error failure, .ok reading] ∧
      failure.kind = .unreadableFragment ∧ reading.text = some "t" := by
  intro inside forest
  let selector : Selector := ⟨"/r/*", ⟨⟨some "r", none, false⟩, [⟨none, none, true⟩]⟩⟩
  let first : Element := ⟨1, [⟨"r", [⟨"xmlns:p", "u"⟩]⟩], ⟨"p:a", []⟩, .empty⟩
  let second : Element := ⟨3, [⟨"r", [⟨"xmlns:p", "u"⟩]⟩], ⟨"p:b", [⟨"xmlns:p", "v"⟩]⟩, inside⟩
  have compiled : compile "/r/*" Request.empty.askText =
    .ok ⟨selector, ⟨Request.empty.askText, .empty⟩, .none⟩ := rfl
  have captured : forest.captured selector.chain = [first, second] := by decide
  obtain ⟨front, items, rest, -, found, fares, ⟨all, ends⟩ | ⟨failure, limit, -⟩⟩ :=
    items_selfContained compiled rfl .none (by decide +kernel : forest.Worded)
  · rw [all, captured] at fares
    obtain ⟨item, _, faresFirst, more, rfl⟩ := List.forall₂_cons_left_iff.1 fares
    obtain ⟨other, _, faresSecond, done, rfl⟩ := List.forall₂_cons_left_iff.1 more
    cases done
    cases faresFirst with
    | read contained => exact absurd contained (by decide +kernel)
    | unreadable _ kind =>
      cases faresSecond with
      | unreadable torn => exact absurd (by decide +kernel) torn
      | read _ text =>
        refine ⟨_, _, _, compiled, ?_, kind, text.trans (by decide +kernel)⟩
        rw [ends, List.append_nil] at found
        exact found
  · rcases limit with ⟨some, -⟩ | ⟨some, -⟩ <;> cases some

/-- Although the document by itself can be understood, a captured element that uses a qualifier of the
element around it cannot be read. -/
theorem not_items_readable : ¬ ∀ (expression : String) (request : Request) (survey : Survey) (forest : Forest),
    compile expression request = .ok survey → request.under = .empty → forest.Worded → forest.Understood [] →
      ∀ failure, .error failure ∈ (survey.begin (Feed.ofEvents forest.events)).items →
        failure.kind ≠ .unreadableFragment := by
  intro readable
  let forest : Forest := .element ⟨"r", [⟨"xmlns:p", "u"⟩]⟩ (.element ⟨"p:a", []⟩ .empty .empty) .empty
  let selector : Selector := ⟨"/r/p:a", ⟨⟨some "r", none, false⟩, [⟨some "p:a", none, false⟩]⟩⟩
  let plan : Plan := ⟨Request.empty.askText, .empty⟩
  let e : Element := ⟨1, [⟨"r", [⟨"xmlns:p", "u"⟩]⟩], ⟨"p:a", []⟩, .empty⟩
  have captured : forest.captured selector.chain = [e] := by decide
  have worded : forest.Worded := by decide +kernel
  obtain ⟨ht, hi⟩ := worded.of_mem (by decide : e ∈ forest.elementsFrom 0 [])
  have unread := Plan.read_of_not_selfContained plan ht hi (by decide +kernel)
  have found := items_eq plan (.begin selector .none (Feed.ofEvents forest.events))
  rw [← Selector.extract, map_readItem_forest, captured, List.map_singleton, unread] at found
  refine readable "/r/p:a" Request.empty.askText ⟨selector, plan, .none⟩ forest rfl rfl worded
    (by decide +kernel)
    (.saying .unreadableFragment ("cannot reparse fragment: " ++ Failure.unexplained)) ?_ rfl
  show _ ∈ Findings.items ⟨.begin selector .none (Feed.ofEvents forest.events), plan, false⟩
  rw [found]
  exact List.mem_singleton.2 rfl

end Survey

end SubtreeHarvest
