/-
The selectors that are looked up. A plan is compiled from a list of selectors, and reading goes along
the tree of the request as the document leads it; but whatever the document, it looks up only what the
tree asks for somewhere, and the list has all of this. So no look-up fails, and a text that is not read
is no document or has an element where some selector has no value.
-/
import SubtreeHarvest.Proofs.Plan.Element
import SubtreeHarvest.Proofs.Request.Occurrence
import SubtreeHarvest.Proofs.Selector.Parted

namespace SubtreeHarvest

theorem Path.compile_empty :
    Path.compile "" = .error (.malformedExpression "" "empty relative selector") := rfl

namespace Plan

/-- Reading the element at a path with a request comes to reading the element at a path with a request:
the same, or what is read under one of its selectors from an element that this selector reaches. -/
inductive Visits (compiled : CompiledSelectors) (document : Document) :
    List Nat → Request → List Nat → Request → Prop
  | top {path : List Nat} {request : Request} : Visits compiled document path request path request
  | beneath {path next path' : List Nat} {request child below : Request} {selector : String}
      {paths : List (List Nat)} : (selector, child) ∈ request.children →
      reach compiled document path selector = .ok paths → next ∈ paths →
      Visits compiled document next child path' below → Visits compiled document path request path' below

variable {compiled : CompiledSelectors} {document : Document} {path path' : List Nat}
  {request below : Request} {failure : Failure} {selector : String} {expression : Path.Expression}

/-- What is visited asks for selectors of the request only. -/
theorem Visits.mem_selectors (h : Visits compiled document path request path' below)
    (hs : selector ∈ below.under.names) : selector ∈ request.selectors := by
  induction h with
  | top => exact Request.mem_selectors.2 (.inl hs)
  | beneath hm _ _ _ ih => exact Request.mem_selectors.2 (.inr ⟨_, _, hm, ih hs⟩)

/-- An element that cannot be read leads to one where a selector fails. -/
theorem exists_visits_of_readElement_error (request : Request) : ∀ {path : List Nat},
    readElement compiled document path request = .error failure →
      ∃ path' below selector, Visits compiled document path request path' below ∧
        selector ∈ below.under.names ∧ reach compiled document path' selector = .error failure := by
  induction request using Request.induct with
  | step request ih =>
    intro path h
    obtain ⟨selector, child, hm, fails | ⟨paths, next, reached, hn, fails⟩⟩ :=
      exists_of_readRow_error (readRow_of_readElement_error h)
    · exact ⟨path, request, selector, .top, Table.mem_names_of_mem hm, fails⟩
    · obtain ⟨path', below, found, visits, hs, fails⟩ := ih selector child hm fails
      exact ⟨path', below, found, .beneath hm reached hn visits, hs, fails⟩

/-- A selector that is in the table fails only where its expression has no value. -/
theorem reach_eq_error (hf : compiled.get? selector = some expression)
    (h : reach compiled document path selector = .error failure) :
    (∃ fault, Path.selectElements document path expression = .error fault) ∧
      failure = .malformedExpression selector Failure.unexplained := by
  rw [reach, hf] at h
  cases hv : Path.selectElements document path expression with
  | ok paths => simp only [hv] at h; cases h
  | error fault =>
    simp only [hv] at h
    exact ⟨⟨fault, rfl⟩, (Except.error.inj h).symm⟩

/-- Reading some document comes to an element where a selector that is asked for, and is in the table,
has no value. -/
def Valueless (plan : Plan) (selector : String) : Prop :=
  ∃ document path path' below expression fault,
    Visits plan.compiled document path plan.request path' below ∧ selector ∈ below.under.names ∧
    plan.compiled.get? selector = some expression ∧
    Path.selectElements document path' expression = .error fault

variable {plan : Plan}

/-- A plan that was made has in its table what is asked for wherever its reading comes to. -/
theorem get?_of_visits (hc : compile request = .ok plan)
    (h : Visits plan.compiled document path plan.request path' below) (hs : selector ∈ below.under.names) :
    ∃ expression, plan.compiled.get? selector = some expression ∧ Path.compile selector = .ok expression := by
  obtain ⟨same, holds⟩ := holds_of_compile hc
  obtain ⟨expression, hx, hf⟩ := holds selector (same ▸ h.mem_selectors hs)
  exact ⟨expression, hf, hx⟩

/-- A text that a plan does not read is no document, or leads to a selector without a value. -/
theorem valueless_of_read_error (hc : compile request = .ok plan) {text : String}
    (h : plan.read text = .error failure) : failure.kind = .unreadableFragment ∨
      ∃ selector, plan.Valueless selector ∧
        failure = .malformedExpression selector Failure.unexplained := by
  rcases read_cases text with ⟨unread, kind, fails⟩ | ⟨document, path, reads⟩
  · cases (fails plan).symm.trans h
    exact .inl kind
  · rw [reads] at h
    obtain ⟨path', below, selector, visits, hs, fails⟩ := exists_visits_of_readElement_error plan.request h
    obtain ⟨expression, hf, -⟩ := get?_of_visits hc visits hs
    obtain ⟨⟨fault, valueless⟩, said⟩ := reach_eq_error hf fails
    exact .inr ⟨selector, ⟨document, path, path', below, expression, fault, visits, hs, hf, valueless⟩, said⟩

/-- A selector without a value is not said to be missing. -/
theorem unexplained_ne (selector other : String) :
    Failure.malformedExpression selector Failure.unexplained ≠
      .malformedExpression other "selector was not compiled" := by
  intro same
  have kinds : FailureKind.malformedExpression selector = .malformedExpression other :=
    congrArg Failure.kind same
  cases kinds
  exact absurd (Selector.malformedExpression_inj same) (by decide)

/-- The selectors of a request are those that it asks for anywhere in its tree, each as often as it is
asked for, as a stack of requests comes to them. A plan is made exactly if all of them, at every place,
are not empty and write an expression. At whatever reading comes to, from any element of any document,
every selector that is asked for there is then in the table, with the expression that it writes. So a
text that cannot be read is no document, or has an element where an expression has no value; the failure
is never that a selector was not compiled. -/
theorem lookUps_of_compile (request : Request) :
    (request.occurrences.Nodup ∧
      (∀ o, o ∈ request.occurrences ↔ (request.selectorAt? o).isSome = true) ∧
      request.occurrences.map request.selectorAt? = request.selectors.map some ∧
      Request.unstack [request] = request.selectors) ∧
    ((∃ plan, compile request = .ok plan) ↔
      ∀ place below, request.at? place = some below → ∀ selector ∈ below.under.names,
        selector ≠ "" ∧ ∃ expression, Path.compile selector = .ok expression) ∧
    ∀ plan, compile request = .ok plan →
      (∀ document path path' below, Visits plan.compiled document path plan.request path' below →
        ∀ selector ∈ below.under.names, ∃ expression,
          plan.compiled.get? selector = some expression ∧ Path.compile selector = .ok expression) ∧
      (∀ text failure, plan.read text = .error failure → failure.kind = .unreadableFragment ∨
        ∃ selector, plan.Valueless selector ∧
          failure = .malformedExpression selector Failure.unexplained) ∧
      ∀ text selector,
        plan.read text ≠ .error (.malformedExpression selector "selector was not compiled") := by
  refine ⟨⟨request.nodup_occurrences, request.mem_occurrences, request.map_occurrences, ?_⟩, ?_,
    fun plan hc => ⟨fun _ _ _ _ visits _ hs => get?_of_visits hc visits hs,
      fun _ _ h => valueless_of_read_error hc h, fun text other h => ?_⟩⟩
  · rw [Request.unstack_eq, List.flatMap_singleton]
  · rw [compile_eq_ok_iff]
    constructor
    · intro all place below there selector hs
      obtain ⟨expression, hx⟩ := all selector (Request.mem_selectors_iff.2 ⟨place, below, there, hs⟩)
      refine ⟨?_, expression, hx⟩
      rintro rfl
      cases Path.compile_empty.symm.trans hx
    · intro all selector hs
      obtain ⟨place, below, there, hs⟩ := Request.mem_selectors_iff.1 hs
      exact (all place below there selector hs).2
  · rcases valueless_of_read_error hc h with kind | ⟨selector, -, said⟩
    · cases kind
    · exact unexplained_ne selector other said.symm

/-- One selector is asked for at two levels and has one entry in the table; another, asked for below both
of them, is compiled and has no value at the element that they lead to. -/
theorem lookUps_of_compile_repeated :
    let innermost := Request.empty.askChild "nosuchfn(.)" Request.empty
    let request := (Request.empty.askChild "b" (Request.empty.askChild "b" innermost)).askChild "c" .empty
    request.selectorAt? ⟨[0, 0], 0⟩ = some "nosuchfn(.)" ∧
    (⟨[0, 0], 0⟩ : Request.Occurrence) ∈ request.occurrences ∧
    ∃ plan, compile request = .ok plan ∧
      (∃ expression, plan.compiled.get? "b" = some expression ∧ Path.compile "b" = .ok expression) ∧
      plan.read "<a><b><b/></b></a>" = .error (.malformedExpression "nosuchfn(.)" Failure.unexplained) ∧
      plan.Valueless "nosuchfn(.)" ∧
      ∀ selector, plan.read "<a><b><b/></b></a>" ≠
        .error (.malformedExpression selector "selector was not compiled") := by
  intro innermost request
  obtain ⟨⟨-, listed, -, -⟩, compiles, reads⟩ := lookUps_of_compile request
  have asked : request.selectorAt? ⟨[0, 0], 0⟩ = some "nosuchfn(.)" := by decide
  have run : (match compile request with
    | .ok plan => match plan.read "<a><b><b/></b></a>" with
      | .ok _ => false
      | .error failure => decide (failure = .malformedExpression "nosuchfn(.)" Failure.unexplained)
    | .error _ => false) = true := by decide +kernel
  cases hc : compile request with
  | error failure => rw [hc] at run; cases run
  | ok plan =>
    simp only [hc] at run
    cases hr : plan.read "<a><b><b/></b></a>" with
    | ok reading => rw [hr] at run; cases run
    | error failure =>
      rw [hr] at run
      obtain rfl := of_decide_eq_true run
      obtain ⟨found, valueless, compiled⟩ := reads plan hc
      have same : plan.request = request := (holds_of_compile hc).1
      refine ⟨asked, (listed _).2 (by rw [asked]; rfl), plan, rfl, ?_, hr, ?_, compiled _⟩
      · exact found ⟨[]⟩ [] [] plan.request .top "b" (by rw [same]; decide)
      · rcases valueless _ _ hr with kind | ⟨selector, there, said⟩
        · cases kind
        · have kinds := congrArg Failure.kind said
          cases kinds
          exact there

end Plan

end SubtreeHarvest
