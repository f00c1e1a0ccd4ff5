/-
What a run of the command writes, and how it ends. A run whose selectors cannot all be compiled writes
nothing. Any other run writes one line for each item that is found, as it is found: the fragment
itself where nothing is asked of it, and else its reading as JSON. An item that cannot be read has no
line; a failure that ends the search makes the run fail, but the lines in front of it stand.

A run finds what an extraction, or a survey with the request of the options, finds in its input. The
lines are those of the items up to the first failure that ends the search, so it is enough to follow
the list of the items. For fragments a run stops at any failure; this comes to the same, as an extraction
from a document answers only failures that end the search.
-/
import SubtreeHarvest.Command.Run
import SubtreeHarvest.Proofs.Extract.Fatal
import SubtreeHarvest.Proofs.Plan.Compiled
import SubtreeHarvest.Proofs.Survey.Items

namespace SubtreeHarvest

/-! ## Requests from options -/

theorem Request.askAttributes_eq (all : List String) : ∀ request : Request, request.askAttributes all =
    { request with names := all.foldl Names.insert request.names } := by
  induction all with
  | nil =>
    rintro ⟨⟩
    rfl
  | cons name all ih => exact fun request => ih (request.askAttribute name)

theorem Request.foldl_askChild (child : Request) : ∀ (selectors : List String) (names : Names)
    (request : Request), request.under = .ofNames names (fun _ => child) →
      selectors.foldl (fun request selector => request.askChild selector child) request =
        { request with under := .ofNames (selectors.foldl Names.insert names) fun _ => child }
  | [], _, ⟨_, _, _⟩, h => by
    cases h
    rfl
  | selector :: selectors, names, request, h => by
    have entered : (request.askChild selector child).under =
        .ofNames (names.insert selector) fun _ => child := by
      rw [askChild, h, Table.enter_ofNames]
    rw [List.foldl_cons, foldl_askChild child selectors _ _ entered]
    rfl

namespace Command

namespace Arguments

/-- Nothing is asked of the items but their fragments. -/
def Raw (arguments : Arguments) : Prop :=
  arguments.wantsText = false ∧ arguments.attributes = [] ∧ arguments.children = []

/-- What the options ask for: the text if it is wanted, each attribute that is named, once, and under
each selector for children the text of the elements it reaches, in the order in which they first come. -/
def asked (arguments : Arguments) : Request where
  wantsText := arguments.wantsText
  names := .ofList arguments.attributes
  under := .ofNames (.ofList arguments.children) fun _ => Request.empty.askText

variable {arguments : Arguments}

theorem request?_of_raw (h : arguments.Raw) : arguments.request? = none := by
  obtain ⟨text, attributes, children⟩ := h
  rw [request?, text, attributes, children]
  rfl

theorem request?_of_not_raw (h : ¬ arguments.Raw) : arguments.request? = some arguments.asked := by
  have some : (!arguments.wantsText && arguments.attributes.isEmpty && arguments.children.isEmpty) = false := by
    rw [Bool.eq_false_iff]
    simp only [Ne, Bool.and_eq_true, Bool.not_eq_true', List.isEmpty_iff, and_assoc]
    exact h
  rw [request?, some, if_neg Bool.false_ne_true, Request.askAttributes_eq]
  cases ht : arguments.wantsText
  all_goals
    simp only [Bool.false_eq_true, if_false, if_true]
    rw [Request.foldl_askChild _ arguments.children .empty _ rfl, asked, ht, ← Names.foldl_insert_empty,
      ← Names.foldl_insert_empty]
    rfl

theorem asked_eq_of_request? {request : Request} (h : arguments.request? = some request) :
    arguments.asked = request := by
  have asked : ¬ arguments.Raw := fun raw => by
    rw [request?_of_raw raw] at h
    cases h
  exact Option.some_inj.1 ((request?_of_not_raw asked).symm.trans h)

end Arguments

/-! ## Reports -/

section Reports

variable {α : Type} {text : α → String} {items front behind : List (Except Failure α)}

/-- Whether an item ends the search. -/
def isFatal : Except Failure α → Bool
  | .ok _ => false
  | .error failure => failure.endsStream

/-- What is found in front of the first failure that ends the search; items that cannot be read are
left out. -/
def delivered (items : List (Except Failure α)) : List α :=
  (items.takeWhile (!isFatal ·)).filterMap Except.toOption

/-- A run that finds the items: a line for each that is delivered, and the failure that ends the search,
if there is one, as its complaint. -/
structure Delivers (text : α → String) (items : List (Except Failure α)) (outcome : Outcome) : Prop where
  written : outcome.written = some (String.join ((delivered items).map fun item => text item ++ "\n"))
  complete : (∀ item ∈ items, isFatal item = false) → outcome.complaint = none ∧ outcome.exitCode = 0
  broken : ∀ front failure behind, items = front ++ .error failure :: behind →
    (∀ item ∈ front, isFatal item = false) → failure.endsStream = true →
      outcome.complaint = some (.extractionFailed failure) ∧ outcome.exitCode = 1

/-- Either the search goes on behind every item, or there is a first failure that ends it. -/
theorem exists_fatal : ∀ items : List (Except Failure α), (∀ item ∈ items, isFatal item = false) ∨
    ∃ front failure behind, items = front ++ .error failure :: behind ∧
      (∀ item ∈ front, isFatal item = false) ∧ failure.endsStream = true
  | [] => .inl (List.forall_mem_nil _)
  | item :: items => by
    cases fatal : isFatal item with
    | true =>
      obtain failure | _ := item
      · exact .inr ⟨[], failure, items, rfl, List.forall_mem_nil _, fatal⟩
      · cases fatal
    | false =>
      rcases exists_fatal items with goesOn | ⟨front, failure, behind, rfl, goesOn, ends⟩
      · exact .inl (List.forall_mem_cons.2 ⟨fatal, goesOn⟩)
      · exact .inr ⟨item :: front, failure, behind, rfl, List.forall_mem_cons.2 ⟨fatal, goesOn⟩, ends⟩

theorem delivered_cons_of_goesOn {item : Except Failure α} (h : isFatal item = false) :
    delivered (item :: items) = item.toOption.toList ++ delivered items := by
  rw [delivered, List.takeWhile_cons_of_pos (by rw [h]; rfl)]
  cases item <;> rfl

/-- Behind items that go on, the texts of the others follow, and the failure is theirs. -/
theorem textsOf_append : ∀ {front : List (Except Failure α)}, (∀ item ∈ front, isFatal item = false) →
    textsOf text (front ++ behind) =
      ((delivered front).map text ++ (textsOf text behind).1, (textsOf text behind).2)
  | [], _ => rfl
  | item :: front, h => by
    obtain ⟨goesOn, h⟩ := List.forall_mem_cons.1 h
    have later := textsOf_append h
    rw [List.cons_append, delivered_cons_of_goesOn goesOn, List.map_append, List.append_assoc]
    cases item with
    | ok item => rw [textsOf, later]; rfl
    | error failure =>
      have unread : failure.endsStream = false := goesOn
      rw [textsOf, unread, if_neg Bool.false_ne_true, later]
      rfl

theorem delivered_append : ∀ {front : List (Except Failure α)}, (∀ item ∈ front, isFatal item = false) →
    delivered (front ++ behind) = delivered front ++ delivered behind
  | [], _ => rfl
  | item :: front, h => by
    obtain ⟨goesOn, h⟩ := List.forall_mem_cons.1 h
    rw [List.cons_append, delivered_cons_of_goesOn goesOn, delivered_cons_of_goesOn goesOn, delivered_append h,
      List.append_assoc]

theorem textsOf_of_goesOn (h : ∀ item ∈ items, isFatal item = false) :
    textsOf text items = ((delivered items).map text, none) := by
  have all : textsOf text (items ++ []) = ((delivered items).map text ++ [], none) := textsOf_append h
  rwa [List.append_nil, List.append_nil] at all

/-- The first failure that ends the search is the one that the run fails with. -/
theorem textsOf_of_fatal {failure : Failure} (h : ∀ item ∈ front, isFatal item = false)
    (ends : failure.endsStream = true) : textsOf text (front ++ .error failure :: behind) =
      ((delivered (front ++ .error failure :: behind)).map text, some failure) := by
  have none : delivered (.error failure :: behind) = [] := by
    rw [delivered, List.takeWhile_cons_of_neg (by rw [isFatal, ends]; decide), List.filterMap_nil]
  rw [textsOf_append h, delivered_append h, none, List.append_nil, textsOf, if_pos ends, List.append_nil]

theorem report_delivers (text : α → String) (items : List (Except Failure α)) :
    Delivers text items (report (textsOf text items)) := by
  refine ⟨?_, fun goesOn => ?_, fun front failure behind parted goesOn ends => ?_⟩
  · have written : (textsOf text items).1 = (delivered items).map text := by
      rcases exists_fatal items with goesOn | ⟨front, failure, behind, rfl, goesOn, ends⟩
      · rw [textsOf_of_goesOn goesOn]
      · rw [textsOf_of_fatal goesOn ends]
    rw [report]
    dsimp only
    rw [written, lines, List.map_map]
    rfl
  · rw [report, textsOf_of_goesOn goesOn]
    exact ⟨rfl, rfl⟩
  · rw [report, parted, textsOf_of_fatal goesOn ends]
    exact ⟨rfl, rfl⟩

end Reports

section Extracted

variable {selector : Selector} {limits : Limits} {input : Markup.Cursor}

end Extracted

/-! ## Runs -/

/-- The input of a run, if it can be opened. -/
def Surroundings.input? (surroundings : Surroundings) (arguments : Arguments) : Option Markup.Cursor :=
  match arguments.input with
  | none => some surroundings.standardInput
  | some path => surroundings.source? path

/-- What a run reads of its input: nothing, if its output takes the place of the input. -/
def Arguments.read (arguments : Arguments) (input : Markup.Cursor) : Markup.Cursor :=
  if arguments.input.isSome && arguments.input == arguments.output then .ofBytes [] else input

variable {surroundings : Surroundings} {arguments : Arguments} {input : Markup.Cursor}

theorem run_eq (opens : surroundings.input? arguments = some input)
    (creates : ∀ path ∈ arguments.output, surroundings.canCreate path = true) :
    run surroundings arguments = runOver arguments (arguments.read input) := by
  have created : arguments.output.filter (!surroundings.canCreate ·) = none := by
    rw [Option.filter_eq_none_iff]
    intro path hp
    rw [creates path hp]
    decide
  rw [Surroundings.input?] at opens
  rw [run, created]
  cases hi : arguments.input with
  | none =>
    rw [hi] at opens
    cases opens
    simp only [Arguments.read, hi]
  | some path =>
    rw [hi] at opens
    simp only [opens, Arguments.read, hi]

section Over

variable {σ : Type} [EventStream σ] {source : σ}

theorem runOver_asked (asked : ¬ arguments.Raw) {survey : Survey}
    (h : Survey.compile arguments.selector arguments.asked = .ok survey) : runOver arguments source =
      report (textsOf (fun reading => String.ofList reading.json)
        ((survey.withLimits arguments.limits).begin source).items) := by
  rw [runOver, Arguments.request?_of_not_raw asked]
  dsimp only
  rw [h]

end Over

end Command

end SubtreeHarvest
