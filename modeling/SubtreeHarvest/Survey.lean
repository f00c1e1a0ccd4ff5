/-
Surveys: a selector for the elements to look for and a plan for what to read from each. What a
survey finds in a source comes one item at a time. A fragment that cannot be read takes up one item
and nothing else; any other failure is the last item.
-/
import SubtreeHarvest.Extract.Extraction
import SubtreeHarvest.Plan
import SubtreeHarvest.Markup.Cursor

namespace SubtreeHarvest

structure Survey where
  selector : Selector
  plan : Plan
  limits : Limits

/-- What a survey finds in a source, from where it has come to. -/
structure Findings (σ : Type) where
  extraction : Extraction σ
  plan : Plan
  finished : Bool

namespace Survey

/-- A survey without limits. The selector is compiled before the request. -/
def compile (expression : String) (request : Request) : Except Failure Survey := do
  let selector ← Selector.compile expression
  let plan ← Plan.compile request
  return ⟨selector, plan, .none⟩

def withLimits (survey : Survey) (limits : Limits) : Survey :=
  { survey with limits }

def request (survey : Survey) : Request :=
  survey.plan.request

/-- The findings from the beginning of a source on. -/
def begin {σ : Type} (survey : Survey) (source : σ) : Findings σ :=
  ⟨.begin survey.selector survey.limits source, survey.plan, false⟩

end Survey

namespace Findings

variable {σ : Type} [EventStream σ]

/-- Whether an item is the last. -/
def isLast : Except Failure Reading → Bool
  | .ok _ => false
  | .error failure => failure.endsStream

/-- The next item, if there is one. -/
def next (found : Findings σ) : Option (Except Failure Reading) × Findings σ :=
  if found.finished then (none, found)
  else
    match found.extraction.next with
    | (none, extraction) => (none, { found with extraction })
    | (some (.error failure), extraction) =>
      (some (.error failure), { found with extraction, finished := true })
    | (some (.ok fragment), extraction) =>
      let item := found.plan.read fragment.text
      (some item, { found with extraction, finished := isLast item })

/-- Every item leaves fewer to come. -/
theorem bound_of_next {found after : Findings σ} {item : Except Failure Reading}
    (hn : found.next = (some item, after)) : after.extraction.bound < found.extraction.bound := by
  unfold next at hn
  split at hn
  · cases hn
  · split at hn
    · cases hn
    · rename_i he; cases hn; exact Extraction.bound_next he
    · rename_i he; cases hn; exact Extraction.bound_next he

/-- All the items still to come. -/
def items (found : Findings σ) : List (Except Failure Reading) :=
  match _h : found.next with
  | (none, _) => []
  | (some item, after) => item :: items after
termination_by found.extraction.bound
decreasing_by exact bound_of_next _h

end Findings

/-- The fragments of a text that an expression selects, or the first failure. -/
def extractText (text expression : String) (limits : Limits) : Except Failure (List Fragment) := do
  let selector ← Selector.compile expression
  allOrFirstFailure (selector.extract limits (Markup.Cursor.ofString text))

/-- The readings of all elements of a text that an expression selects, or the first failure. -/
def surveyText (text expression : String) (request : Request) :
    Except Failure (List Reading) := do
  let survey ← Survey.compile expression request
  allOrFirstFailure (survey.begin (Markup.Cursor.ofString text)).items

end SubtreeHarvest
