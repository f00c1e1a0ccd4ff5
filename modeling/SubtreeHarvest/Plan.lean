/-
Plans: requests whose relative selectors are compiled, ready to read any number of documents.
Compiling refuses a request with a malformed selector; of several the first in the order of the
request counts. Reading can still fail on a text that is no document, or on a selector that has no
value where it is evaluated.
-/
import SubtreeHarvest.Document.Nesting
import SubtreeHarvest.Path.Evaluation
import SubtreeHarvest.Path.Grammar
import SubtreeHarvest.Reading
import SubtreeHarvest.Request

namespace SubtreeHarvest

/-- Relative selectors with the expressions they write. -/
abbrev CompiledSelectors := Table Path.Expression

structure Plan where
  request : Request
  compiled : CompiledSelectors

namespace Plan

/-- Compiles one more selector, unless it is compiled already. -/
def compileSelector (compiled : CompiledSelectors) (selector : String) :
    Except Failure CompiledSelectors :=
  match compiled.get? selector with
  | some _ => .ok compiled
  | none => do
    let expression ← Path.compile selector
    return compiled.enter selector expression

def compile (request : Request) : Except Failure Plan := do
  let compiled ← request.selectors.foldlM compileSelector .empty
  return ⟨request, compiled⟩

/-! ## Reading -/

/-- The paths of the elements that a selector reaches from the element at a path. -/
def reach (compiled : CompiledSelectors) (document : Document) (path : List Nat)
    (selector : String) : Except Failure (List (List Nat)) :=
  match compiled.get? selector with
  | none => .error (.malformedExpression selector "selector was not compiled")
  | some expression =>
    match Path.selectElements document path expression with
    | .ok paths => .ok paths
    | .error _ => .error (.malformedExpression selector Failure.unexplained)

/-- The text of the tree at a path. -/
def textAt (document : Document) (path : List Nat) : String :=
  ((document.tree? path).map Document.Tree.string).getD ""

/-- The value of an attribute of the element at a path; empty when it has none. -/
def attributeAt (document : Document) (path : List Nat) (name : String) : String :=
  ((document.tree? path).map (·.attributeValue name)).getD ""

mutual

/-- What a request reads from the element at a path. -/
def readElement (compiled : CompiledSelectors) (document : Document) (path : List Nat) :
    Request → Except Failure Reading
  | ⟨wantsText, names, under⟩ => do
    let row ← readRow compiled document path under.row
    return {
      text := if wantsText then some (textAt document path) else none
      values := .ofNames names (attributeAt document path)
      under := ⟨under.names, row⟩ }

/-- What the relative selectors of a request read from the element at a path, in their order. -/
def readRow (compiled : CompiledSelectors) (document : Document) (path : List Nat) :
    {selectors : List String} → Row Request selectors → Except Failure (Row (List Reading) selectors)
  | [], .nil => .ok .nil
  | selector :: _, .cons request rest => do
    let paths ← reach compiled document path selector
    let readings ← paths.mapM fun path => readElement compiled document path request
    let others ← readRow compiled document path rest
    return .cons readings others

end

/-- What the plan reads from the element at the top of a document. -/
def readDocument (plan : Plan) (document : Document) : Except Failure Reading :=
  match document.rootIndex? with
  | some i => readElement plan.compiled document [i] plan.request
  | none => .error (.saying .unreadableFragment "fragment has no root element")

/-- What the plan reads from a text. -/
def read (plan : Plan) (text : String) : Except Failure Reading := do
  let document ← Document.parse text
  plan.readDocument document

end Plan

end SubtreeHarvest
