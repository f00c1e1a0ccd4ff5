/-
The matcher: what an extraction knows between two events. While it searches, a stack of frames
holds the chain in effect inside each element it has descended into, with the chain for the top of
the document below them all. An element that is skipped or captured is left behind only with the
end tag that closes it; the tags in between are counted.

A fragment is the text of an element and all it holds, written tag by tag. Attributes keep their order
and stand in single quotes, contents lose the white space at their ends, and an element without content
still gets an end tag.
-/
import SubtreeHarvest.Failure
import SubtreeHarvest.Markup.Escape
import SubtreeHarvest.Selector.Compile

namespace SubtreeHarvest

open Text Markup

/-! ## Fragments -/

structure Fragment where
  text : String
  deriving DecidableEq

def Attribute.written (a : Attribute) : String :=
  " " ++ a.name ++ "='" ++ String.ofList (a.value.toList.flatMap valueEscape) ++ "'"

/-- An event as a fragment writes it. -/
def Event.written : Event → String
  | .startTag tag => "<" ++ tag.name ++ String.join (tag.attributes.map Attribute.written) ++ ">"
  | .endTag name => "</" ++ name ++ ">"
  | .text content => String.ofList ((trimmed content.toList).flatMap textEscape)
  | .cdata content => "<![CDATA[" ++ trim content ++ "]]>"

/-! ## The matcher -/

/-- Limits on an extraction; zero is no limit. -/
structure Limits where
  /-- How many elements may be open at once that are descended into. -/
  maxDepth : Nat
  /-- How many bytes a fragment may take. -/
  maxSize : Nat
  deriving DecidableEq

def Limits.none : Limits :=
  ⟨0, 0⟩

/-- What the matcher does with the events to come. -/
inductive Activity
  | searching
  /-- Inside `depth` more elements than the one that is skipped. -/
  | skipping (depth : Nat)
  /-- Inside `depth` more elements than the one that is captured, with what is written of it. -/
  | capturing (depth : Nat) (written : String)
  deriving DecidableEq

structure Matcher where
  /-- The chains in effect, innermost first. -/
  frames : List Chain
  activity : Activity
  deriving DecidableEq

/-- What one event comes to. -/
inductive Outcome
  | goesOn (matcher : Matcher)
  | fragment (fragment : Fragment) (matcher : Matcher)
  /-- An end tag closes the top of the document. -/
  | leaves (matcher : Matcher)
  /-- A limit is exceeded. -/
  | exceeds (kind : FailureKind)

namespace Matcher

def ofSelector (selector : Selector) : Matcher :=
  ⟨[selector.chain], .searching⟩

/-- How many open elements are descended into. -/
def depth (m : Matcher) : Nat :=
  m.frames.length - 1

/-- A start tag met while searching. -/
def enter (limits : Limits) (m : Matcher) (tag : Tag) : Outcome :=
  match m.frames with
  | [] => .leaves m
  | chain :: _ =>
    match chain.offer tag with
    | .capture => .goesOn { m with activity := .capturing 0 (Event.startTag tag).written }
    | .skip => .goesOn { m with activity := .skipping 0 }
    | .descend next =>
      if 0 < limits.maxDepth ∧ limits.maxDepth ≤ m.depth then
        .exceeds (.depthExceeded limits.maxDepth)
      else .goesOn { m with frames := next :: m.frames }

/-- An end tag met while searching. -/
def leave (m : Matcher) : Outcome :=
  match m.frames.tail with
  | [] => .leaves { m with frames := [] }
  | frames => .goesOn { m with frames }

/-- More of a captured element is written, and more of it is to come. -/
def grow (limits : Limits) (m : Matcher) (depth : Nat) (written : String) : Outcome :=
  if 0 < limits.maxSize ∧ limits.maxSize < written.utf8ByteSize then
    .exceeds (.sizeExceeded limits.maxSize)
  else .goesOn { m with activity := .capturing depth written }

/-- One event. -/
def consume (limits : Limits) (m : Matcher) (event : Event) : Outcome :=
  match m.activity, event with
  | .searching, .startTag tag => m.enter limits tag
  | .searching, .endTag _ => m.leave
  | .searching, _ => .goesOn m
  | .skipping depth, .startTag _ => .goesOn { m with activity := .skipping (depth + 1) }
  | .skipping 0, .endTag _ => .goesOn { m with activity := .searching }
  | .skipping (depth + 1), .endTag _ => .goesOn { m with activity := .skipping depth }
  | .skipping _, _ => .goesOn m
  | .capturing depth written, .startTag tag =>
    m.grow limits (depth + 1) (written ++ (Event.startTag tag).written)
  | .capturing 0 written, .endTag name =>
    .fragment ⟨written ++ (Event.endTag name).written⟩ { m with activity := .searching }
  | .capturing (depth + 1) written, .endTag name =>
    m.grow limits depth (written ++ (Event.endTag name).written)
  | .capturing depth written, content => m.grow limits depth (written ++ content.written)

/-- Where the matcher is when the events end too early. -/
def truncation? (m : Matcher) : Option String :=
  match m.activity with
  | .capturing _ _ => some "input ended inside a captured element"
  | .skipping _ => some "input ended inside a skipped element"
  | .searching => if 0 < m.depth then some "input ended inside an open element" else none

end Matcher

end SubtreeHarvest
