/-
Relative selectors: expressions that are evaluated at a place in a document. A path is a chain of
steps, each of which starts from what the expression before it selects.

Axes and node tests: the directions in which a relative selector steps from a place, nearest
places first, and what may stand at the places it keeps. A qualifier is declared nowhere for a
selector, so a name with one matches nothing, and a name without one matches only names in no
namespace.
-/
import SubtreeHarvest.Document.Place

namespace SubtreeHarvest.Path

open Document

/-! ## Axes -/

inductive Axis
  | ancestor
  | ancestorOrSelf
  | attributes
  | child
  | descendant
  | descendantOrSelf
  | following
  | followingSibling
  | namespaces
  | parent
  | preceding
  | precedingSibling
  | self
  deriving DecidableEq

namespace Axis

/-- The axes by the names that selectors give them. -/
def named : List (String × Axis) :=
  [("ancestor", .ancestor), ("ancestor-or-self", .ancestorOrSelf), ("attribute", .attributes),
   ("child", .child), ("descendant", .descendant), ("descendant-or-self", .descendantOrSelf),
   ("following", .following), ("following-sibling", .followingSibling),
   ("namespace", .namespaces), ("parent", .parent), ("preceding", .preceding),
   ("preceding-sibling", .precedingSibling), ("self", .self)]

/-- The places that an axis leads to, nearest first. -/
def places (document : Document) (place : Place) : Axis → List Place
  | .ancestor => ancestorsOf place
  | .ancestorOrSelf => place :: ancestorsOf place
  | .attributes => document.attributesOf place
  | .child => document.childrenOf place
  | .descendant => document.descendantsOf place
  | .descendantOrSelf => document.subtreeOf place
  | .following => document.following place
  | .followingSibling => document.siblingsBehind place
  | .namespaces => document.qualifiersOf place
  | .parent => (ancestorsOf place).take 1
  | .preceding => document.preceding place
  | .precedingSibling => siblingsBefore place
  | .self => [place]

/-- Whether a node is of the kind that names on an axis stand for. -/
def isPrincipal (axis : Axis) : Node → Bool
  | .attr _ _ => axis = .attributes
  | .qualifier _ _ => axis = .namespaces
  | node => axis ≠ .attributes && axis ≠ .namespaces && node.isElement

end Axis

/-! ## Node tests -/

inductive NodeTest
  | anyName
  | name (name : QualifiedName)
  | anyNode
  | text
  | comment
  /-- An instruction, with the given target if there is one. -/
  | instruction (target : Option String)

namespace NodeTest

/-- Whether a node that an axis leads to passes a test. -/
def holds (axis : Axis) (node : Node) : NodeTest → Bool
  | .anyName => axis.isPrincipal node
  | .name wanted =>
    axis.isPrincipal node && wanted.qualifier.isNone &&
      match node.name? with
      | some found => found.space.isNone && found.localName == wanted.localName
      | none => false
  | .anyNode => true
  | .text => match node with
    | .tree (.text _) => true
    | _ => false
  | .comment => match node with
    | .tree (.comment _) => true
    | _ => false
  | .instruction wanted => match node with
    | .tree (.instruction target _) => wanted.all (· == target)
    | _ => false

/-- The places that an axis leads to and that pass a test, nearest first. -/
def select (document : Document) (axis : Axis) (test : NodeTest) (place : Place) : List Place :=
  (axis.places document place).filter fun candidate =>
    match document.node? candidate with
    | some node => test.holds axis node
    | none => false

end NodeTest

/-! ## Expressions -/

inductive Operator
  | or
  | and
  | equal
  | unequal
  | less
  | lessEqual
  | greater
  | greaterEqual
  | plus
  | minus
  | times
  | divide
  | remainder
  | union
  deriving DecidableEq

inductive Expression
  | number (value : Float)
  | literal (text : String)
  | variable (name : QualifiedName)
  /-- The place where the selector is evaluated. -/
  | here
  /-- The document. -/
  | root
  | call (function : QualifiedName) (arguments : List Expression)
  | negate (operand : Expression)
  | binary (operator : Operator) (left right : Expression)
  /-- The places that an axis leads to from those that `start` selects. -/
  | step (start : Expression) (axis : Axis) (test : NodeTest) (predicates : List Expression)
  /-- The places of those that `start` selects at which a predicate holds. -/
  | filter (start predicate : Expression)

end SubtreeHarvest.Path
