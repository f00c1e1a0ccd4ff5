/-
Places in a document: the document itself, its trees, and the attributes and qualifiers of its
elements. A place is the child numbers that lead to a tree from the top, and what of the tree is
meant. Places have an order: a tree stands before what it holds, with its attributes between, the
last of them first, and all of it before the trees behind it. Qualifiers stand behind everything
else.
-/
import SubtreeHarvest.Document.Tree

namespace SubtreeHarvest.Document

/-- What of a tree is meant. -/
inductive Facet
  | whole
  | attributeAt (index : Nat)
  | qualifierAt (index : Nat)
  deriving DecidableEq

namespace Facet

def isQualifier : Facet → Bool
  | .qualifierAt _ => true
  | _ => false

/-- The order of what is meant of one tree. -/
def order : Facet → Facet → Ordering
  | .whole, .whole => .eq
  | .whole, _ => .lt
  | _, .whole => .gt
  | .attributeAt i, .attributeAt j => compare j i
  | .attributeAt _, .qualifierAt _ => .lt
  | .qualifierAt _, .attributeAt _ => .gt
  | .qualifierAt i, .qualifierAt j => compare i j

end Facet

structure Place where
  /-- Child numbers from the top; none for the document itself. -/
  path : List Nat
  facet : Facet
  deriving DecidableEq

/-- What stands at a place. -/
inductive Node
  | document (trees : List Tree)
  | tree (tree : Tree)
  | qualifier (name address : String)
  | attr (name : Name) (value : String)

namespace Node

def isElement : Node → Bool
  | .tree t => t.isElement
  | _ => false

/-- The name of a node that has one. -/
def name? : Node → Option Name
  | .tree (.element name _ _ _) => some name
  | .tree (.instruction target _) => some ⟨none, target, none⟩
  | .qualifier name _ => some ⟨none, name, none⟩
  | .attr name _ => some name
  | _ => none

/-- The string that a node stands for. -/
def string : Node → String
  | .document trees => Tree.forestTexts trees
  | .tree t => t.string
  | .qualifier _ address => address
  | .attr _ value => value

end Node

/-- The tree at the end of a path. -/
def tree? (document : Document) (path : List Nat) : Option Tree :=
  Tree.descend? document.trees path

/-- The trees right below the end of a path. -/
def forest (document : Document) : List Nat → List Tree
  | [] => document.trees
  | path => ((document.tree? path).map Tree.children).getD []

def attributesAt (document : Document) (path : List Nat) : List (Name × String) :=
  ((document.tree? path).map Tree.attributes).getD []

/-- The paths above a path, the longest first. -/
def pathsAbove (path : List Nat) : List (List Nat) :=
  (List.range path.length).reverse.map path.take

/-- What the tree at a path and those around it declare, the innermost first. -/
def declaredAround (document : Document) (path : List Nat) : List Declarations :=
  (path :: pathsAbove path).map fun path => ((document.tree? path).map Tree.declared).getD []

/-- The qualifiers known in the element at a path. -/
def qualifiersAt (document : Document) (path : List Nat) : Declarations :=
  if (document.tree? path).any Tree.isElement then
    Declarations.inForce (document.declaredAround path)
  else []

def node? (document : Document) (place : Place) : Option Node :=
  match place.facet with
  | .whole =>
    if place.path.isEmpty then some (.document document.trees)
    else (document.tree? place.path).map .tree
  | .qualifierAt i => (document.qualifiersAt place.path)[i]?.map fun (name, address) =>
      .qualifier name address
  | .attributeAt i => (document.attributesAt place.path)[i]?.map fun (name, value) =>
      .attr name value

/-- How a name at a place is written. -/
def writtenAt (document : Document) (place : Place) (name : Name) : String :=
  name.written (document.declaredAround place.path)

/-- The string that stands at a place. -/
def stringAt (document : Document) (place : Place) : String :=
  match document.node? place with
  | some node => node.string
  | none => ""

namespace Place

/-- The document itself. -/
def top : Place :=
  ⟨[], .whole⟩

/-- The order of places in a document. -/
def order (a b : Place) : Ordering :=
  (compare a.facet.isQualifier b.facet.isQualifier).then
    ((compare a.path b.path).then (a.facet.order b.facet))

/-- Places in the order of the document, each once. -/
def inOrder (places : List Place) : List Place :=
  (places.mergeSort fun a b => (a.order b).isLE).eraseReps

/-- The places of the trees with some numbers below a path. -/
def below (path : List Nat) (numbers : List Nat) : List Place :=
  numbers.map fun i => ⟨path ++ [i], .whole⟩

end Place

/-! ## Getting about -/

variable (document : Document) (place : Place)

def childrenOf : List Place :=
  if place.facet = .whole then
    Place.below place.path (List.range (document.forest place.path).length)
  else []

/-- The places above a place, the nearest first. -/
def ancestorsOf : List Place :=
  let paths := match place.facet with
    | .whole => pathsAbove place.path
    | _ => place.path :: pathsAbove place.path
  paths.map (⟨·, .whole⟩)

def attributesOf : List Place :=
  if place.facet = .whole then
    (List.range (document.attributesAt place.path).length).map fun i =>
      ⟨place.path, .attributeAt i⟩
  else []

def qualifiersOf : List Place :=
  if place.facet = .whole then
    (List.range (document.qualifiersAt place.path).length).map fun i =>
      ⟨place.path, .qualifierAt i⟩
  else []

/-- The siblings behind a place. -/
def siblingsBehind : List Place :=
  match place.facet, place.path.getLast? with
  | .whole, some i =>
    let above := place.path.dropLast
    Place.below above ((List.range (document.forest above).length).drop (i + 1))
  | _, _ => []

/-- The siblings before a place, the nearest first. -/
def siblingsBefore : List Place :=
  match place.facet, place.path.getLast? with
  | .whole, some i => Place.below place.path.dropLast (List.range i).reverse
  | _, _ => []

mutual

/-- The places in a tree at a path, in order, its own first. -/
def placesIn (path : List Nat) : Tree → List Place
  | .element _ _ _ children => ⟨path, .whole⟩ :: placesAmong path 0 children
  | _ => [⟨path, .whole⟩]

/-- The places in trees that stand below a path from number `i` on. -/
def placesAmong (path : List Nat) (i : Nat) : List Tree → List Place
  | [] => []
  | tree :: trees => placesIn (path ++ [i]) tree ++ placesAmong path (i + 1) trees

end

/-- The places below a place, in order. -/
def descendantsOf : List Place :=
  if place.facet = .whole then placesAmong place.path 0 (document.forest place.path) else []

/-- A place and the places below it, in order. -/
def subtreeOf : List Place :=
  place :: document.descendantsOf place

/-- The places behind a place that are not below it, in order. -/
def following : List Place :=
  ((place :: ancestorsOf place).flatMap document.siblingsBehind).flatMap document.subtreeOf

/-- The places before a place that are not above it, the nearest first. -/
def preceding : List Place :=
  ((place :: ancestorsOf place).flatMap siblingsBefore).flatMap fun sibling =>
    (document.subtreeOf sibling).reverse

end SubtreeHarvest.Document
