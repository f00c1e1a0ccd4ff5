/-
Documents as trees. Elements hold texts, comments, instructions and other elements; each run of
characters, each reference and each character data section is a text of its own. The string of a
tree joins the texts in it.
-/
import SubtreeHarvest.Document.Name

namespace SubtreeHarvest

namespace Document

inductive Tree
  /-- An element, with the qualifiers that it declares. -/
  | element (name : Name) (attributes : List (Name × String)) (declared : Declarations)
      (children : List Tree)
  | text (content : String)
  | comment (content : String)
  | instruction (target content : String)

namespace Tree

def isElement : Tree → Bool
  | .element .. => true
  | _ => false

def children : Tree → List Tree
  | .element _ _ _ children => children
  | _ => []

def attributes : Tree → List (Name × String)
  | .element _ attributes _ _ => attributes
  | _ => []

def declared : Tree → Declarations
  | .element _ _ declared _ => declared
  | _ => []

mutual

/-- The texts in a tree, joined; comments and instructions add nothing. -/
def texts : Tree → String
  | .element _ _ _ children => forestTexts children
  | .text content => content
  | .comment _ | .instruction _ _ => ""

/-- The texts in some trees, joined. -/
def forestTexts : List Tree → String
  | [] => ""
  | tree :: trees => texts tree ++ forestTexts trees

end

/-- The string that a tree stands for. -/
def string : Tree → String
  | .comment content => content
  | .instruction _ content => content
  | tree => texts tree

/-- The value of an attribute that is in no namespace; empty when there is none. -/
def attributeValue (tree : Tree) (name : String) : String :=
  match tree.attributes.find? fun (n, _) => n.space.isNone && n.localName == name with
  | some (_, value) => value
  | none => ""

/-- The tree that child numbers lead to from some trees. -/
def descend? : List Tree → List Nat → Option Tree
  | _, [] => none
  | trees, [i] => trees[i]?
  | trees, i :: path =>
    match trees[i]? with
    | some tree => descend? tree.children path
    | none => none

end Tree

end Document

/-- A document: the trees at its top, one of which is an element. -/
structure Document where
  trees : List Document.Tree

namespace Document

/-- The number of the element at the top of a document. -/
def rootIndex? (document : Document) : Option Nat :=
  document.trees.findIdx? Tree.isElement

end Document

end SubtreeHarvest
