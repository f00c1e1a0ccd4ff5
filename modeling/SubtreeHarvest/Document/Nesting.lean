/-
Nesting: the tree of a document from its tokens, with the qualifiers of namespaces looked up where
they stand. A document has one element at its top, every start tag has its end tag, and a qualifier
must be declared on the element that uses it or on one around it. A document type stands in front
of the element and is never the first thing in a document.
-/
import SubtreeHarvest.Document.Token
import SubtreeHarvest.Document.Tree
import SubtreeHarvest.Failure

namespace SubtreeHarvest.Document

open Text

/-! ## Tags -/

/-- The attribute that gives an address to elements without a qualifier, and the qualifier of the
attributes that declare qualifiers. -/
def declarator : String :=
  "xmlns"

def declaresQualifier (field : QualifiedName × String) : Bool :=
  field.1.qualifier == some declarator

/-- Whether an attribute gives an address to elements without a qualifier. Its own qualifier, if it
has one, is not looked at. -/
def declaresCommon (field : QualifiedName × String) : Bool :=
  field.1.localName == declarator && !declaresQualifier field

/-- The attributes of a start tag by what they are for, each kind in the order of their names. -/
structure TagFields where
  declared : Declarations
  /-- The address given to elements without a qualifier. -/
  common : Option String
  attributes : List (QualifiedName × String)

/-- What the attributes of a start tag are for. No two may be spelled alike, no qualifier may be
declared for nothing, and elements without a qualifier are given an address at most once. -/
def TagFields.ofList? (fields : List (QualifiedName × String)) : Option TagFields :=
  let sorted := fields.mergeSort fun a b => (compare a.1 b.1).isLE
  let (qualifiers, others) := sorted.partition declaresQualifier
  let (commons, attributes) := others.partition declaresCommon
  if (fields.map Prod.fst).Nodup ∧ commons.length ≤ 1 ∧ qualifiers.all (!·.2.isEmpty) then
    some ⟨qualifiers.map fun (name, address) => (name.localName, address),
      commons.head?.map Prod.snd, attributes⟩
  else none

/-! ## Scopes -/

/-- What holds at a place in a document. -/
structure Scope where
  /-- The qualifiers known, the nearest declarations first. -/
  known : Declarations
  /-- The namespace of elements without a qualifier. -/
  common : Option String

namespace Scope

def outside : Scope :=
  ⟨[], none⟩

/-- The namespace of the element with the given tag, if it has no qualifier. -/
def ownCommon (outer : Scope) (fields : TagFields) : Option String :=
  match fields.common with
  | some address => if address.isEmpty then none else some address
  | none => outer.common

/-- What the element with the given tag declares for the elements in it. The element at the top
declares the common qualifier for its own address, even where its tag gives another one. -/
def declared (outer : Scope) (fields : TagFields) : Declarations :=
  if outer.known.isEmpty then Declarations.declare commonQualifier fields.declared
  else fields.declared

/-- The scope in the element with the given tag. Only an element without a qualifier passes on the
address it gives to such elements, and a namespace that it gives up holds again within it. -/
def within (outer : Scope) (spelled : QualifiedName) (fields : TagFields) : Scope where
  known := outer.declared fields ++ outer.known
  common :=
    if spelled.qualifier.isSome then outer.common else (outer.ownCommon fields).or outer.common

end Scope

/-- A name looked up among qualifiers; without a qualifier it is in the namespace `common`. -/
def QualifiedName.lookUp? (name : QualifiedName) (known : Declarations) (common : Option String) :
    Option Name :=
  match name.qualifier with
  | none => some ⟨common, name.localName, none⟩
  | some qualifier => (known.lookup qualifier).map fun address =>
      ⟨some address, name.localName, some qualifier⟩

/-! ## Elements -/

/-- An element that is open. -/
structure Frame where
  spelled : QualifiedName
  name : Name
  attributes : List (Name × String)
  declared : Declarations
  scope : Scope
  /-- What it holds so far, the latest first. -/
  children : List Tree

namespace Frame

def tree (frame : Frame) : Tree :=
  .element frame.name frame.attributes frame.declared frame.children.reverse

/-- Attributes with one more at the end, in place of one whose name means the same. -/
def setAttribute (attributes : List (Name × String)) (other : Name × String) :
    List (Name × String) :=
  attributes.filter (fun (name, _) => !name.same other.1) ++ [other]

/-- The element that a start tag opens. The tag's own declarations come first for its name and its
attributes, so the name of the element at the top has no others. -/
def begin? (outer : Scope) (spelled : QualifiedName) (fields : List (QualifiedName × String)) :
    Option Frame := do
  let fields ← TagFields.ofList? fields
  let name ← spelled.lookUp? (fields.declared ++ outer.known) (outer.ownCommon fields)
  let scope := outer.within spelled fields
  let attributes ← fields.attributes.mapM fun (name, value) =>
    (name.lookUp? (fields.declared ++ scope.known) none).map (·, value)
  return ⟨spelled, name, attributes.foldl setAttribute [], outer.declared fields, scope, []⟩

end Frame

/-! ## Documents -/

/-- A document read so far. -/
structure Nesting where
  /-- The trees at the top, the latest first. -/
  top : List Tree
  /-- The elements that are open, innermost first. -/
  frames : List Frame
  /-- Whether anything was read. -/
  started : Bool

namespace Nesting

def hasRoot (nesting : Nesting) : Bool :=
  nesting.top.any Tree.isElement

def scope (nesting : Nesting) : Scope :=
  match nesting.frames with
  | [] => .outside
  | frame :: _ => frame.scope

/-- The document with one more tree where reading stands. -/
def add (nesting : Nesting) (tree : Tree) : Nesting :=
  match nesting.frames with
  | [] => ⟨tree :: nesting.top, [], true⟩
  | frame :: around =>
    { nesting with frames := { frame with children := tree :: frame.children } :: around }

/-- The document with one more text, which must stand in an element. -/
def addText? (nesting : Nesting) (content : String) : Option Nesting :=
  if nesting.frames.isEmpty then none else some (nesting.add (.text content))

/-- The document read on by one token. -/
def step? (nesting : Nesting) : Token → Option Nesting
  | .openTag name fields closed =>
    if nesting.frames.isEmpty && nesting.hasRoot then none
    else do
      let frame ← Frame.begin? nesting.scope name fields
      if closed then some (nesting.add frame.tree)
      else some ⟨nesting.top, frame :: nesting.frames, true⟩
  | .closeTag name =>
    match nesting.frames with
    | [] => none
    | frame :: around =>
      if frame.spelled = name then some ({ nesting with frames := around }.add frame.tree)
      else none
  | .characters content =>
    if nesting.frames.isEmpty && content.toList.all isSpace then
      some { nesting with started := true }
    else nesting.addText? content
  | .reference character => nesting.addText? (String.singleton character)
  | .cdata content => nesting.addText? content
  | .comment content => some (nesting.add (.comment content))
  | .instruction target content => some (nesting.add (.instruction target content))
  | .doctype =>
    if nesting.frames.isEmpty && nesting.started && !nesting.hasRoot then some nesting else none

/-- The document, once it is complete. -/
def document? (nesting : Nesting) : Option Document :=
  if nesting.frames.isEmpty && nesting.hasRoot then some ⟨nesting.top.reverse⟩ else none

end Nesting

/-- The document that a text writes. A declaration may stand in front. -/
def ofText? (text : String) : Option Document := do
  let (started, body) := match behindDeclaration? text.toList with
    | some behind => (true, behind)
    | none => (false, text.toList)
  let tokens ← tokens? body
  let nesting ← tokens.foldlM Nesting.step? ⟨[], [], started⟩
  nesting.document?

/-- The document that a text writes, or a failure. -/
def parse (text : String) : Except Failure Document :=
  match ofText? text with
  | some document => .ok document
  | none => .error (.saying .unreadableFragment
      ("cannot reparse fragment: " ++ Failure.unexplained))

end SubtreeHarvest.Document
