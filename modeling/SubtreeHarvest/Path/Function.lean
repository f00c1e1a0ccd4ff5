/-
Values of expressions, and what each kind of value counts as where another kind is wanted. A set of
places counts as the string at its first place; it is kept in the order of the document, without
repetition.

Functions that expressions may call. A call says where it stands: a place, the number of that place
among those looked at, and how many of those there are. What a call may not do is an error: an
unknown name, too few or too many arguments, or a value in place of a set of places.
-/
import SubtreeHarvest.Document.Place
import SubtreeHarvest.Number.Decimal
import SubtreeHarvest.Text.Cut

namespace SubtreeHarvest.Path

open Text Document

/-! ## Values -/

inductive Value
  | boolean (value : Bool)
  | number (value : Float)
  | text (value : String)
  | places (places : List Place)

namespace Value

/-- The value that is a set of places. -/
def ofPlaces (places : List Place) : Value :=
  .places (Place.inOrder places)

def toBool : Value → Bool
  | .boolean b => b
  | .number x => x != 0.0 && !x.isNaN
  | .text s => !s.isEmpty
  | .places ps => !ps.isEmpty

def toText (document : Document) : Value → String
  | .boolean b => if b then "true" else "false"
  | .number x => Number.text x
  | .text s => s
  | .places [] => ""
  | .places (first :: _) => document.stringAt first

def toNumber (document : Document) : Value → Float
  | .boolean b => if b then 1.0 else 0.0
  | .number x => x
  | value => Number.read (value.toText document)

def places? : Value → Option (List Place)
  | .places ps => some ps
  | _ => none

/-- Whether two values are equal. A set of places is equal to a number or a string when the string
at one of them is, and to a set when the two have a string in common. -/
def equal (document : Document) (left right : Value) : Bool :=
  let texts (places : List Place) := places.map document.stringAt
  match left, right with
  | .places ps, .places qs => (texts ps).any (texts qs).contains
  | .places ps, .number x | .number x, .places ps =>
    (texts ps).any fun text => Number.read text == x
  | .places ps, .text s | .text s, .places ps => (texts ps).contains s
  | .boolean _, _ | _, .boolean _ => left.toBool == right.toBool
  | .number _, _ | _, .number _ => left.toNumber document == right.toNumber document
  | .text s, .text t => s == t

end Value

/-! ## Functions -/

/-- Why an expression has no value. -/
inductive EvaluationError
  | unknownFunction (name : QualifiedName)
  | unknownVariable (name : QualifiedName)
  | argumentCount (function : String)
  | notPlaces
  deriving DecidableEq

/-- Where an expression is evaluated. -/
structure Context where
  document : Document
  place : Place
  /-- The number of the place among those looked at, counted from one. -/
  position : Nat
  size : Nat

namespace Function

abbrev Evaluated := Except EvaluationError Value

/-! ## Texts -/

/-- What stands before the first place where a text stands; nothing where it stands nowhere. -/
def textBefore (whole mark : List Char) : List Char :=
  if mark.isEmpty then []
  else match cut mark whole with
    | some (before, _) => before
    | none => []

/-- What stands behind the first place where a text stands; nothing where it stands nowhere. -/
def textBehind (whole mark : List Char) : List Char :=
  if mark.isEmpty then whole
  else match cut mark whole with
    | some (_, behind) => behind
    | none => []

def hasPart (whole mark : List Char) : Bool :=
  mark.isEmpty || (cut mark whole).isSome

/-- The characters whose numbers, counted from one, lie from `start` on within `length`. -/
def part (whole : List Char) (start length : Float) : List Char :=
  (whole.zipIdx 1).filterMap fun (c, i) =>
    let place := Float.ofNat i
    if start ≤ place && place < start + length then some c else none

/-- The words of a text, with one blank between any two. -/
def normalized (cs : List Char) : List Char :=
  [' '].intercalate ((cs.splitBy fun a b => isSpace a == isSpace b).filter fun run =>
    !run.any isSpace)

/-- Each character of `whole` that stands among `old` replaced by the one in its place among
`new`, or left out where there is none. -/
def translated (whole old new : List Char) : List Char :=
  whole.filterMap fun c =>
    match old.idxOf? c with
    | some i => new[i]?
    | none => some c

/-! ## Calls -/

/-- The sum of the numbers that stand at places. -/
def sum (document : Document) (places : List Place) : Float :=
  (places.map fun place => Number.read (document.stringAt place)).foldl (· + ·) 0.0

/-- The places that a value is. -/
def placesOf (value : Value) : Except EvaluationError (List Place) :=
  match value.places? with
  | some places => .ok places
  | none => .error .notPlaces

/-- The argument of a call, or else the place where it stands. -/
def orHere (context : Context) : List Value → Value
  | value :: _ => value
  | [] => .places [context.place]

/-- What the name of the node at the first of some places says. -/
def ofName (context : Context) (arguments : List Value) (part : Place → Name → String) :
    Evaluated := do
  let places ← placesOf (orHere context arguments)
  let text? := places.head?.bind fun place =>
    ((context.document.node? place).bind Node.name?).map (part place)
  return .text (text?.getD "")

/-- A function, and how few and how many arguments it takes. -/
structure Entry where
  name : String
  least : Nat
  most : Option Nat
  apply : Context → List Value → Evaluated

/-- A function of the first three arguments as texts. -/
def ofTexts (f : List Char → List Char → List Char → Value) (context : Context)
    (arguments : List Value) : Evaluated :=
  let text i := ((arguments[i]?.map fun value => value.toText context.document).getD "").toList
  .ok (f (text 0) (text 1) (text 2))

/-- A function of one argument as a number. -/
def ofNumber (f : Float → Float) (context : Context) (arguments : List Value) : Evaluated :=
  .ok (.number (f ((orHere context arguments).toNumber context.document)))

/-- A text as a value. -/
def textOf (cs : List Char) : Value :=
  .text (String.ofList cs)

/-- The part of a text from a number on, up to a length if one is given. -/
def substring (context : Context) (arguments : List Value) : Evaluated :=
  match arguments with
  | whole :: start :: more =>
    let length := match more with
      | length :: _ => Number.round (length.toNumber context.document)
      | [] => Number.infinity
    .ok (textOf (part (whole.toText context.document).toList
      (Number.round (start.toNumber context.document)) length))
  | _ => .error (.argumentCount "substring")

/-- All functions. -/
def table : List Entry :=
  [⟨"last", 0, some 0, fun context _ => .ok (.number (Float.ofNat context.size))⟩,
   ⟨"position", 0, some 0, fun context _ => .ok (.number (Float.ofNat context.position))⟩,
   ⟨"count", 1, some 1, fun context arguments => do
     return .number (Float.ofNat (← placesOf (orHere context arguments)).length)⟩,
   ⟨"local-name", 0, some 1, fun context arguments =>
     ofName context arguments fun _ name => name.localName⟩,
   ⟨"namespace-uri", 0, some 1, fun context arguments =>
     ofName context arguments fun _ name => name.space.getD ""⟩,
   ⟨"name", 0, some 1, fun context arguments =>
     ofName context arguments context.document.writtenAt⟩,
   ⟨"string", 0, some 1, fun context arguments =>
     .ok (.text ((orHere context arguments).toText context.document))⟩,
   ⟨"concat", 2, none, fun context arguments =>
     .ok (.text (String.join (arguments.map fun value => value.toText context.document)))⟩,
   ⟨"starts-with", 2, some 2, ofTexts fun whole mark _ => .boolean (mark.isPrefixOf whole)⟩,
   ⟨"contains", 2, some 2, ofTexts fun whole mark _ => .boolean (hasPart whole mark)⟩,
   ⟨"substring-before", 2, some 2, ofTexts fun whole mark _ => textOf (textBefore whole mark)⟩,
   ⟨"substring-after", 2, some 2, ofTexts fun whole mark _ => textOf (textBehind whole mark)⟩,
   ⟨"substring", 2, some 3, substring⟩,
   ⟨"string-length", 0, some 1, fun context arguments =>
     .ok (.number (Float.ofNat ((orHere context arguments).toText context.document).length))⟩,
   ⟨"normalize-space", 0, some 1, fun context arguments =>
     .ok (textOf (normalized ((orHere context arguments).toText context.document).toList))⟩,
   ⟨"translate", 3, some 3, ofTexts fun whole old new => textOf (translated whole old new)⟩,
   ⟨"boolean", 1, some 1, fun context arguments =>
     .ok (.boolean (orHere context arguments).toBool)⟩,
   ⟨"not", 1, some 1, fun context arguments =>
     .ok (.boolean !(orHere context arguments).toBool)⟩,
   ⟨"true", 0, some 0, fun _ _ => .ok (.boolean true)⟩,
   ⟨"false", 0, some 0, fun _ _ => .ok (.boolean false)⟩,
   ⟨"number", 0, some 1, ofNumber id⟩,
   ⟨"sum", 1, some 1, fun context arguments => do
     return .number (sum context.document (← placesOf (orHere context arguments)))⟩,
   ⟨"floor", 1, some 1, ofNumber Float.floor⟩,
   ⟨"ceiling", 1, some 1, ofNumber Float.ceil⟩,
   ⟨"round", 1, some 1, ofNumber Number.round⟩]

/-- Calls a function. A name with a qualifier is never known. -/
def call (context : Context) (name : QualifiedName) (arguments : List Value) : Evaluated :=
  match table.find? fun entry => name == ⟨none, entry.name⟩ with
  | none => .error (.unknownFunction name)
  | some entry =>
    if arguments.length < entry.least || entry.most.any (· < arguments.length) then
      .error (.argumentCount entry.name)
    else entry.apply context arguments

end Function

end SubtreeHarvest.Path
