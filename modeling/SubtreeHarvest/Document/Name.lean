/-
Names and namespaces. The characters that a name may begin with and go on with are those of XML 1.0, and a
qualified name is a local name with at most one qualifier of a namespace in front of it.

An element declares which addresses qualifiers stand for, and what it declares holds in it until an
element further in declares the same qualifier again. One qualifier is known in every document without
being declared in it.
-/
import SubtreeHarvest.Text.Cut

namespace SubtreeHarvest.Document

open Text

/-- The ranges of the characters that a name may begin with, the colon apart. -/
def nameStartRanges : List (Nat × Nat) :=
  [(0x41, 0x5A), (0x5F, 0x5F), (0x61, 0x7A), (0xC0, 0xD6), (0xD8, 0xF6), (0xF8, 0x2FF),
   (0x370, 0x37D), (0x37F, 0x1FFF), (0x200C, 0x200D), (0x2070, 0x218F), (0x2C00, 0x2FEF),
   (0x3001, 0xD7FF), (0xF900, 0xFDCF), (0xFDF0, 0xFFFD), (0x10000, 0xEFFFF)]

/-- The ranges of the further characters that a name may go on with. -/
def nameExtraRanges : List (Nat × Nat) :=
  [(0x2D, 0x2E), (0x30, 0x39), (0xB7, 0xB7), (0x300, 0x36F), (0x203F, 0x2040)]

def inRanges (ranges : List (Nat × Nat)) (c : Char) : Bool :=
  ranges.any fun (first, last) => first ≤ c.toNat && c.toNat ≤ last

def isNameStart (c : Char) : Bool :=
  inRanges nameStartRanges c

def isNameChar (c : Char) : Bool :=
  isNameStart c || inRanges nameExtraRanges c

/-- A name without a colon. -/
def isPlainName : List Char → Bool
  | [] => false
  | c :: cs => isNameStart c && cs.all isNameChar

/-- A name that may hold colons anywhere, as targets of instructions and document types do. -/
def isLooseName : List Char → Bool
  | [] => false
  | c :: cs => (c == ':' || isNameStart c) && cs.all fun c => c == ':' || isNameChar c

/-- A name as a tag spells it. -/
structure QualifiedName where
  /-- What stands for the namespace, if anything does. -/
  qualifier : Option String
  localName : String
  deriving DecidableEq, Ord

/-- The qualified name that characters spell. -/
def QualifiedName.ofChars? (cs : List Char) : Option QualifiedName :=
  match cut [':'] cs with
  | none => if isPlainName cs then some ⟨none, String.ofList cs⟩ else none
  | some (before, behind) =>
    if isPlainName before && isPlainName behind then
      some ⟨some (String.ofList before), String.ofList behind⟩
    else none

/-- A name with its namespace looked up. -/
structure Name where
  /-- The address of the namespace, if the name is in one. -/
  space : Option String
  localName : String
  /-- The qualifier the name was spelled with. -/
  qualifier : Option String
  deriving DecidableEq

namespace Name

/-- Whether two names mean the same, whatever their spelling. -/
def same (name other : Name) : Bool :=
  name.space == other.space && name.localName == other.localName

end Name

/-! ## Namespaces -/

/-- Qualifiers, with the addresses they are declared for. -/
abbrev Declarations := List (String × String)

/-- The qualifier that is known without being declared. -/
def commonQualifier : String × String :=
  ("xml", "http://www.w3.org/XML/1998/namespace")

namespace Declarations

/-- Declarations with one more, in place of the first for its qualifier if there is one. -/
def declare (declaration : String × String) : Declarations → Declarations
  | [] => [declaration]
  | other :: others =>
    if other.1 = declaration.1 then declaration :: others else other :: declare declaration others

/-- What holds where the given elements declare something, the innermost element first: the common
qualifier in its own meaning, and of each other qualifier the nearest declaration. -/
def inForce (around : List Declarations) : Declarations :=
  (commonQualifier :: around.flatten).eraseDupsBy fun other first => other.1 == first.1

/-- The qualifier to write for an address: one that the nearest element declares for it, and the
preferred one if it is among those. A qualifier counts although it is declared again further in. -/
def qualifierFor? (address : String) (preferred : Option String) :
    List Declarations → Option String
  | [] => none
  | declared :: around =>
    match declared.filter (·.2 == address) with
    | [] => qualifierFor? address preferred around
    | (first, _) :: more =>
      some ((preferred.filter fun qualifier => more.any (·.1 == qualifier)).getD first)

end Declarations

/-- How a name is written among the declarations of the elements around it, innermost first. -/
def Name.written (name : Name) (around : List Declarations) : String :=
  match name.space.bind fun address => Declarations.qualifierFor? address name.qualifier around with
  | some qualifier => qualifier ++ ":" ++ name.localName
  | none => name.localName

end SubtreeHarvest.Document
