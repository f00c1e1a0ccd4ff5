/-
What can be wrong with markup, one constructor a cause, and the wording of each. A fault in what
delimits a construct ends the reading, since nobody can say where the next construct begins; after
any other fault the reading goes on behind the construct.
-/
import SubtreeHarvest.Text.Utf8

namespace SubtreeHarvest.Markup

open Text

/-- The constructs that have an end mark of their own. -/
inductive Delimited
  | tag
  | cdata
  | comment
  | doctype
  | instruction
  deriving DecidableEq

def Delimited.describe : Delimited → String
  | .tag => "tag"
  | .cdata => "CDATA"
  | .comment => "comment"
  | .doctype => "DOCTYPE"
  | .instruction => "processing instruction or xml declaration"

def Delimited.endMark : Delimited → String
  | .tag => ">"
  | .cdata => "]]>"
  | .comment => "-->"
  | .doctype => ">"
  | .instruction => "?>"

/-- Why a list of attributes is malformed. Positions are byte indexes into the tag, counted from
behind its opening bracket. -/
inductive AttributeFault
  | missingEquals (position : Nat)
  | duplicated (position earlier : Nat)
  | missingValue (position : Nat)
  | unquotedValue (position : Nat)
  | unclosedValue (position : Nat) (quote : UInt8)
  deriving DecidableEq

def AttributeFault.message : AttributeFault → String
  | .missingEquals p => s!"position {p}: attribute key must be directly followed by `=` or space"
  | .duplicated p q => s!"position {p}: duplicated attribute, previous declaration at position {q}"
  | .missingValue p => s!"position {p}: `=` must be followed by an attribute value"
  | .unquotedValue p => s!"position {p}: attribute value must be enclosed in `\"` or `'`"
  | .unclosedValue p q =>
    s!"position {p}: missing closing quote `" ++ String.singleton (Char.ofNat q.toNat) ++
      "` in attribute value"

/-- Why the number of a character reference names no character. -/
inductive NumberFault
  | signed
  | empty
  | badDigit
  | tooLarge
  | zero
  | noCharacter (code : Nat)
  deriving DecidableEq

def NumberFault.message : NumberFault → String
  | .signed => "unexpected number sign"
  | .empty => "cannot parse integer from empty string"
  | .badDigit => "invalid digit found in string"
  | .tooLarge => "number too large to fit in target type"
  | .zero => "0x0 character is not permitted in XML"
  | .noCharacter code => s!"`{code}` is not a valid codepoint"

/-- Why a reference cannot be resolved. Positions are byte indexes into the text. -/
inductive ReferenceFault
  | unterminated (start stop : Nat)
  | unknown (start stop : Nat) (name : String)
  | number (fault : NumberFault)
  deriving DecidableEq

def ReferenceFault.message : ReferenceFault → String
  | .unterminated start stop =>
    s!"Error while escaping character at range {start}..{stop}: Cannot find ';' after '&'"
  | .unknown start stop name => s!"at {start}..{stop}: unrecognized entity `{name}`"
  | .number fault => "invalid character reference: " ++ fault.message

inductive Fault
  /-- An exclamation mark with nothing behind it that it could introduce. -/
  | unknownDeclaration
  | unclosed (construct : Delimited)
  /-- A document type declaration that names no type. -/
  | namelessDoctype
  | unmatchedEnd (name : String)
  | mismatchedEnd (expected found : String)
  | attribute (fault : AttributeFault)
  | reference (fault : ReferenceFault)
  | undecodableText (fault : Utf8.Fault)
  | undecodableName (fault : Utf8.Fault)
  deriving DecidableEq

namespace Fault

def message : Fault → String
  | .unknownDeclaration => "syntax error: unknown or missed symbol in markup"
  | .unclosed construct =>
    "syntax error: " ++ construct.describe ++ " not closed: `" ++ construct.endMark ++
      "` not found before end of input"
  | .namelessDoctype =>
    "ill-formed document: `<!DOCTYPE>` declaration does not contain a name of a document type"
  | .unmatchedEnd name =>
    s!"ill-formed document: close tag `</{name}>` does not match any open tag"
  | .mismatchedEnd expected found =>
    s!"ill-formed document: expected `</{expected}>`, but `</{found}>` was found"
  | .attribute fault => fault.message
  | .reference fault => fault.message
  | .undecodableText fault => "cannot decode input using UTF-8: " ++ fault.message
  | .undecodableName fault => "invalid utf-8: " ++ fault.message

/-- Whether nothing can be read behind the fault. -/
def endsReading : Fault → Bool
  | .unknownDeclaration | .unclosed _ => true
  | _ => false

end Fault

end SubtreeHarvest.Markup
