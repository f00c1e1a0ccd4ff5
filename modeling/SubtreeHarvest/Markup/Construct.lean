/-
The constructs of markup: where each one that begins with a bracket ends, and what stands between
its marks. An end mark counts from where it cannot overlap the beginning; in tags a bracket
between quotes does not count, in document type declarations brackets nest.
-/
import SubtreeHarvest.Markup.Fault
import SubtreeHarvest.Text.Cut

namespace SubtreeHarvest.Markup

open Text

/-! ## The bytes that delimit markup -/

namespace Byte

def less : UInt8 := 0x3C
def greater : UInt8 := 0x3E
def slash : UInt8 := 0x2F
def bang : UInt8 := 0x21
def question : UInt8 := 0x3F
def dash : UInt8 := 0x2D
def bracket : UInt8 := 0x5B
def equals : UInt8 := 0x3D
def quote : UInt8 := 0x22
def apostrophe : UInt8 := 0x27

/-- The space of markup, as bytes. -/
def isSpace (b : UInt8) : Bool :=
  b == 0x20 || b == 0x09 || b == 0x0D || b == 0x0A

def isQuote (b : UInt8) : Bool :=
  b == quote || b == apostrophe

/-- The end of a character data section. -/
def cdataEnd : List UInt8 := [0x5D, 0x5D, 0x3E]

/-- The end of a comment. -/
def commentEnd : List UInt8 := [0x2D, 0x2D, 0x3E]

/-- The end of a processing instruction. -/
def instructionEnd : List UInt8 := [0x3F, 0x3E]

/-- What a character data section begins with, behind the exclamation mark. -/
def cdataStart : List UInt8 := [0x5B, 0x43, 0x44, 0x41, 0x54, 0x41, 0x5B]

/-- What a comment begins with, behind the exclamation mark. -/
def commentStart : List UInt8 := [0x2D, 0x2D]

/-- The keyword of a document type declaration, in upper case. -/
def doctypeKeyword : List UInt8 := [0x44, 0x4F, 0x43, 0x54, 0x59, 0x50, 0x45]

/-- An ASCII letter in upper case; any other byte as it is. -/
def toUpper (b : UInt8) : UInt8 :=
  if 0x61 ≤ b && b ≤ 0x7A then b - 0x20 else b

/-- The three bytes that mark a text as UTF-8. -/
def orderMark : List UInt8 := [0xEF, 0xBB, 0xBF]

end Byte

/-! ## Constructs -/

/-! ## End marks -/

/-- What stands before the first closing bracket outside quotes, and what stands behind it. -/
def cutTag (bytes : List UInt8) : Option (List UInt8 × List UInt8) :=
  cutUnquoted Byte.isQuote Byte.greater none bytes

/-- What stands before the closing bracket that balances the one `depth` levels out, and what
stands behind it. -/
def cutNested (depth : Nat) : List UInt8 → Option (List UInt8 × List UInt8)
  | [] => none
  | b :: bytes =>
    if b == Byte.less then
      (cutNested (depth + 1) bytes).map fun (before, behind) => (b :: before, behind)
    else if b == Byte.greater then
      match depth with
      | 0 => some ([], bytes)
      | d + 1 => (cutNested d bytes).map fun (before, behind) => (b :: before, behind)
    else (cutNested depth bytes).map fun (before, behind) => (b :: before, behind)

theorem cutTag_eq_some {bytes before behind : List UInt8}
    (h : cutTag bytes = some (before, behind)) : bytes = before ++ Byte.greater :: behind :=
  cutUnquoted_eq_some h

theorem cutNested_eq_some {depth : Nat} {bytes before behind : List UInt8}
    (h : cutNested depth bytes = some (before, behind)) :
    bytes = before ++ Byte.greater :: behind := by
  induction bytes generalizing depth before behind with
  | nil => simp [cutNested] at h
  | cons b bytes ih =>
    unfold cutNested at h
    split at h
    · obtain ⟨⟨before', behind'⟩, hc, he⟩ := Option.map_eq_some_iff.1 h
      cases he; rw [ih hc]; rfl
    · split at h
      · rename_i hb
        split at h
        · cases h; rw [eq_of_beq hb]; rfl
        · obtain ⟨⟨before', behind'⟩, hc, he⟩ := Option.map_eq_some_iff.1 h
          cases he; rw [ih hc]; rfl
      · obtain ⟨⟨before', behind'⟩, hc, he⟩ := Option.map_eq_some_iff.1 h
        cases he; rw [ih hc]; rfl

/-! ## Constructs -/

inductive Construct
  /-- What stands between the brackets of a start tag or of an empty element. -/
  | openTag (content : List UInt8)
  /-- What stands between the slash and the bracket of an end tag. -/
  | closeTag (content : List UInt8)
  | cdata (content : List UInt8)
  /-- A comment, an instruction or a declaration: nothing of it is answered. -/
  | ignored

/-- What is found behind an opening bracket. Sizes count the bytes from the bracket on, the
bracket itself left out. -/
inductive Scan
  | found (construct : Construct) (size : Nat)
  /-- A construct that ends but is malformed. -/
  | faulty (fault : Fault) (size : Nat)
  /-- A construct that the bytes end in. -/
  | unfinished (construct : Delimited)
  /-- An exclamation mark that the bytes end behind. -/
  | bareBang
  /-- An exclamation mark that introduces nothing known. -/
  | unknownDeclaration

/-- Reads a character data section, whose opening square bracket comes first. -/
def scanCdata (bytes : List UInt8) : Scan :=
  match cut Byte.cdataEnd bytes with
  | none => .unfinished .cdata
  | some (content, _) =>
    let size := 1 + content.length + Byte.cdataEnd.length
    if Byte.cdataStart.isPrefixOf content then
      .found (.cdata (content.drop Byte.cdataStart.length)) size
    else .faulty (.unclosed .cdata) size

/-- Reads a comment, whose first dash comes first. The end mark shares no dash with the
beginning. -/
def scanComment (bytes : List UInt8) : Scan :=
  match cut Byte.commentEnd (bytes.drop Byte.commentStart.length) with
  | none => .unfinished .comment
  | some (content, _) =>
    let size := 1 + Byte.commentStart.length + content.length + Byte.commentEnd.length
    if Byte.commentStart.isPrefixOf bytes then .found .ignored size
    else .faulty (.unclosed .comment) size

/-- Reads a document type declaration, whose keyword, in letters of either case, comes first. -/
def scanDoctype (bytes : List UInt8) : Scan :=
  match cutNested 0 bytes with
  | none => .unfinished .doctype
  | some (content, _) =>
    let size := 1 + content.length + 1
    if Byte.doctypeKeyword.isPrefixOf (content.map Byte.toUpper) then
      if (content.drop Byte.doctypeKeyword.length).all Byte.isSpace then
        .faulty .namelessDoctype size
      else .found .ignored size
    else .faulty (.unclosed .doctype) size

/-- Reads what an exclamation mark introduces. -/
def scanDeclaration : List UInt8 → Scan
  | [] => .bareBang
  | b :: bytes =>
    if b == Byte.bracket then scanCdata (b :: bytes)
    else if b == Byte.dash then scanComment (b :: bytes)
    else if b == 0x44 || b == 0x64 then scanDoctype (b :: bytes)
    else .unknownDeclaration

/-- Reads an instruction, whose question mark comes first; the same mark may belong to the end. -/
def scanInstruction (bytes : List UInt8) : Scan :=
  match cut Byte.instructionEnd bytes with
  | none => .unfinished .instruction
  | some (content, _) =>
    let size := content.length + Byte.instructionEnd.length
    if content.isEmpty then .faulty (.unclosed .instruction) size else .found .ignored size

/-- Reads the construct behind an opening bracket. -/
def scan : List UInt8 → Scan
  | [] => .unfinished .tag
  | b :: bytes =>
    if b == Byte.bang then scanDeclaration bytes
    else if b == Byte.question then scanInstruction (b :: bytes)
    else if b == Byte.slash then
      match cutTag bytes with
      | none => .unfinished .tag
      | some (content, _) => .found (.closeTag content) (1 + content.length + 1)
    else
      match cutTag (b :: bytes) with
      | none => .unfinished .tag
      | some (content, _) => .found (.openTag content) (content.length + 1)

/-- The size of a construct that has an end. -/
def Scan.size? : Scan → Option Nat
  | .found _ size | .faulty _ size => some size
  | _ => none

theorem size_scanDeclaration {bytes : List UInt8} {size : Nat}
    (h : (scanDeclaration bytes).size? = some size) : size ≤ bytes.length + 1 := by
  unfold scanDeclaration at h
  split at h
  · simp [Scan.size?] at h
  · rename_i b bytes
    split at h
    · unfold scanCdata at h
      split at h
      · simp [Scan.size?] at h
      · rename_i hc
        have := congrArg List.length (cut_eq_some hc)
        simp only [List.length_append, List.length_cons] at this
        split at h <;> simp only [Scan.size?, Option.some.injEq] at h <;>
          simp only [List.length_cons] <;> omega
    · split at h
      · unfold scanComment at h
        split at h
        · simp [Scan.size?] at h
        · rename_i content behind hc
          have := congrArg List.length (cut_eq_some hc)
          simp only [List.length_append, List.length_drop, List.length_cons] at this
          have positive : 0 < Byte.commentEnd.length := by decide
          split at h <;> simp only [Scan.size?, Option.some.injEq] at h <;>
            simp only [List.length_cons] <;> omega
      · split at h
        · unfold scanDoctype at h
          split at h
          · simp [Scan.size?] at h
          · rename_i hc
            have := congrArg List.length (cutNested_eq_some hc)
            simp only [List.length_append, List.length_cons] at this
            split at h
            · split at h <;> simp only [Scan.size?, Option.some.injEq] at h <;>
                simp only [List.length_cons] <;> omega
            · simp only [Scan.size?, Option.some.injEq] at h
              simp only [List.length_cons]
              omega
        · simp [Scan.size?] at h

/-- A construct takes no more bytes than there are. -/
theorem size_scan {bytes : List UInt8} {size : Nat} (h : (scan bytes).size? = some size) :
    size ≤ bytes.length := by
  unfold scan at h
  split at h
  · simp [Scan.size?] at h
  · rename_i b bytes
    split at h
    · exact size_scanDeclaration h
    · split at h
      · unfold scanInstruction at h
        split at h
        · simp [Scan.size?] at h
        · rename_i hc
          have := congrArg List.length (cut_eq_some hc)
          simp only [List.length_append] at this
          split at h <;> simp only [Scan.size?, Option.some.injEq] at h <;> omega
      · split at h
        · split at h
          · simp [Scan.size?] at h
          · rename_i hc
            have := congrArg List.length (cutTag_eq_some hc)
            simp only [List.length_append, List.length_cons] at this
            simp only [Scan.size?, Option.some.injEq] at h
            simp only [List.length_cons]
            omega
        · split at h
          · simp [Scan.size?] at h
          · rename_i hc
            have := congrArg List.length (cutTag_eq_some hc)
            simp only [List.length_append, List.length_cons] at this
            simp only [Scan.size?, Option.some.injEq] at h
            simp only [List.length_cons]
            omega

end SubtreeHarvest.Markup
