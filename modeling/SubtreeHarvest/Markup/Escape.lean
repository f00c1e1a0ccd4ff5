/-
References and escapes. Contents are written with references in place of the characters that
markup uses, and read by resolving references: the five names every document knows, and characters
by number.
-/
import SubtreeHarvest.Markup.Fault
import SubtreeHarvest.Text.Cut

namespace SubtreeHarvest.Markup

open Text

/-! ## Writing -/

/-- A character as text writes it. -/
def textEscape (c : Char) : List Char :=
  if c == '<' then "&lt;".toList
  else if c == '>' then "&gt;".toList
  else if c == '&' then "&amp;".toList
  else [c]

/-- A character as an attribute value writes it, between quotes of either kind. -/
def valueEscape (c : Char) : List Char :=
  if c == '\x27' then "&apos;".toList
  else if c == '\x22' then "&quot;".toList
  else textEscape c

/-! ## Reading -/

/-- The value of a digit in a base of at most sixteen. -/
def digitValue? (base : Nat) (c : Char) : Option Nat :=
  let value? :=
    if '0' ≤ c && c ≤ '9' then some (c.toNat - '0'.toNat)
    else if 'a' ≤ c && c ≤ 'f' then some (c.toNat - 'a'.toNat + 10)
    else if 'A' ≤ c && c ≤ 'F' then some (c.toNat - 'A'.toNat + 10)
    else none
  value?.filter (· < base)

/-- Reads on behind digits worth `value`; a number takes at most 32 bits. -/
def number (base value : Nat) : List Char → Except NumberFault Nat
  | [] => .ok value
  | c :: cs =>
    match digitValue? base c with
    | none => .error .badDigit
    | some digit =>
      if value * base + digit < 2 ^ 32 then number base (value * base + digit) cs
      else .error .tooLarge

/-- A number without a sign. -/
def unsigned (base : Nat) : List Char → Except NumberFault Nat
  | [] => .error .empty
  | c :: cs => if c == '+' || c == '-' then .error .signed else number base 0 (c :: cs)

/-- The character that a number names: hexadecimal behind an `x`, else decimal. -/
def numbered (cs : List Char) : Except NumberFault Char := do
  let code ← match cs with
    | 'x' :: digits => unsigned 16 digits
    | digits => unsigned 10 digits
  if code = 0 then .error .zero
  else if code.isValidChar then .ok (Char.ofNat code)
  else .error (.noCharacter code)

/-- The character of a name that every document knows. -/
def named? (name : List Char) : Option Char :=
  if name = "lt".toList then some '<'
  else if name = "gt".toList then some '>'
  else if name = "amp".toList then some '&'
  else if name = "apos".toList then some '\x27'
  else if name = "quot".toList then some '\x22'
  else none

/-- Resolves the reference whose body, between `&` and `;`, begins at byte `start`. -/
def resolve (start : Nat) (body : List Char) : Except ReferenceFault Char :=
  match body with
  | '#' :: digits => (numbered digits).mapError .number
  | _ =>
    match named? body with
    | some c => .ok c
    | none => .error (.unknown start (start + byteLength body) (String.ofList body))

/-- A character that may stand in the body of a reference. -/
def isReferenceChar (c : Char) : Bool :=
  c != '&' && c != ';'

/-- Resolves the references of the rest of a text of `total` bytes, which begins at byte `i`. -/
def unescapeFrom (total i : Nat) : List Char → Except ReferenceFault (List Char)
  | [] => .ok []
  | c :: cs =>
    if c == '&' then
      let body := cs.takeWhile isReferenceChar
      match _h : cs.dropWhile isReferenceChar with
      | ';' :: rest => do
        let character ← resolve (i + 1) body
        let others ← unescapeFrom total (i + byteLength body + 2) rest
        return character :: others
      | _ => .error (.unterminated i total)
    else (c :: ·) <$> unescapeFrom total (i + c.utf8Size) cs
termination_by cs => cs.length
decreasing_by
  · have := (List.dropWhile_sublist isReferenceChar (l := cs)).length_le
    simp [_h] at this ⊢; omega
  · simp

/-- The text with its references resolved. -/
def unescape (cs : List Char) : Except ReferenceFault (List Char) :=
  unescapeFrom (byteLength cs) 0 cs

end SubtreeHarvest.Markup
