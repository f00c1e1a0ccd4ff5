/-
Tokens: a document cut into tags, runs of characters, references, sections, comments, instructions
and document types. A text that does not fall into well-formed tokens has none. Which tokens may
follow which is not decided here.
-/
import SubtreeHarvest.Document.Name
import SubtreeHarvest.Markup.Escape

namespace SubtreeHarvest.Document

open Text Markup

inductive Token
  /-- A start tag, or an empty element when `closed` holds. -/
  | openTag (name : QualifiedName) (attributes : List (QualifiedName × String)) (closed : Bool)
  | closeTag (name : QualifiedName)
  | characters (content : String)
  | reference (character : Char)
  | cdata (content : String)
  | comment (content : String)
  | instruction (target content : String)
  | doctype

/-! ## Values -/

/-- The character with a number. Numbers of no character, and those past 32 bits, have none. -/
def character? (base : Nat) (digits : List Char) : Option Char :=
  match unsigned base digits with
  | .ok code => if code.isValidChar then some (Char.ofNat code) else none
  | .error _ => none

/-- The character that a reference stands for, given what is between its marks. -/
def referenced? : List Char → Option Char
  | '#' :: 'x' :: digits => character? 16 digits
  | '#' :: digits => character? 10 digits
  | name => named? name

/-- Characters with the references among them resolved. -/
def resolved? : List Char → Option (List Char)
  | [] => some []
  | c :: cs =>
    if c == '&' then
      match _h : cut [';'] cs with
      | some (body, behind) => do
        let character ← referenced? body
        let others ← resolved? behind
        return character :: others
      | none => none
    else (c :: ·) <$> resolved? cs
termination_by cs => cs.length
decreasing_by
  · have := (suffix_of_cut _h).length_le
    simp only [List.length_cons]; omega
  · simp

/-- The value that stands between the quotes of an attribute. -/
def value? (cs : List Char) : Option String :=
  if cs.contains '<' then none else (resolved? cs).map String.ofList

/-! ## Fields -/

/-- What stands behind space, of which there must be some. -/
def behindSpace? (cs : List Char) : Option (List Char) :=
  if cs.head?.any isSpace then some (cs.dropWhile isSpace) else none

/-- Cuts off what stands between two quotes of one kind. -/
def quotedField? : List Char → Option (List Char × List Char)
  | [] => none
  | q :: inner => if isQuote q then cut [q] inner else none

/-- A character that the key of a field may hold. -/
def isKeyChar (c : Char) : Bool :=
  c != '=' && !isSpace c

/-- Cuts off a field: a key, an equals sign and a value in quotes. -/
def field? (cs : List Char) : Option ((List Char × List Char) × List Char) :=
  match (cs.dropWhile isKeyChar).dropWhile isSpace with
  | '=' :: rest => (quotedField? (rest.dropWhile isSpace)).map fun (value, behind) =>
      ((cs.takeWhile isKeyChar, value), behind)
  | _ => none

theorem suffix_of_quotedField? {cs value behind : List Char}
    (h : quotedField? cs = some (value, behind)) : behind <:+ cs := by
  unfold quotedField? at h
  split at h
  · cases h
  · split at h
    · exact (suffix_of_cut h).trans (List.suffix_cons ..)
    · cases h

theorem suffix_of_field? {cs behind : List Char} {field : List Char × List Char}
    (h : field? cs = some (field, behind)) : behind <:+ cs := by
  unfold field? at h
  split at h
  · rename_i rest hr
    obtain ⟨⟨value, behind'⟩, hq, he⟩ := Option.map_eq_some_iff.1 h
    cases he
    exact ((suffix_of_quotedField? hq).trans (List.dropWhile_suffix _)).trans
      ((suffix_of_dropWhile hr).trans (List.dropWhile_suffix _))
  · cases h

/-- The fields of a tag, each with space in front of it. -/
def fields? (cs : List Char) : Option (List (List Char × List Char)) :=
  if cs.isEmpty then some []
  else if !cs.head?.any isSpace then none
  else
    match _hs : cs.dropWhile isSpace with
    | [] => some []
    | first :: more =>
      match _h : field? (first :: more) with
      | some (field, behind) => (field :: ·) <$> fields? behind
      | none => none
termination_by cs.length
decreasing_by
  have h1 := (suffix_of_field? _h).length_le
  rename_i hne hh
  cases cs with
  | nil => simp at hne
  | cons c cs =>
    have hc : isSpace c = true := by simpa using hh
    rw [List.dropWhile_cons, if_pos hc] at _hs
    have h2 := (List.dropWhile_suffix isSpace (l := cs)).length_le
    rw [_hs] at h2
    simp only [List.length_cons] at h1 h2 ⊢
    omega

/-! ## Tags -/

def attribute? (field : List Char × List Char) : Option (QualifiedName × String) := do
  let name ← QualifiedName.ofChars? field.1
  let value ← value? field.2
  return (name, value)

/-- The start tag that characters between brackets write; a slash at their end closes it. -/
def openTag? (content : List Char) : Option Token := do
  let closed := content.getLast? == some '/'
  let content := if closed then content.dropLast else content
  let name ← QualifiedName.ofChars? (content.takeWhile (!isSpace ·))
  let fields ← fields? (content.dropWhile (!isSpace ·))
  let attributes ← fields.mapM attribute?
  return .openTag name attributes closed

/-- The end tag that characters between a slash and a bracket write. -/
def closeTag? (content : List Char) : Option Token := do
  let name ← QualifiedName.ofChars? (content.takeWhile (!isSpace ·))
  if (content.dropWhile (!isSpace ·)).all isSpace then some (.closeTag name) else none

/-! ## Instructions and declarations -/

/-- A target that instructions may not have, since it marks a declaration. -/
def isReserved (target : List Char) : Bool :=
  target.map Char.toLower == "xml".toList

/-- The instruction that characters between its marks write. -/
def instruction? (content : List Char) : Option Token :=
  let target := content.takeWhile (!isSpace ·)
  if isLooseName target && !isReserved target then
    some (.instruction (String.ofList target)
      (String.ofList ((content.dropWhile (!isSpace ·)).dropWhile isSpace)))
  else none

/-- Whether a field of a declaration has a value that the field may have. -/
def isDeclared (field : List Char × List Char) : Bool :=
  if field.1 = "version".toList then
    match field.2 with
    | '1' :: '.' :: digits => !digits.isEmpty && digits.all Char.isDigit
    | _ => false
  else if field.1 = "encoding".toList then
    field.2.head?.any Char.isAlpha &&
      field.2.all fun c => c.isAlphanum || c == '.' || c == '_' || c == '-'
  else if field.1 = "standalone".toList then
    field.2 = "yes".toList || field.2 = "no".toList
  else false

/-- What stands behind the declaration that a text begins with. A declaration gives the version,
then perhaps the encoding, then perhaps whether the document stands alone. -/
def behindDeclaration? (cs : List Char) : Option (List Char) := do
  let cs ← behind? "<?xml".toList cs
  let (content, behind) ← cut "?>".toList cs
  let fields ← fields? content
  let order := [["version"], ["version", "encoding"], ["version", "standalone"],
    ["version", "encoding", "standalone"]]
  if order.contains (fields.map fun field => String.ofList field.1) && fields.all isDeclared then
    some behind
  else none

/-- What stands behind the name of a document type. -/
def behindTypeName? (cs : List Char) : Option (List Char) :=
  let isPart c := c == ':' || isNameChar c
  if isLooseName (cs.takeWhile isPart) then some (cs.dropWhile isPart) else none

/-- Whether characters may be the address of a document type. -/
def isAddress (cs : List Char) : Bool :=
  !cs.isEmpty && cs.all fun c => c != '<' && c != '&'

/-- What stands behind the address of a document type. -/
def behindSystem? (cs : List Char) : Option (List Char) := do
  let cs ← behindSpace? cs
  let cs ← behind? "SYSTEM".toList cs
  let cs ← behindSpace? cs
  let (address, behind) ← quotedField? cs
  if isAddress address then some behind else none

/-- What stands behind the declarations within a document type, if there are any. -/
def behindSubset? : List Char → Option (List Char)
  | '[' :: inner => (cut [']'] inner).map Prod.snd
  | cs => some cs

/-- What stands behind a document type, given what stands behind its keyword. Nothing in it is
made use of, and it may not have a public name. -/
def behindDoctype? (cs : List Char) : Option (List Char) := do
  let cs ← behindSpace? cs
  let cs ← behindTypeName? cs
  let cs ← behindSubset? (((behindSystem? cs).getD cs).dropWhile isSpace)
  match cs.dropWhile isSpace with
  | '>' :: behind => some behind
  | _ => none

theorem suffix_of_behindSpace? {cs behind : List Char} (h : behindSpace? cs = some behind) :
    behind <:+ cs := by
  unfold behindSpace? at h
  split at h
  · exact Option.some.inj h ▸ List.dropWhile_suffix _
  · cases h

theorem suffix_of_behindTypeName? {cs behind : List Char}
    (h : behindTypeName? cs = some behind) : behind <:+ cs := by
  unfold behindTypeName? at h
  dsimp only at h
  split at h
  · exact Option.some.inj h ▸ List.dropWhile_suffix _
  · cases h

theorem suffix_of_behindSystem? {cs behind : List Char} (h : behindSystem? cs = some behind) :
    behind <:+ cs := by
  unfold behindSystem? at h
  simp only [bind, Option.bind_eq_some_iff] at h
  obtain ⟨a, ha, b, hb, c, hc, ⟨address, rest⟩, hq, h⟩ := h
  cases (Option.ite_none_right_eq_some.1 h).2
  exact (suffix_of_quotedField? hq).trans ((suffix_of_behindSpace? hc).trans
    ((suffix_of_behind? hb).trans (suffix_of_behindSpace? ha)))

theorem suffix_of_behindSubset? {cs behind : List Char} (h : behindSubset? cs = some behind) :
    behind <:+ cs := by
  unfold behindSubset? at h
  split at h
  · obtain ⟨⟨value, rest⟩, hc, he⟩ := Option.map_eq_some_iff.1 h
    cases he
    exact (suffix_of_cut hc).trans (List.suffix_cons ..)
  · exact Option.some.inj h ▸ List.suffix_refl _

theorem suffix_of_behindDoctype? {cs behind : List Char} (h : behindDoctype? cs = some behind) :
    behind <:+ cs := by
  unfold behindDoctype? at h
  simp only [bind, Option.bind_eq_some_iff] at h
  obtain ⟨a, ha, b, hb, c, hc, h⟩ := h
  have hs : (behindSystem? b).getD b <:+ b := by
    cases hs : behindSystem? b with
    | none => exact List.suffix_refl _
    | some rest => exact suffix_of_behindSystem? hs
  split at h
  · rename_i hd
    cases h
    exact (suffix_of_dropWhile hd).trans ((suffix_of_behindSubset? hc).trans
      ((List.dropWhile_suffix _).trans (hs.trans
        ((suffix_of_behindTypeName? hb).trans (suffix_of_behindSpace? ha)))))
  · cases h

/-! ## One token -/

/-- Cuts off the comment that begins here. Two dashes in a row end it, and only a closing bracket
may stand behind them. -/
def comment? (cs : List Char) : Option (Token × List Char) :=
  match cut "--".toList cs with
  | some (content, '>' :: behind) => some (.comment (String.ofList content), behind)
  | _ => none

/-- Cuts off what a mark ends. -/
def upTo? (mark : List Char) (token? : List Char → Option Token) (cs : List Char) :
    Option (Token × List Char) :=
  match cut mark cs with
  | some (content, behind) => (token? content).map (·, behind)
  | none => none

/-- Cuts off what an opening bracket introduces. -/
def markup? (cs : List Char) : Option (Token × List Char) :=
  if let some rest := behind? "!--".toList cs then comment? rest
  else if let some rest := behind? "![CDATA[".toList cs then
    upTo? "]]>".toList (fun content => some (.cdata (String.ofList content))) rest
  else if let some rest := behind? "!DOCTYPE".toList cs then
    (behindDoctype? rest).map (.doctype, ·)
  else if let some rest := behind? "?".toList cs then upTo? "?>".toList instruction? rest
  else if let some rest := behind? "/".toList cs then upTo? ">".toList closeTag? rest
  else
    match cutUnquoted isQuote '>' none cs with
    | some (content, behind) => (openTag? content).map (·, behind)
    | none => none

/-- A character that a run may hold. -/
def isRunChar (c : Char) : Bool :=
  c != '<' && c != '&'

/-- A run of characters, in which the end mark of a section may not stand. -/
def run? (cs : List Char) : Option Token :=
  if (cut "]]>".toList cs).isSome then none else some (.characters (String.ofList cs))

/-- Cuts off the token that begins with `c`. -/
def token? (c : Char) (cs : List Char) : Option (Token × List Char) :=
  if c == '<' then markup? cs
  else if c == '&' then
    upTo? [';'] (fun body => (referenced? body).map .reference) cs
  else (run? (c :: cs.takeWhile isRunChar)).map (·, cs.dropWhile isRunChar)

theorem suffix_of_upTo? {mark cs behind : List Char} {f : List Char → Option Token}
    {token : Token} (h : upTo? mark f cs = some (token, behind)) : behind <:+ cs := by
  unfold upTo? at h
  split at h
  · rename_i hc
    obtain ⟨token', _, he⟩ := Option.map_eq_some_iff.1 h
    cases he
    exact suffix_of_cut hc
  · cases h

theorem suffix_of_comment? {cs behind : List Char} {token : Token}
    (h : comment? cs = some (token, behind)) : behind <:+ cs := by
  unfold comment? at h
  split at h
  · rename_i hc
    cases h
    exact (List.suffix_cons ..).trans (suffix_of_cut hc)
  · cases h

theorem suffix_of_markup? {cs behind : List Char} {token : Token}
    (h : markup? cs = some (token, behind)) : behind <:+ cs := by
  unfold markup? at h
  split at h
  · rename_i hb; exact (suffix_of_comment? h).trans (suffix_of_behind? hb)
  · split at h
    · rename_i hb; exact (suffix_of_upTo? h).trans (suffix_of_behind? hb)
    · split at h
      · rename_i hb
        obtain ⟨rest, hr, he⟩ := Option.map_eq_some_iff.1 h
        cases he
        exact (suffix_of_behindDoctype? hr).trans (suffix_of_behind? hb)
      · split at h
        · rename_i hb; exact (suffix_of_upTo? h).trans (suffix_of_behind? hb)
        · split at h
          · rename_i hb; exact (suffix_of_upTo? h).trans (suffix_of_behind? hb)
          · split at h
            · rename_i hc
              obtain ⟨token', _, he⟩ := Option.map_eq_some_iff.1 h
              cases he
              rw [cutUnquoted_eq_some hc]
              exact (List.suffix_cons ..).trans (List.suffix_append ..)
            · cases h

theorem suffix_of_token? {c : Char} {cs behind : List Char} {token : Token}
    (h : token? c cs = some (token, behind)) : behind <:+ cs := by
  unfold token? at h
  split at h
  · exact suffix_of_markup? h
  · split at h
    · exact suffix_of_upTo? h
    · obtain ⟨token', _, he⟩ := Option.map_eq_some_iff.1 h
      cases he
      exact List.dropWhile_suffix _

/-! ## All tokens -/

/-- The tokens that a text falls into. -/
def tokens? : List Char → Option (List Token)
  | [] => some []
  | c :: cs =>
    match _h : token? c cs with
    | some (token, behind) => (token :: ·) <$> tokens? behind
    | none => none
termination_by cs => cs.length
decreasing_by
  have := (suffix_of_token? _h).length_le
  simp only [List.length_cons]; omega

end SubtreeHarvest.Document
