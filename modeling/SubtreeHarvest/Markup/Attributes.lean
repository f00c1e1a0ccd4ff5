/-
The attributes of a start tag, read from the bytes between its brackets. A key runs up to an equals
sign or a space, a value stands between two quotes of one kind, and no space is needed behind the
closing one. The first problem in the order of the document decides.
-/
import SubtreeHarvest.EventStream
import SubtreeHarvest.Markup.Construct
import SubtreeHarvest.Markup.Escape

namespace SubtreeHarvest.Markup

open Text

/-- A name, which must be UTF-8. -/
def decodeName (bytes : List UInt8) : Except Fault String :=
  match Utf8.decode bytes with
  | .ok cs => .ok (String.ofList cs)
  | .error fault => .error (.undecodableName fault)

/-- A name for a message: nothing of a name that is not UTF-8 is shown. -/
def nameForMessage (bytes : List UInt8) : String :=
  match Utf8.decode bytes with
  | .ok cs => String.ofList cs
  | .error _ => ""

/-- A content, which must be UTF-8 and in which every reference must resolve. -/
def decodeContent (bytes : List UInt8) : Except Fault String :=
  match Utf8.decode bytes with
  | .error fault => .error (.undecodableText fault)
  | .ok cs =>
    match unescape cs with
    | .error fault => .error (.reference fault)
    | .ok content => .ok (String.ofList content)

/-- A byte that a key may go on with. -/
def isKeyByte (b : UInt8) : Bool :=
  b != Byte.equals && !Byte.isSpace b

/-- Reads the value behind an equals sign in a tag of `size` bytes, and what is left of the tag. -/
def rawValue (size : Nat) (bytes : List UInt8) :
    Except AttributeFault (List UInt8 × List UInt8) :=
  match bytes.dropWhile Byte.isSpace with
  | [] => .error (.missingValue size)
  | q :: inner =>
    if !Byte.isQuote q then .error (.unquotedValue (size - (inner.length + 1)))
    else
      match inner.dropWhile (· != q) with
      | [] => .error (.unclosedValue size q)
      | _ :: rest => .ok (inner.takeWhile (· != q), rest)

/-- The bytes of one attribute: its key, the index at which the key begins, and its value. -/
structure RawAttribute where
  key : List UInt8
  start : Nat
  value : List UInt8

/-- Reads one attribute of a tag of `size` bytes, whose key begins with `first` at index `i`;
`seen` holds the keys before it with their indexes. Answers what is left of the tag, too. -/
def rawAttribute (size : Nat) (seen : List (List UInt8 × Nat)) (i : Nat) (first : UInt8)
    (more : List UInt8) : Except AttributeFault (RawAttribute × List UInt8) :=
  match (more.dropWhile isKeyByte).dropWhile Byte.isSpace with
  | [] => .error (.missingEquals size)
  | b :: behind =>
    if b != Byte.equals then .error (.missingEquals (size - (behind.length + 1)))
    else
      match seen.find? (·.1 == first :: more.takeWhile isKeyByte) with
      | some earlier => .error (.duplicated i earlier.2)
      | none =>
        match rawValue size behind with
        | .error fault => .error fault
        | .ok (value, rest) => .ok (⟨first :: more.takeWhile isKeyByte, i, value⟩, rest)

theorem length_dropWhile_le (p : UInt8 → Bool) (bytes : List UInt8) :
    (bytes.dropWhile p).length ≤ bytes.length :=
  (List.dropWhile_sublist p).length_le

theorem rawValue_length {size : Nat} {bytes value rest : List UInt8}
    (h : rawValue size bytes = .ok (value, rest)) : rest.length < bytes.length := by
  unfold rawValue at h
  split at h
  · cases h
  · rename_i q inner hq
    split at h
    · cases h
    · split at h
      · cases h
      · rename_i c behind hc
        cases h
        have h1 := length_dropWhile_le Byte.isSpace bytes
        have h2 := length_dropWhile_le (· != q) inner
        rw [hq] at h1; rw [hc] at h2
        simp only [List.length_cons] at h1 h2
        omega

theorem rawAttribute_length {size i : Nat} {seen : List (List UInt8 × Nat)} {first : UInt8}
    {more rest : List UInt8} {raw : RawAttribute}
    (h : rawAttribute size seen i first more = .ok (raw, rest)) : rest.length < more.length := by
  unfold rawAttribute at h
  split at h
  · cases h
  · rename_i b behind hb
    have h1 := length_dropWhile_le Byte.isSpace (more.dropWhile isKeyByte)
    have h2 := length_dropWhile_le isKeyByte more
    rw [hb, List.length_cons] at h1
    split at h
    · cases h
    · split at h
      · cases h
      · split at h
        · cases h
        · rename_i value behind' hv
          have h3 := rawValue_length hv
          cases h
          omega

/-- Reads the attributes in the rest of a tag of `size` bytes; `seen` holds the keys so far. -/
def attributesFrom (size : Nat) (seen : List (List UInt8 × Nat)) (bytes : List UInt8) :
    Except Fault (List Attribute) :=
  match _hb : bytes.dropWhile Byte.isSpace with
  | [] => .ok []
  | first :: more =>
    match _h : rawAttribute size seen (size - (more.length + 1)) first more with
    | .error fault => .error (.attribute fault)
    | .ok (raw, rest) => do
      let name ← decodeName raw.key
      let value ← decodeContent raw.value
      let others ← attributesFrom size (seen ++ [(raw.key, raw.start)]) rest
      return ⟨name, value⟩ :: others
termination_by bytes.length
decreasing_by
  have h1 := length_dropWhile_le Byte.isSpace bytes
  have h2 := rawAttribute_length _h
  rw [_hb, List.length_cons] at h1
  omega

/-- The tag that the bytes between two brackets write: the name up to the first space, then the
attributes. -/
def decodeTag (content : List UInt8) : Except Fault Tag := do
  let name ← decodeName (content.takeWhile (!Byte.isSpace ·))
  let attributes ← attributesFrom content.length [] (content.dropWhile (!Byte.isSpace ·))
  return ⟨name, attributes⟩

end SubtreeHarvest.Markup
