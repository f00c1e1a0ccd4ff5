/-
Readings: what was read from an element on request. A reading has the text if it was asked for, a
value for each attribute asked for, and for each relative selector asked for the readings of the
elements it reached, in the order of the document.

A reading is written as JSON on one line: an object with the text, left out where it was not asked for,
the attributes and the children, each in the order of the reading. A text is written with escapes for
quotes, the escape sign and control characters, and otherwise as it is.
-/
import SubtreeHarvest.Table
import SubtreeHarvest.Text.Quoted

namespace SubtreeHarvest

open Text

structure Reading where
  text : Option String
  /-- The values of the attributes asked for. -/
  values : Table String
  /-- The readings of the elements that a relative selector reached. -/
  under : Table (List Reading)

namespace Reading

/-- The values with the names of their attributes. -/
def attributes (r : Reading) : List (String × String) :=
  r.values.entries

/-- The relative selectors, each with its readings. -/
def children (r : Reading) : List (String × List Reading) :=
  r.under.entries

/-- The reading of nothing. -/
def empty : Reading :=
  ⟨none, .empty, .empty⟩

def setText (r : Reading) (text : String) : Reading :=
  { r with text := some text }

def setAttribute (r : Reading) (name value : String) : Reading :=
  { r with values := r.values.enter name value }

def setReadings (r : Reading) (selector : String) (readings : List Reading) : Reading :=
  { r with under := r.under.enter selector readings }

/-- The value of an attribute, if it was asked for. -/
def attribute? (r : Reading) (name : String) : Option String :=
  r.values.get? name

/-- The readings under a relative selector, if it was asked for. -/
def find? (r : Reading) (selector : String) : Option (List Reading) :=
  r.under.get? selector

/-! ## Equality in any order -/

/-- Whether two tables of attributes give the same names the same values. -/
def sameAttributes (as bs : Table String) : Bool :=
  as.names.toList.length == bs.names.toList.length &&
    as.entries.all fun (name, value) => bs.get? name == some value

mutual

/-- Whether two readings differ at most in the order of attributes and of selectors. -/
def same : Reading → Reading → Bool
  | ⟨text, values, under⟩, r =>
    text == r.text && sameAttributes values r.values &&
      under.names.toList.length == r.under.names.toList.length && sameRow under.row r.under

/-- Whether the readings in a row are the same as those under their names in a table. -/
def sameRow : {names : List String} → Row (List Reading) names → Table (List Reading) → Bool
  | _, .nil, _ => true
  | name :: _, .cons readings rest, others =>
    (match others.get? name with
      | some other => sameList readings other
      | none => false) && sameRow rest others

/-- Whether two lists of readings are the same one by one. -/
def sameList : List Reading → List Reading → Bool
  | [], [] => true
  | r :: rest, other :: others => same r other && sameList rest others
  | _, _ => false

end

/-! ## JSON -/

/-- A character inside a JSON string. -/
def jsonChar (c : Char) : List Char :=
  if c == '\x22' || c == '\\' then ['\\', c]
  else if c == '\x08' then ['\\', 'b']
  else if c == '\x0c' then ['\\', 'f']
  else if c == '\n' then ['\\', 'n']
  else if c == '\r' then ['\\', 'r']
  else if c == '\t' then ['\\', 't']
  else if c.toNat < 0x10 then ['\\', 'u', '0', '0', '0'] ++ hex c.toNat
  else if c.toNat < 0x20 then ['\\', 'u', '0', '0'] ++ hex c.toNat
  else [c]

def jsonString (s : String) : List Char :=
  '\x22' :: s.toList.flatMap jsonChar ++ ['\x22']

/-- Members of an object, each a key with the text of its value. -/
def jsonObject (members : List (String × List Char)) : List Char :=
  '\x7b' :: [','].intercalate (members.map fun (key, value) => jsonString key ++ ':' :: value) ++
    ['\x7d']

mutual

/-- A reading as JSON. -/
def json : Reading → List Char
  | ⟨text, values, under⟩ =>
    jsonObject <|
      (match text with
        | some text => [("text", jsonString text)]
        | none => []) ++
      [("attributes", jsonObject (values.entries.map fun (name, value) => (name, jsonString value))),
        ("children", jsonObject (jsonMembers under.row))]

/-- The readings in a row, as the members of an object. -/
def jsonMembers : {names : List String} → Row (List Reading) names → List (String × List Char)
  | _, .nil => []
  | name :: _, .cons readings rest =>
    (name, '[' :: [','].intercalate (jsonItems readings) ++ [']']) :: jsonMembers rest

/-- Readings as the items of an array. -/
def jsonItems : List Reading → List (List Char)
  | [] => []
  | r :: rest => json r :: jsonItems rest

end

end Reading

end SubtreeHarvest
