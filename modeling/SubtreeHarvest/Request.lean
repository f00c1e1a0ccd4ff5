/-
Requests: what to read from an element. A request asks for the text of the element, for attributes
by name, and for the elements that relative selectors reach, each with a request of its own.
Attribute names keep the order in which they first came, and so do selectors; a selector that comes
again has its request replaced. Two requests are the same when they ask for the same in any order.
-/
import SubtreeHarvest.Table

namespace SubtreeHarvest

structure Request where
  wantsText : Bool
  /-- The names of the attributes asked for. -/
  names : Names
  /-- What is asked of the elements that a relative selector reaches. -/
  under : Table Request

namespace Request

/-- The names of the attributes asked for, in order. -/
def attributes (r : Request) : List String :=
  r.names.toList

/-- The relative selectors, each with its request. -/
def children (r : Request) : List (String × Request) :=
  r.under.entries

/-- The request that asks for nothing. -/
def empty : Request :=
  ⟨false, .empty, .empty⟩

def askText (r : Request) : Request :=
  { r with wantsText := true }

def askAttribute (r : Request) (name : String) : Request :=
  { r with names := r.names.insert name }

def askAttributes (r : Request) (names : List String) : Request :=
  names.foldl askAttribute r

def askChild (r : Request) (selector : String) (child : Request) : Request :=
  { r with under := r.under.enter selector child }

mutual

/-- Every relative selector of a request: its own first, then those of its children's requests,
the last child first. -/
def selectors : Request → List String
  | ⟨_, _, under⟩ => under.names.toList ++ rowSelectors under.row

/-- The relative selectors of the requests in a row, the last one first. -/
def rowSelectors : {names : List String} → Row Request names → List String
  | _, .nil => []
  | _, .cons child rest => rowSelectors rest ++ selectors child

end

mutual

/-- Whether two requests ask for the same. -/
def same : Request → Request → Bool
  | ⟨wantsText, names, under⟩, r =>
    wantsText == r.wantsText && names.toList.length == r.names.toList.length &&
      names.toList.all r.names.toList.contains &&
      under.names.toList.length == r.under.names.toList.length && sameRow under.row r.under

/-- Whether each request in a row is the same as the one under its name in a table. -/
def sameRow : {names : List String} → Row Request names → Table Request → Bool
  | _, .nil, _ => true
  | name :: _, .cons child rest, others =>
    (match others.get? name with
      | some other => same child other
      | none => false) && sameRow rest others

end

end Request

end SubtreeHarvest
