/-
Chains of steps. A path is matched step by step from the top of the document down: the first step
of the chain is offered each start tag, and what comes of it is that the element is the one looked
for, that the search goes on inside it with a chain, or that the element is of no interest.

A step may have a predicate on the attributes. A bracket group of the form `@name='value'`, with quotes
of either kind, tests an attribute for a value. A group of any other form tests nothing, so that it
widens what is matched instead of refusing the expression.
-/
import SubtreeHarvest.EventStream
import SubtreeHarvest.Text.Cut

namespace SubtreeHarvest

open Text

/-! ## Predicates -/

inductive Predicate
  /-- Some attribute has the name and the value. -/
  | equals (name value : String)
  /-- Every test holds. -/
  | all (tests : List Predicate)

namespace Predicate

mutual

/-- Equality of predicates. -/
def decEq : (p q : Predicate) → Decidable (p = q)
  | .equals n v, .equals n' v' =>
    decidable_of_iff (n = n' ∧ v = v') (by simp)
  | .all ps, .all qs =>
    match decEqTests ps qs with
    | isTrue h => isTrue (by rw [h])
    | isFalse h => isFalse fun e => h (by injection e)
  | .equals _ _, .all _ => isFalse nofun
  | .all _, .equals _ _ => isFalse nofun

/-- Equality of lists of predicates. -/
def decEqTests : (ps qs : List Predicate) → Decidable (ps = qs)
  | [], [] => isTrue rfl
  | p :: ps, q :: qs =>
    match decEq p q, decEqTests ps qs with
    | isTrue h, isTrue hs => isTrue (by rw [h, hs])
    | isFalse h, _ => isFalse fun e => h (by injection e)
    | _, isFalse hs => isFalse fun e => hs (by injection e)
  | [], _ :: _ => isFalse nofun
  | _ :: _, [] => isFalse nofun

end

instance : DecidableEq Predicate := decEq

mutual

/-- Whether attributes satisfy a predicate. -/
def holds (attributes : List Attribute) : Predicate → Bool
  | .equals name value => attributes.any fun a => a.name == name && a.value == value
  | .all tests => allHold attributes tests

/-- Whether attributes satisfy every one of some predicates. -/
def allHold (attributes : List Attribute) : List Predicate → Bool
  | [] => true
  | test :: tests => holds attributes test && allHold attributes tests

end

theorem allHold_eq_all (attributes : List Attribute) (tests : List Predicate) :
    allHold attributes tests = tests.all (holds attributes) := by
  induction tests with
  | nil => rw [allHold]; rfl
  | cons test tests ih => rw [allHold, ih, List.all_cons]

/-! ## Reading -/

/-- The texts from each opening bracket to the next closing one, looked for from left to right. -/
def groups (tail : List Char) : List (List Char) :=
  match _opened : tail.dropWhile (· != '[') with
  | [] => []
  | _ :: inner =>
    match _closed : inner.dropWhile (· != ']') with
    | [] => []
    | _ :: behind => inner.takeWhile (· != ']') :: groups behind
termination_by tail.length
decreasing_by
  have h1 := (List.dropWhile_sublist (· != '[') (l := tail)).length_le
  have h2 := (List.dropWhile_sublist (· != ']') (l := inner)).length_le
  rw [_opened, List.length_cons] at h1
  rw [_closed, List.length_cons] at h2
  omega

/-- Every way to part characters at an equals sign, the leftmost sign first. -/
def partings : List Char → List (List Char × List Char)
  | [] => []
  | c :: cs =>
    let later := (partings cs).map fun (before, behind) => (c :: before, behind)
    if c == '=' then ([], cs) :: later else later

/-- What stands between two quotes of one kind, if it is not empty. -/
def unquoted? : List Char → Option (List Char)
  | [] => none
  | q :: inner =>
    if (q == '\x27' || q == '\x22') && inner.getLast? == some q && 2 ≤ inner.length then
      some inner.dropLast
    else none

/-- The test that one parting of a group writes. -/
def ofParting? (parting : List Char × List Char) : Option Predicate :=
  if parting.1.isEmpty then none
  else (unquoted? parting.2).map fun value =>
    .equals (String.ofList parting.1) (String.ofList value)

/-- The test that a group writes: the rightmost equals sign that makes one counts. -/
def ofGroup? (group : List Char) : Option Predicate :=
  match trimmed group with
  | '@' :: body => (partings body).reverse.findSome? ofParting?
  | _ => none

/-- The predicate that bracket groups write: all of their tests. -/
def parse (tail : List Char) : Predicate :=
  .all ((groups tail).filterMap ofGroup?)

end Predicate

/-! ## Steps -/

/-- One step of a path. -/
structure Step where
  /-- The name an element must have; `none` leaves it open. -/
  name : Option String
  predicate : Option Predicate
  /-- Whether elements may lie between the step before and this one. -/
  recursive : Bool
  deriving DecidableEq

def Step.admits (step : Step) (tag : Tag) : Bool :=
  step.name.all (· == tag.name) && step.predicate.all (·.holds tag.attributes)

/-- A step to be matched next, and the steps to be matched inside of it. -/
structure Chain where
  first : Step
  later : List Step
  deriving DecidableEq

/-- What comes of offering a start tag to a chain. -/
inductive Verdict
  /-- The element is looked for: the last step matches. -/
  | capture
  /-- The search goes on inside the element. -/
  | descend (chain : Chain)
  /-- Nothing inside the element is looked for. -/
  | skip
  deriving DecidableEq

namespace Chain

/-- The chain that matches every element. -/
def anyElement : Chain :=
  ⟨⟨none, none, true⟩, []⟩

def steps (chain : Chain) : List Step :=
  chain.first :: chain.later

def offer (chain : Chain) (tag : Tag) : Verdict :=
  if chain.first.admits tag then
    match chain.later with
    | [] => .capture
    | step :: later => .descend ⟨step, later⟩
  else if chain.first.recursive then .descend chain
  else .skip

end Chain

end SubtreeHarvest
