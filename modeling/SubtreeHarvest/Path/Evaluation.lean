/-
Evaluation of expressions. The right side of `and` and of `or` is evaluated only where the left one
does not decide, and predicates only at the places that there are.
-/
import SubtreeHarvest.Path.Expression
import SubtreeHarvest.Path.Function

namespace SubtreeHarvest.Path

open Document

/-- Contexts for the places of a list, numbered in its order. -/
def Context.among (context : Context) (places : List Place) : List Context :=
  (places.zipIdx 1).map fun (place, i) =>
    { context with place, position := i, size := places.length }

/-- Whether the value of a predicate lets a place through: a number stands for the position that
is left when its fraction is cut off. -/
def Value.admits (context : Context) : Value → Bool
  | .number x => UInt64.ofNat context.position == x.toUInt64
  | value => value.toBool

namespace Operator

/-- The value of an operator at two values. -/
def apply (document : Document) (operator : Operator) (left right : Value) : Function.Evaluated :=
  let x := left.toNumber document
  let y := right.toNumber document
  match operator with
  | .or => .ok (.boolean (left.toBool || right.toBool))
  | .and => .ok (.boolean (left.toBool && right.toBool))
  | .equal => .ok (.boolean (left.equal document right))
  | .unequal => .ok (.boolean !(left.equal document right))
  | .less => .ok (.boolean (x < y))
  | .lessEqual => .ok (.boolean (x ≤ y))
  | .greater => .ok (.boolean (y < x))
  | .greaterEqual => .ok (.boolean (y ≤ x))
  | .plus => .ok (.number (x + y))
  | .minus => .ok (.number (x - y))
  | .times => .ok (.number (x * y))
  | .divide => .ok (.number (x / y))
  | .remainder => .ok (.number (Number.remainder x y))
  | .union => do
    let ps ← Function.placesOf left
    let qs ← Function.placesOf right
    return .ofPlaces (ps ++ qs)

/-- The value of an operator that its left operand alone decides. -/
def decided? (operator : Operator) (left : Value) : Option Value :=
  match operator with
  | .or => if left.toBool then some (.boolean true) else none
  | .and => if left.toBool then none else some (.boolean false)
  | _ => none

end Operator

mutual

/-- The value of an expression at a place. -/
def evaluate (context : Context) : Expression → Except EvaluationError Value
  | .number x => .ok (.number x)
  | .literal text => .ok (.text text)
  | .variable name => .error (.unknownVariable name)
  | .here => .ok (.places [context.place])
  | .root => .ok (.places [Place.top])
  | .call function arguments => do
    let values ← evaluateAll context arguments
    Function.call context function values
  | .negate operand => do
    let value ← evaluate context operand
    return .number (-(value.toNumber context.document))
  | .binary operator left right => do
    let l ← evaluate context left
    match operator.decided? l with
    | some value => return value
    | none => do
      let r ← evaluate context right
      operator.apply context.document l r
  | .step start axis test predicates => do
    let places ← Function.placesOf (← evaluate context start)
    let found ← places.mapM fun place =>
      keepAll context predicates (test.select context.document axis place)
    return .ofPlaces found.flatten
  | .filter start predicate => do
    let places ← Function.placesOf (← evaluate context start)
    let kept ← (context.among places).filterM fun context => do
      return (← evaluate context predicate).admits context
    return .places (kept.map Context.place)

/-- The values of expressions, up to the first that has none. -/
def evaluateAll (context : Context) : List Expression → Except EvaluationError (List Value)
  | [] => .ok []
  | expression :: rest => do
    let value ← evaluate context expression
    let values ← evaluateAll context rest
    return value :: values

/-- The places that predicates let through one after the other, each counting anew. -/
def keepAll (context : Context) : List Expression → List Place →
    Except EvaluationError (List Place)
  | [], places => .ok places
  | predicate :: rest, places => do
    let kept ← (context.among places).filterM fun context => do
      return (← evaluate context predicate).admits context
    keepAll context rest (kept.map Context.place)

end

/-- The elements that an expression selects from the tree at a path; none where its value is not a
set of places. -/
def selectElements (document : Document) (path : List Nat) (expression : Expression) :
    Except EvaluationError (List (List Nat)) := do
  match ← evaluate ⟨document, ⟨path, .whole⟩, 1, 1⟩ expression with
  | .places places =>
    return (places.filter fun place => (document.node? place).any Node.isElement).map Place.path
  | _ => return []

end SubtreeHarvest.Path
