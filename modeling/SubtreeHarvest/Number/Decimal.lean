/-
Numbers from text: an optional sign, then digits with at most one point among them and an optional
exponent, or the word for infinity or for no number in letters of either case. Any other text is no
number.
-/
import SubtreeHarvest.Number.Shortest
import SubtreeHarvest.Text.Cut

namespace SubtreeHarvest.Number

open Text

def notANumber : Float := 0.0 / 0.0

def infinity : Float := 1.0 / 0.0

def isDigit (c : Char) : Bool :=
  '0' ≤ c && c ≤ '9'

/-- The number that decimal digits write. -/
def ofDigits (digits : List Char) : Nat :=
  digits.foldl (fun n c => 10 * n + (c.toNat - '0'.toNat)) 0

/-- The double nearest to `digits * 10 ^ power`. Beyond the bounds of doubles it is known without
computing the power. -/
def nearest (digits : List Char) (power : Int) : Float :=
  let digits := digits.dropWhile (· == '0')
  let size := (digits.length : Int) + power
  if digits.isEmpty || size < -400 then 0.0
  else if 400 < size then infinity
  else Float.ofScientific (ofDigits digits) (power < 0) power.natAbs

/-- Digits and a point among them, and what stands behind: the digits without the point, and how
many of them stand behind it. -/
def spanDigits (cs : List Char) : List Char × Nat × List Char :=
  let whole := cs.takeWhile isDigit
  match cs.dropWhile isDigit with
  | '.' :: rest => (whole ++ rest.takeWhile isDigit, (rest.takeWhile isDigit).length,
      rest.dropWhile isDigit)
  | rest => (whole, 0, rest)

/-- An exponent, which is nothing or a letter and a number. -/
def exponent? : List Char → Option Int
  | [] => some 0
  | c :: cs =>
    if c != 'e' && c != 'E' then none
    else
      let (negative, digits) := match cs with
        | '-' :: digits => (true, digits)
        | '+' :: digits => (false, digits)
        | digits => (false, digits)
      if digits.isEmpty || !digits.all isDigit then none
      else some (if negative then -(ofDigits digits : Int) else ofDigits digits)

/-- A number without a sign. -/
def unsigned? (cs : List Char) : Option Float :=
  let word := String.ofList (cs.map Char.toLower)
  if word = "inf" || word = "infinity" then some infinity
  else if word = "nan" then some notANumber
  else
    let (digits, places, rest) := spanDigits cs
    if digits.isEmpty then none
    else (exponent? rest).map fun power => nearest digits (power - places)

/-- The number that a text writes, white space around it not counted. -/
def read (s : String) : Float :=
  let value? := match trimmed s.toList with
    | '-' :: cs => (unsigned? cs).map Float.neg
    | '+' :: cs => unsigned? cs
    | cs => unsigned? cs
  value?.getD notANumber

/-! ## Rounding -/

/-- The nearest integer; of two that are as near the larger. Minus zero is kept. -/
def round (x : Float) : Float :=
  let down := x.floor
  if x == down then x
  else
    let nearer := (2.0 * x - down).floor
    if isNegative x != isNegative nearer then -nearer else nearer

/-- The remainder of a division that truncates toward zero: it has the sign of the dividend. -/
def remainder (x y : Float) : Float :=
  if x.isNaN || y.isNaN || x.isInf || y == 0.0 then notANumber
  else if y.isInf || x == 0.0 then x
  else
    let a := magnitude x
    let b := magnitude y
    let e := min a.exponent b.exponent
    let left := a.mantissa * Nat.pow 2 (a.exponent - e).toNat %
      (b.mantissa * Nat.pow 2 (b.exponent - e).toNat)
    let size := (Float.ofNat left).scaleB e
    if isNegative x then -size else size

end SubtreeHarvest.Number
