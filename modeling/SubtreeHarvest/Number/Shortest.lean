/-
Numbers as text: the fewest digits that read back as the number, of those the nearest to it, and of
two that are as near the larger; positional at every size, without an exponent.
-/

namespace SubtreeHarvest.Number

/-! ## A double as an integer and a power of two -/

/-- A finite positive double: `mantissa * 2 ^ exponent`. -/
structure Magnitude where
  mantissa : Nat
  exponent : Int

def biasedExponent (x : Float) : Nat :=
  (x.toBits >>> 52).toNat % 0x800

def fraction (x : Float) : Nat :=
  x.toBits.toNat % Nat.pow 2 52

/-- The least exponent, of the numbers that have no leading bit of their own. -/
def leastExponent : Int := -1074

def magnitude (x : Float) : Magnitude :=
  if biasedExponent x = 0 then ⟨fraction x, leastExponent⟩
  else ⟨Nat.pow 2 52 + fraction x, leastExponent + (biasedExponent x - 1 : Nat)⟩

def isNegative (x : Float) : Bool :=
  x.toBits >>> 63 == 1

/-- Numerator and denominator of `n * 2 ^ e`. -/
def ratio (n : Nat) (e : Int) : Nat × Nat :=
  (n * Nat.pow 2 e.toNat, Nat.pow 2 (-e).toNat)

/-! ## Digits -/

/-- A decimal: `digits * 10 ^ power`. -/
structure Decimal where
  digits : Nat
  power : Int

/-- Whether a decimal lies between two ratios, the ends included where `closed` says so. -/
def Decimal.within (d : Decimal) (closed : Bool) (low high : Nat × Nat) : Bool :=
  let num := d.digits * Nat.pow 10 d.power.toNat
  let den := Nat.pow 10 (-d.power).toNat
  let above := low.1 * den
  let below := high.1 * den
  if closed then above ≤ num * low.2 && num * high.2 ≤ below
  else above < num * low.2 && num * high.2 < below

/-- The ends of the interval of reals that round to a magnitude. Below a power of two the doubles
lie twice as close. -/
def interval (m : Magnitude) : (Nat × Nat) × (Nat × Nat) :=
  let below := if m.mantissa = Nat.pow 2 52 ∧ leastExponent < m.exponent then 1 else 2
  (ratio (4 * m.mantissa - below) (m.exponent - 2), ratio (4 * m.mantissa + 2) (m.exponent - 2))

/-- How many digits a magnitude has before the point; not above zero for one below a tenth. -/
def pointPosition (m : Magnitude) : Int :=
  let (num, den) := ratio m.mantissa m.exponent
  ((Nat.toDigits 10 (num * Nat.pow 10 400 / den)).length : Int) - 400

/-- The decimals of `n` digits on either side of a magnitude, the nearer first. -/
def neighbours (m : Magnitude) (n : Nat) : List Decimal :=
  let power := pointPosition m - n
  let (num, den) := ratio m.mantissa m.exponent
  let num := num * Nat.pow 10 (-power).toNat
  let den := den * Nat.pow 10 power.toNat
  let down := num / den
  let remainder := num % den
  if den ≤ 2 * remainder then [⟨down + 1, power⟩, ⟨down, power⟩]
  else [⟨down, power⟩, ⟨down + 1, power⟩]

/-- The first decimal that reads back, tried with `n` digits, then with more. -/
def search (m : Magnitude) : Nat → Nat → Decimal
  | 0, _ => ⟨m.mantissa, 0⟩
  | more + 1, n =>
    let (low, high) := interval m
    match (neighbours m n).find? (·.within (m.mantissa % 2 == 0) low high) with
    | some decimal => decimal
    | none => search m more (n + 1)

/-- The decimal with the fewest digits that reads back; seventeen always do. -/
def shortest (m : Magnitude) : Decimal :=
  search m 17 1

/-! ## Positional text -/

/-- The digits without the zeros at their end. -/
def withoutTrailingZeros (digits : List Char) : List Char :=
  (digits.reverse.dropWhile (· == '0')).reverse

/-- A decimal written with its point where it belongs. -/
def Decimal.positional (d : Decimal) : List Char :=
  let digits := Nat.toDigits 10 d.digits
  if 0 ≤ d.power then digits ++ List.replicate d.power.toNat '0'
  else
    let places := (-d.power).toNat
    let padded := List.replicate (places + 1 - digits.length) '0' ++ digits
    let whole := padded.take (padded.length - places)
    let part := withoutTrailingZeros (padded.drop (padded.length - places))
    if part.isEmpty then whole else whole ++ '.' :: part

/-- A number as text. -/
def text (x : Float) : String :=
  if x.isNaN then "NaN"
  else if x.isInf then if isNegative x then "-Infinity" else "Infinity"
  else
    let m := magnitude x
    let sign := if isNegative x then ['-'] else []
    if m.mantissa = 0 then String.ofList (sign ++ ['0'])
    else String.ofList (sign ++ (shortest m).positional)

end SubtreeHarvest.Number
