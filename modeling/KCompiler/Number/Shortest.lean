import KCompiler.Number.Binary64

/-! # The shortest decimal of a double

Of all decimals that round to a double, the one with the fewest digits, and of
these the nearest to it. The search goes through the grids of multiples of ever
smaller powers of ten; on each, only the two neighbours of the double need a look.
-/

namespace KCompiler.Number

/-- A decimal `digits * 10 ^ exponent`. -/
structure Decimal where
  digits : Nat
  exponent : Int
  deriving DecidableEq, Repr

/-- The reals that round to a double, as multiples of a quarter of its unit:
`low` and `high` are the ends, which belong to it if `closed`. -/
structure Interval where
  low : Nat
  value : Nat
  high : Nat
  closed : Bool
  /-- The power of two that is a quarter of the unit. -/
  quarter : Int

/-- The interval of a positive finite double. Below a power of two the doubles lie
twice as close. -/
def Binary64.interval (x : Binary64) : Interval where
  low := 4 * x.mantissa - (if x.mantissa = hiddenBit ∧ x.exponent ≠ -1074 then 1 else 2)
  value := 4 * x.mantissa
  high := 4 * x.mantissa + 2
  closed := x.mantissa % 2 = 0
  quarter := x.exponent - 2

/-- Whether `count * 10 ^ power` lies in the interval. Both sides are compared as
natural numbers, `count * units` against the ends times `grid`. -/
def Interval.holds (interval : Interval) (units grid count : Nat) : Bool :=
  if interval.closed then
    interval.low * grid ≤ count * units && count * units ≤ interval.high * grid
  else
    interval.low * grid < count * units && count * units < interval.high * grid

/-- The neighbour of the value on the grid of multiples of `10 ^ power` that lies in
the interval, the nearer one if both do, the even one if they are as near. -/
def Interval.onGrid? (interval : Interval) (power : Int) : Option Nat :=
  let units := Nat.pow 10 power.toNat <<< (-interval.quarter).toNat
  let grid := Nat.pow 10 (-power).toNat <<< interval.quarter.toNat
  let below := interval.value * grid / units
  let gap := interval.value * grid % units
  let nearer :=
    if 2 * gap < units then below
    else if units < 2 * gap then below + 1
    else if below % 2 = 0 then below else below + 1
  let farther := if nearer = below then below + 1 else below
  if interval.holds units grid nearer then some nearer
  else if interval.holds units grid farther then some farther
  else none

/-- The first grid, from `10 ^ power` downwards, with a multiple in the interval. -/
def Interval.search (interval : Interval) (power : Int) : Nat → Decimal
  | 0 => ⟨0, 0⟩
  | steps + 1 =>
    match interval.onGrid? power with
    | some digits => ⟨digits, power⟩
    | none => interval.search (power - 1) steps

/-- The shortest decimal of a positive finite double. The search starts above its
order of magnitude and needs no more than seventeen digits. -/
def Binary64.shortest (x : Binary64) : Decimal :=
  let bits : Int := (x.mantissa.log2 : Int) + 1 + x.exponent
  x.interval.search (Int.fdiv (bits * 30103) 100000 + 2) 24

/-- Where positional writing begins and ends, by the exponent of the first digit. -/
structure DecimalFormat where
  leastPositional : Int
  greatestPositional : Int

/-- Numbers from `1e-4` up to, but not including, `1e16` are written positionally. -/
def plainFormat : DecimalFormat := ⟨-4, 15⟩

/-- Writes a decimal with a point or with an exponent; a positional text always has
a point with a digit on either side. -/
def DecimalFormat.write (format : DecimalFormat) (decimal : Decimal) : String :=
  let digits := Nat.toDigits 10 decimal.digits
  let point : Int := digits.length + decimal.exponent
  let leading := point - 1
  let zeros (count : Int) := List.replicate count.toNat '0'
  String.ofList <|
    if format.leastPositional ≤ leading ∧ leading ≤ format.greatestPositional then
      if point ≤ 0 then ['0', '.'] ++ zeros (-point) ++ digits
      else if 0 ≤ decimal.exponent then digits ++ zeros decimal.exponent ++ ['.', '0']
      else digits.take point.toNat ++ ['.'] ++ digits.drop point.toNat
    else
      let fraction := if digits.length = 1 then [] else '.' :: digits.tail
      digits.take 1 ++ fraction ++ ['e'] ++ (toString leading).toList

/-- The text of a double that reads back as the same double. -/
def Binary64.text (x : Binary64) : String :=
  if x.isNaN then "NaN"
  else
    let sign := if x.isNegative then "-" else ""
    if x.isInfinite then sign ++ "inf"
    else if x.magnitude = 0 then sign ++ "0.0"
    else sign ++ plainFormat.write x.shortest

end KCompiler.Number
