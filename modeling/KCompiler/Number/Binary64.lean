/-! # Binary floating point of 64 bits

A double is kept as its bit pattern. A finite one stands for `mantissa * 2 ^ exponent`
with a natural mantissa below `2 ^ 53`; a positive ratio is rounded to the nearest
double, a tie to the even mantissa, all in exact arithmetic.
-/

namespace KCompiler.Number

/-- A double, by its bits: sign, eleven bits of exponent, 52 bits of fraction. -/
structure Binary64 where
  bits : UInt64
  deriving DecidableEq, Repr, Inhabited

namespace Binary64

/-- The bits of infinity, and the first pattern that is no finite magnitude. -/
def infinityBits : Nat := 0x7ff0000000000000

/-- The bit of the sign. -/
def signBit : Nat := 1 <<< 63

/-- The bit above the fraction, which a pattern leaves out. -/
def hiddenBit : Nat := 1 <<< 52

def zero : Binary64 := ⟨0⟩

def infinity : Binary64 := ⟨UInt64.ofNat infinityBits⟩

def nan : Binary64 := ⟨0x7ff8000000000000⟩

def isNegative (x : Binary64) : Bool :=
  signBit ≤ x.bits.toNat

/-- The bits without the sign. -/
def magnitude (x : Binary64) : Nat :=
  x.bits.toNat % signBit

/-- The same magnitude with the other sign. -/
def negate (x : Binary64) : Binary64 :=
  ⟨UInt64.ofNat ((x.bits.toNat + signBit) % UInt64.size)⟩

def isInfinite (x : Binary64) : Bool :=
  x.magnitude == infinityBits

def isNaN (x : Binary64) : Bool :=
  infinityBits < x.magnitude

/-- The mantissa of a finite double: the fraction, with the hidden bit if there is one. -/
def mantissa (x : Binary64) : Nat :=
  if x.magnitude < hiddenBit then x.magnitude else x.magnitude % hiddenBit + hiddenBit

/-- The power of two that the mantissa of a finite double counts. -/
def exponent (x : Binary64) : Int :=
  if x.magnitude < hiddenBit then -1074 else (x.magnitude / hiddenBit : Nat) - 1075

/-- The natural number nearest to a ratio, a tie going to the even one. -/
def roundRatio (numerator denominator : Nat) : Nat :=
  let floor := numerator / denominator
  let twice := 2 * (numerator % denominator)
  if twice < denominator then floor
  else if denominator < twice then floor + 1
  else if floor % 2 = 0 then floor else floor + 1

/-- Multiplies a ratio by a power of two. -/
def scale (numerator denominator : Nat) (power : Int) : Nat × Nat :=
  (numerator <<< power.toNat, denominator <<< (-power).toNat)

/-- The exponent `e` with `2 ^ e ≤ ratio < 2 ^ (e + 1)`, for a positive ratio. -/
def floorLog (numerator denominator : Nat) : Int :=
  let estimate : Int := (numerator.log2 : Int) - denominator.log2
  let scaled := scale numerator denominator (-estimate)
  if scaled.2 ≤ scaled.1 then estimate else estimate - 1

/-- The double nearest to a ratio, a tie going to the even mantissa; infinity when
the ratio is past the largest double by half a unit or more. -/
def ofRatio (numerator denominator : Nat) : Binary64 :=
  if numerator = 0 then zero
  else
    let unit := max (floorLog numerator denominator - 52) (-1074)
    let scaled := scale numerator denominator (-unit)
    let bits := (unit + 1074).toNat * hiddenBit + roundRatio scaled.1 scaled.2
    ⟨UInt64.ofNat (min bits infinityBits)⟩

end Binary64
end KCompiler.Number
