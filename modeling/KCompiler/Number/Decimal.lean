import KCompiler.Number.Binary64

/-! # Doubles in text

Reading a decimal text as the nearest double: an optional sign, then `inf`,
`infinity` or `nan` in any case, or digits with at most one point among them and
an optional exponent. At least one digit is needed, and one in the exponent.
-/

namespace KCompiler.Number

/-- Why a text is not a number. -/
inductive DecimalError where
  | empty
  | invalid
  deriving DecidableEq, Repr

def DecimalError.message : DecimalError → String
  | .empty => "cannot parse float from empty string"
  | .invalid => "invalid float literal"

/-- The value of a run of decimal digits. -/
def decimalValue (digits : List Char) : Nat :=
  digits.foldl (fun value c => value * 10 + (c.toNat - '0'.toNat)) 0

/-- The double nearest to `digits * 10 ^ exponent`. Exponents far out of range are
settled without computing the power. -/
def Binary64.ofDecimal (digits : Nat) (exponent : Int) : Binary64 :=
  let places : Int := (Nat.toDigits 10 digits).length
  if digits = 0 ∨ exponent + places < -400 then zero
  else if 400 < exponent + places then infinity
  else ofRatio (digits * Nat.pow 10 exponent.toNat) (Nat.pow 10 (-exponent).toNat)

/-- Reads the exponent after the digits: nothing, or a mark, a sign and digits. -/
def readExponent : List Char → Option Int
  | [] => some 0
  | mark :: rest =>
    if mark ≠ 'e' ∧ mark ≠ 'E' then none
    else
      let negative := rest.head? == some '-'
      let digits := if negative || rest.head? == some '+' then rest.tail else rest
      if digits.isEmpty || !digits.all Char.isDigit then none
      else if negative then some (-(decimalValue digits : Int)) else some (decimalValue digits)

/-- Reads digits with a point and an exponent. -/
def readDecimal (text : List Char) : Option Binary64 :=
  let whole := text.takeWhile Char.isDigit
  let afterWhole := text.dropWhile Char.isDigit
  let pointed := afterWhole.head? == some '.'
  let fraction := if pointed then afterWhole.tail.takeWhile Char.isDigit else []
  let rest := if pointed then afterWhole.tail.dropWhile Char.isDigit else afterWhole
  if whole.isEmpty && fraction.isEmpty then none
  else (readExponent rest).map fun exponent =>
    Binary64.ofDecimal (decimalValue (whole ++ fraction)) (exponent - fraction.length)

/-- Reads an unsigned text: a word or a decimal. -/
def readMagnitude (text : List Char) : Option Binary64 :=
  let word := String.ofList (text.map Char.toLower)
  if word = "inf" ∨ word = "infinity" then some .infinity
  else if word = "nan" then some .nan
  else readDecimal text

/-- Reads a text as the nearest double. -/
def readDouble : List Char → Except DecimalError Binary64
  | [] => .error .empty
  | '-' :: text => ((readMagnitude text).map Binary64.negate).elim (.error .invalid) .ok
  | '+' :: text => (readMagnitude text).elim (.error .invalid) .ok
  | text => (readMagnitude text).elim (.error .invalid) .ok

end KCompiler.Number
