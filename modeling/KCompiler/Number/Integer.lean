/-! # Integers in text

Signed 64-bit integers written in a radix up to 16, with an optional sign. The
text is read from left to right and the first offending character decides what is
wrong with it; a character that is no digit is never taken for an overflow.
-/

namespace KCompiler.Number

/-- Why a text is not a signed 64-bit integer. -/
inductive IntegerError where
  | empty
  | invalidDigit
  | tooLarge
  | tooSmall
  deriving DecidableEq, Repr

def IntegerError.message : IntegerError → String
  | .empty => "cannot parse integer from empty string"
  | .invalidDigit => "invalid digit found in string"
  | .tooLarge => "number too large to fit in target type"
  | .tooSmall => "number too small to fit in target type"

/-- The value of a digit in any radix up to 16. -/
def hexValue? (c : Char) : Option Nat :=
  if '0' ≤ c ∧ c ≤ '9' then some (c.toNat - '0'.toNat)
  else if 'a' ≤ c ∧ c ≤ 'f' then some (c.toNat - 'a'.toNat + 10)
  else if 'A' ≤ c ∧ c ≤ 'F' then some (c.toNat - 'A'.toNat + 10)
  else none

/-- The value of a digit of the radix. -/
def digit? (radix : Nat) (c : Char) : Option Nat :=
  (hexValue? c).filter (· < radix)

theorem hexValue?_digitChar : ∀ n < 16, hexValue? (Nat.digitChar n) = some n := by
  decide

theorem digit?_digitChar {radix n : Nat} (hradix : radix ≤ 16) (hn : n < radix) :
    digit? radix (Nat.digitChar n) = some n := by
  rw [digit?, hexValue?_digitChar n (Nat.lt_of_lt_of_le hn hradix)]
  simp [hn]

/-- Induction over the digits of a number, the last one split off at each step. -/
theorem digitInduction {radix : Nat} (hradix : 1 < radix) {motive : Nat → Prop}
    (single : ∀ n < radix, motive n) (step : ∀ n, radix ≤ n → motive (n / radix) → motive n)
    (n : Nat) : motive n := by
  induction n using Nat.strongRecOn with
  | ind n ih =>
      by_cases hn : n < radix
      · exact single n hn
      · have hle : radix ≤ n := Nat.le_of_not_lt hn
        exact step n hle (ih _ (Nat.div_lt_self (by omega) hradix))

/-- Reads digits after those already worth `value`, never going beyond `limit`. -/
def readDigits (radix limit : Nat) (overflow : IntegerError) (value : Nat) :
    List Char → Except IntegerError Nat
  | [] => .ok value
  | c :: cs =>
    match digit? radix c with
    | none => .error .invalidDigit
    | some d =>
      if value * radix + d ≤ limit then readDigits radix limit overflow (value * radix + d) cs
      else .error overflow

/-- The largest signed 64-bit integer. -/
def maxInteger : Nat := (1 <<< 63) - 1

/-- Reads a signed 64-bit integer in a radix. A sign needs a digit after it. -/
def readInteger (radix : Nat) : List Char → Except IntegerError Int
  | [] => .error .empty
  | ['+'] => .error .invalidDigit
  | ['-'] => .error .invalidDigit
  | '+' :: digits => (readDigits radix maxInteger .tooLarge 0 digits).map Int.ofNat
  | '-' :: digits => (readDigits radix (maxInteger + 1) .tooSmall 0 digits).map fun n => -Int.ofNat n
  | digits => (readDigits radix maxInteger .tooLarge 0 digits).map Int.ofNat

end KCompiler.Number
