import KCompiler.Number.Shortest
import Mathlib.Algebra.Order.Field.Rat
import Mathlib.Order.Monotone.Basic
import Mathlib.Tactic.Linarith
import Mathlib.Tactic.Ring

/-! # Doubles and their neighbours

The doubles from zero on are numbered by their bits. Each is a whole multiple of the smallest one,
and the step to the next one is a power of two. The reals that round to a double lie between the
middles to its two neighbours; a middle belongs to the neighbour of even number. So no real rounds
to two doubles.
-/

namespace KCompiler.Number

namespace Binary64

theorem hiddenBit_eq : hiddenBit = 4503599627370496 := rfl

/-- The mantissa of a double by its number. -/
def mantissaAt (n : Nat) : Nat :=
  if n < hiddenBit then n else n % hiddenBit + hiddenBit

/-- The power of two, in units of the smallest double, that the mantissa counts. -/
def powerAt (n : Nat) : Nat :=
  n / hiddenBit - 1

/-- A double by its number, in units of the smallest one. -/
def unitsAt (n : Nat) : Nat :=
  mantissaAt n * 2 ^ powerAt n

/-- Twice the middle between a double and the next one, in units of the smallest double. -/
def middleAt (n : Nat) : Nat :=
  unitsAt n + unitsAt (n + 1)

theorem mantissa_eq (x : Binary64) : x.mantissa = mantissaAt x.magnitude := rfl

theorem exponent_eq (x : Binary64) : x.exponent = (powerAt x.magnitude : Int) - 1074 := by
  unfold exponent powerAt
  rw [hiddenBit_eq]
  split <;> omega

/-! ## Steps -/

theorem at_of_lt {n : Nat} (hn : n < hiddenBit) : mantissaAt n = n ∧ powerAt n = 0 := by
  rw [mantissaAt, powerAt, if_pos hn, Nat.div_eq_of_lt hn]
  exact ⟨rfl, rfl⟩

/-- The doubles of the same exponent. -/
theorem at_of_block {power fraction : Nat} (hfraction : fraction < hiddenBit) :
    mantissaAt ((power + 1) * hiddenBit + fraction) = fraction + hiddenBit ∧
      powerAt ((power + 1) * hiddenBit + fraction) = power := by
  rw [mantissaAt, powerAt]
  rw [hiddenBit_eq] at *
  rw [if_neg (by omega)]
  constructor <;> omega

/-- Every number is below the first block, or in one. -/
theorem exists_block {n : Nat} (hn : ¬n < hiddenBit) :
    ∃ power fraction, fraction < hiddenBit ∧ n = (power + 1) * hiddenBit + fraction := by
  refine ⟨n / hiddenBit - 1, n % hiddenBit, Nat.mod_lt _ (by decide), ?_⟩
  rw [hiddenBit_eq] at *
  omega

theorem unitsAt_succ (n : Nat) : unitsAt (n + 1) = unitsAt n + 2 ^ powerAt n := by
  unfold unitsAt
  by_cases hn : n < hiddenBit
  · rw [(at_of_lt hn).1, (at_of_lt hn).2]
    by_cases hnext : n + 1 < hiddenBit
    · rw [(at_of_lt hnext).1, (at_of_lt hnext).2]
      ring
    · obtain hend : n + 1 = (0 + 1) * hiddenBit + 0 := by omega
      rw [hend, (at_of_block (by decide)).1, (at_of_block (by decide)).2]
      omega
  · obtain ⟨power, fraction, hfraction, rfl⟩ := exists_block hn
    rw [(at_of_block hfraction).1, (at_of_block hfraction).2]
    by_cases hnext : fraction + 1 < hiddenBit
    · rw [Nat.add_assoc, (at_of_block hnext).1, (at_of_block hnext).2]
      ring
    · -- The first double of the next block.
      obtain hend : (power + 1) * hiddenBit + fraction + 1 = (power + 1 + 1) * hiddenBit + 0 := by
        rw [Nat.add_mul (power + 1)]
        omega
      obtain hlast : fraction + hiddenBit + 1 = 2 * hiddenBit := by omega
      rw [hend, (at_of_block (by decide)).1, (at_of_block (by decide)).2, Nat.pow_succ]
      calc (0 + hiddenBit) * (2 ^ power * 2) = 2 * hiddenBit * 2 ^ power := by ring
        _ = (fraction + hiddenBit + 1) * 2 ^ power := by rw [hlast]
        _ = (fraction + hiddenBit) * 2 ^ power + 2 ^ power := by ring

theorem unitsAt_lt_succ (n : Nat) : unitsAt n < unitsAt (n + 1) := by
  rw [unitsAt_succ]
  exact Nat.lt_add_of_pos_right (Nat.two_pow_pos _)

theorem strictMono_middleAt : StrictMono middleAt := by
  refine strictMono_nat_of_lt_succ fun n => ?_
  have hfirst := unitsAt_lt_succ n
  have hsecond := unitsAt_lt_succ (n + 1)
  unfold middleAt
  omega

/-- The step from below to a double is half of the step above it if the double begins a block. -/
theorem powerAt_succ (n : Nat) :
    powerAt (n + 1) =
      if mantissaAt (n + 1) = hiddenBit ∧ powerAt (n + 1) ≠ 0 then powerAt n + 1 else powerAt n := by
  by_cases hnext : n + 1 < hiddenBit
  · rw [(at_of_lt hnext).2, (at_of_lt (Nat.lt_of_succ_lt hnext)).2, if_neg (by simp)]
  · obtain ⟨power, fraction, hfraction, hblock⟩ := exists_block hnext
    rw [hblock, (at_of_block hfraction).1, (at_of_block hfraction).2]
    cases fraction with
    | zero =>
        cases power with
        | zero =>
            have hn : n < hiddenBit := by omega
            rw [(at_of_lt hn).2, if_neg (by simp)]
        | succ power =>
            have hn : n = (power + 1) * hiddenBit + (hiddenBit - 1) := by
              rw [Nat.add_mul (power + 1)] at hblock
              have hpos : 0 < hiddenBit := by decide
              omega
            rw [hn, (at_of_block (by decide)).2, if_pos (by simp)]
    | succ fraction =>
        obtain rfl : n = (power + 1) * hiddenBit + fraction := by omega
        rw [(at_of_block (Nat.lt_of_succ_lt hfraction)).2, if_neg (by simp)]

theorem middleAt_eq (n : Nat) : middleAt n = 2 * unitsAt n + 2 ^ powerAt n := by
  rw [middleAt, unitsAt_succ]
  ring

theorem middleAt_add (n : Nat) : middleAt n + 2 ^ powerAt n = 2 * unitsAt (n + 1) := by
  rw [middleAt, unitsAt_succ]
  ring

/-! ## Rounding intervals -/

variable {x y : Binary64}

theorem high_eq (x : Binary64) :
    x.interval.high * 2 ^ powerAt x.magnitude = 2 * middleAt x.magnitude := by
  rw [middleAt_eq]
  simp only [interval, mantissa_eq, unitsAt]
  ring

theorem low_eq {n : Nat} (hx : x.magnitude = n + 1) :
    x.interval.low * 2 ^ powerAt x.magnitude = 2 * middleAt n := by
  have hadd := middleAt_add n
  have hpower := powerAt_succ n
  have hexponent : x.exponent ≠ -1074 ↔ powerAt x.magnitude ≠ 0 := by
    rw [exponent_eq]
    omega
  have hunits : 4 * mantissaAt (n + 1) * 2 ^ powerAt (n + 1) = 4 * unitsAt (n + 1) := by
    rw [unitsAt, Nat.mul_assoc]
  simp only [interval, mantissa_eq, hexponent]
  rw [hx, Nat.sub_mul, hunits]
  split at hpower
  next hblock =>
    rw [if_pos hblock, hpower, Nat.pow_succ]
    omega
  next hblock =>
    rw [if_neg hblock, hpower]
    omega

end Binary64

/-- A number lies between the ends of an interval, or on one that belongs to it. -/
def Interval.Contains (interval : Interval) (number : ℚ) : Prop :=
  if interval.closed then
    interval.low * 2 ^ interval.quarter ≤ number ∧ number ≤ interval.high * 2 ^ interval.quarter
  else
    interval.low * 2 ^ interval.quarter < number ∧ number < interval.high * 2 ^ interval.quarter

theorem Interval.Contains.bounds {interval : Interval} {number : ℚ}
    (hcontains : interval.Contains number) :
    interval.low * 2 ^ interval.quarter ≤ number ∧
      number ≤ interval.high * 2 ^ interval.quarter := by
  unfold Contains at hcontains
  split at hcontains
  · exact hcontains
  · exact ⟨hcontains.1.le, hcontains.2.le⟩

/-- An end that is contained belongs to the interval. -/
theorem Interval.Contains.closed {interval : Interval} {number : ℚ}
    (hcontains : interval.Contains number)
    (hend : number = interval.low * 2 ^ interval.quarter ∨
      number = interval.high * 2 ^ interval.quarter) : interval.closed := by
  by_contra hopen
  rw [Contains, if_neg hopen] at hcontains
  rcases hend with rfl | rfl
  · exact lt_irrefl _ hcontains.1
  · exact lt_irrefl _ hcontains.2

namespace Binary64

variable {x y : Binary64}

theorem quarter_eq (x : Binary64) :
    (2 : ℚ) ^ x.interval.quarter = 2 ^ powerAt x.magnitude * 2 ^ (-1076 : ℤ) := by
  have hquarter : x.interval.quarter = (powerAt x.magnitude : ℤ) + (-1076) := by
    simp only [interval, exponent_eq]
    ring
  rw [hquarter, zpow_add₀ (by norm_num), zpow_natCast]

theorem high_end (x : Binary64) :
    (x.interval.high : ℚ) * 2 ^ x.interval.quarter =
      2 * middleAt x.magnitude * 2 ^ (-1076 : ℤ) := by
  rw [quarter_eq, ← mul_assoc]
  congr 1
  exact_mod_cast high_eq x

theorem low_end {n : Nat} (hx : x.magnitude = n + 1) :
    (x.interval.low : ℚ) * 2 ^ x.interval.quarter = 2 * middleAt n * 2 ^ (-1076 : ℤ) := by
  rw [quarter_eq, ← mul_assoc]
  congr 1
  exact_mod_cast low_eq hx

/-- The ends of an interval belong to the doubles of even number. -/
theorem closed_iff (x : Binary64) : x.interval.closed ↔ x.magnitude % 2 = 0 := by
  change decide (x.mantissa % 2 = 0) = true ↔ _
  rw [decide_eq_true_iff, mantissa_eq, mantissaAt, hiddenBit_eq]
  split <;> omega

theorem magnitude_le_of_contains {number : ℚ} (hx : x.interval.Contains number)
    (hy : y.interval.Contains number) : y.magnitude ≤ x.magnitude := by
  by_contra hless
  rw [not_le] at hless
  obtain ⟨n, hn⟩ : ∃ n, y.magnitude = n + 1 := ⟨y.magnitude - 1, by omega⟩
  have hpos : (0 : ℚ) < 2 ^ (-1076 : ℤ) := zpow_pos two_pos _
  have hends : y.interval.low * 2 ^ y.interval.quarter ≤
      (x.interval.high : ℚ) * 2 ^ x.interval.quarter := hy.bounds.1.trans hx.bounds.2
  rw [low_end hn, high_end, mul_le_mul_iff_left₀ hpos] at hends
  have hmiddles : middleAt n ≤ middleAt x.magnitude := by
    exact_mod_cast le_of_mul_le_mul_left hends two_pos
  have hnext : x.magnitude = n := by
    have hle := strictMono_middleAt.le_iff_le.mp hmiddles
    omega
  -- The number is the middle between two neighbours, and belongs to only one of them.
  have hlow := hy.bounds.1
  have hhigh := hx.bounds.2
  rw [low_end hn] at hlow
  rw [high_end, hnext] at hhigh
  have hmiddle := le_antisymm hhigh hlow
  have hevenx := (closed_iff x).mp (hx.closed (.inr (by rw [high_end, hnext]; exact hmiddle)))
  have heveny := (closed_iff y).mp (hy.closed (.inl (by rw [low_end hn]; exact hmiddle)))
  omega

/-- No number rounds to two doubles. -/
theorem magnitude_eq_of_contains {number : ℚ} (hx : x.interval.Contains number)
    (hy : y.interval.Contains number) : x.magnitude = y.magnitude :=
  le_antisymm (magnitude_le_of_contains hy hx) (magnitude_le_of_contains hx hy)

end Binary64

end KCompiler.Number
