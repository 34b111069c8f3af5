import KCompiler.Number.Decimal
import KCompiler.Proofs.Number.Neighbours

/-! # The shortest decimal rounds to its double

The search for a decimal goes down the grids of powers of ten. On a grid that is finer than the
interval of a double it finds a neighbour of the double, and the last grid that is tried is fine
enough. So what is found always rounds to the double.
-/

namespace KCompiler.Number

/-- The number that a decimal stands for. -/
def Decimal.value (decimal : Decimal) : ℚ :=
  decimal.digits * 10 ^ decimal.exponent

theorem zpow_eq_div {base : ℚ} (hbase : base ≠ 0) (power : ℤ) :
    base ^ power = base ^ power.toNat / base ^ (-power).toNat := by
  rw [← zpow_natCast, ← zpow_natCast, ← zpow_sub₀ hbase, Int.toNat_sub_toNat_neg]

namespace Interval

/-- A power of ten over a power of two, as a natural number over another one. -/
def gridUnits (quarter power : ℤ) : Nat :=
  Nat.pow 10 power.toNat <<< (-quarter).toNat

def gridScale (quarter power : ℤ) : Nat :=
  Nat.pow 10 (-power).toNat <<< quarter.toNat

theorem exists_common (quarter power : ℤ) : ∃ common : ℚ, 0 < common ∧
    gridUnits quarter power = 10 ^ power * common ∧
      gridScale quarter power = 2 ^ quarter * common := by
  refine ⟨10 ^ (-power).toNat * 2 ^ (-quarter).toNat, by positivity, ?_, ?_⟩
  · rw [gridUnits, Nat.shiftLeft_eq, Nat.pow_eq, zpow_eq_div (by norm_num), ← mul_assoc,
      div_mul_cancel₀ _ (by positivity)]
    push_cast
    rfl
  · rw [gridScale, Nat.shiftLeft_eq, Nat.pow_eq, zpow_eq_div (by norm_num) quarter,
      mul_comm (10 ^ _ : ℚ), ← mul_assoc, div_mul_cancel₀ _ (by positivity), mul_comm]
    push_cast
    rfl

/-- Multiples of a quarter and of a power of ten, compared without fractions. -/
theorem mul_gridScale_le_iff (quarter power : ℤ) (bound count : Nat) :
    bound * gridScale quarter power ≤ count * gridUnits quarter power ↔
      (bound : ℚ) * 2 ^ quarter ≤ count * 10 ^ power := by
  obtain ⟨common, hcommon, hunits, hscale⟩ := exists_common quarter power
  rw [← @Nat.cast_le ℚ, Nat.cast_mul, Nat.cast_mul, hunits, hscale, ← mul_assoc, ← mul_assoc,
    mul_le_mul_iff_left₀ hcommon]

theorem mul_gridUnits_le_iff (quarter power : ℤ) (bound count : Nat) :
    count * gridUnits quarter power ≤ bound * gridScale quarter power ↔
      (count : ℚ) * 10 ^ power ≤ bound * 2 ^ quarter := by
  obtain ⟨common, hcommon, hunits, hscale⟩ := exists_common quarter power
  rw [← @Nat.cast_le ℚ, Nat.cast_mul, Nat.cast_mul, hunits, hscale, ← mul_assoc, ← mul_assoc,
    mul_le_mul_iff_left₀ hcommon]

theorem gridUnits_pos (quarter power : ℤ) : 0 < gridUnits quarter power := by
  rw [gridUnits, Nat.shiftLeft_eq, Nat.pow_eq]
  positivity

theorem holds_iff (interval : Interval) (power : ℤ) (count : Nat) :
    interval.holds (gridUnits interval.quarter power) (gridScale interval.quarter power) count ↔
      interval.Contains (count * 10 ^ power) := by
  unfold holds Contains
  split
  · rw [Bool.and_eq_true, decide_eq_true_iff, decide_eq_true_iff, mul_gridScale_le_iff,
      mul_gridUnits_le_iff]
  · rw [Bool.and_eq_true, decide_eq_true_iff, decide_eq_true_iff, ← not_le, ← not_le, ← not_le,
      ← not_le, mul_gridScale_le_iff, mul_gridUnits_le_iff]

theorem contains_of_onGrid? {interval : Interval} {power : ℤ} {digits : Nat}
    (hdigits : interval.onGrid? power = some digits) :
    interval.Contains (digits * 10 ^ power) := by
  rw [← holds_iff]
  unfold onGrid? at hdigits
  extract_lets units grid below gap nearer farther at hdigits
  split at hdigits
  next hholds => exact Option.some.inj hdigits ▸ hholds
  next =>
    split at hdigits
    next hholds => exact Option.some.inj hdigits ▸ hholds
    next => cases hdigits

/-- On a grid whose step is below two quarters, the nearer neighbour of the value lies inside. -/
theorem onGrid?_isSome {interval : Interval} {power : ℤ}
    (hlow : interval.low + 1 ≤ interval.value) (hhigh : interval.value + 1 ≤ interval.high)
    (hfine : gridUnits interval.quarter power < 2 * gridScale interval.quarter power) :
    (interval.onGrid? power).isSome := by
  unfold onGrid?
  extract_lets units grid below gap nearer farther
  have hunits : 0 < units := gridUnits_pos interval.quarter power
  have hdivision : below * units + gap = interval.value * grid := Nat.div_add_mod' _ _
  have hgap : gap < units := Nat.mod_lt _ hunits
  have hfine : units < 2 * grid := hfine
  have hnear : interval.value * grid < nearer * units + grid ∧
      nearer * units < interval.value * grid + grid := by
    have hnext : (below + 1) * units = below * units + units := Nat.succ_mul _ _
    simp only [nearer]
    split
    · omega
    · split
      · omega
      · split <;> omega
  have hbelow := Nat.mul_le_mul_right grid hlow
  have habove := Nat.mul_le_mul_right grid hhigh
  rw [Nat.add_mul, Nat.one_mul] at hbelow habove
  have hholds : interval.holds units grid nearer := by
    unfold holds
    split <;> simp only [Bool.and_eq_true, decide_eq_true_eq] <;> omega
  rw [if_pos hholds]
  rfl

/-- The search finds a number of the interval if one of its grids has one. -/
theorem contains_search {interval : Interval} {steps : Nat} {power : ℤ} {down : Nat}
    (hdown : down < steps) (hgrid : (interval.onGrid? (power - down)).isSome) :
    interval.Contains (interval.search power steps).value := by
  induction steps generalizing power down with
  | zero => omega
  | succ steps ih =>
      rw [search]
      split
      next digits hdigits => exact contains_of_onGrid? hdigits
      next hnone =>
        cases down with
        | zero => simp [hnone] at hgrid
        | succ down =>
            refine ih (Nat.lt_of_succ_lt_succ hdown) ?_
            rwa [Nat.cast_succ, Int.add_comm, ← Int.sub_sub] at hgrid

end Interval

/-! ## The last grid -/

/-- A power of ten that is estimated from a power of two. -/
def estimate (bits : ℤ) : ℤ :=
  Int.fdiv (bits * 30103) 100000

theorem pow_estimate_le_of_nat : ∀ n ≤ 1024, 10 ^ (n * 30103 / 100000) ≤ 2 * 2 ^ n := by
  decide +kernel

theorem pow_le_pow_estimate_of_nat :
    ∀ n ≤ 1074, 2 ^ n ≤ 10 ^ ((n * 30103 + 99999) / 100000) := by
  decide +kernel

theorem ten_zpow_estimate_le {bits : ℤ} (hleast : -1074 ≤ bits) (hmost : bits ≤ 1024) :
    (10 : ℚ) ^ estimate bits ≤ 2 * 2 ^ bits := by
  obtain ⟨n, rfl | rfl⟩ := bits.eq_nat_or_neg
  · have hestimate : estimate n = ((n * 30103 / 100000 : ℕ) : ℤ) := by
      rw [estimate, Int.fdiv_eq_ediv_of_nonneg _ (by norm_num)]
      omega
    rw [hestimate, zpow_natCast, zpow_natCast]
    exact_mod_cast pow_estimate_le_of_nat n (by omega)
  · have hestimate : estimate (-n) = -(((n * 30103 + 99999) / 100000 : ℕ) : ℤ) := by
      rw [estimate, Int.fdiv_eq_ediv_of_nonneg _ (by norm_num)]
      omega
    rw [hestimate, zpow_neg, zpow_neg, zpow_natCast, zpow_natCast]
    have hpow : (2 : ℚ) ^ n ≤ 10 ^ ((n * 30103 + 99999) / 100000) := by
      exact_mod_cast pow_le_pow_estimate_of_nat n (by omega)
    have hinv := inv_anti₀ (by positivity) hpow
    have htwo : (0 : ℚ) < (2 ^ n)⁻¹ := inv_pos.mpr (pow_pos two_pos n)
    linarith

namespace Binary64

variable {x : Binary64}

theorem mantissaAt_lt (n : Nat) : mantissaAt n < 2 ^ 53 := by
  unfold mantissaAt
  rw [hiddenBit_eq]
  split <;> omega

theorem mantissa_pos (hpos : 0 < x.magnitude) : 0 < x.mantissa := by
  rw [mantissa_eq, mantissaAt, hiddenBit_eq]
  split <;> omega

theorem exponent_le (hfinite : x.magnitude < infinityBits) : x.exponent ≤ 971 := by
  rw [exponent_eq, powerAt, hiddenBit_eq]
  unfold infinityBits at hfinite
  omega

/-- The number of bits of a double before its point. -/
def places (x : Binary64) : ℤ :=
  (x.mantissa.log2 : ℤ) + 1 + x.exponent

theorem places_le (hpos : 0 < x.magnitude) : x.places ≤ x.exponent + 53 := by
  have hlog : x.mantissa.log2 < 53 :=
    (Nat.log2_lt (mantissa_pos hpos).ne').mpr (mantissaAt_lt x.magnitude)
  unfold places
  omega

/-- The last grid of the search is fine enough. -/
theorem lastGrid_fine (hpos : 0 < x.magnitude) (hfinite : x.magnitude < infinityBits) :
    (10 : ℚ) ^ (estimate x.places + 2 - 23) < 2 * 2 ^ x.interval.quarter := by
  have hexponent := exponent_le hfinite
  have hleast : -1074 ≤ x.exponent := by
    rw [exponent_eq]
    omega
  have hplaces := places_le hpos
  have hquarter : x.interval.quarter = x.exponent - 2 := rfl
  have htwo : (2 : ℚ) ^ x.places ≤ 2 ^ x.interval.quarter * 2 ^ 55 := by
    rw [← zpow_natCast, ← zpow_add₀ (by norm_num), hquarter]
    refine zpow_le_zpow_right₀ (by norm_num) ?_
    norm_num
    omega
  have hten := @ten_zpow_estimate_le x.places (by unfold places; omega) (by omega)
  have hsplit : (10 : ℚ) ^ (estimate x.places + 2 - 23) = 10 ^ estimate x.places / 10 ^ 21 := by
    rw [add_sub_assoc, zpow_add₀ (by norm_num)]
    norm_num
    ring
  have hscale : (0 : ℚ) < 2 ^ x.interval.quarter := zpow_pos two_pos _
  rw [hsplit, div_lt_iff₀ (by norm_num)]
  calc (10 : ℚ) ^ estimate x.places ≤ 2 * 2 ^ x.places := hten
    _ ≤ 2 * (2 ^ x.interval.quarter * 2 ^ 55) := by linarith
    _ < 2 * 2 ^ x.interval.quarter * 10 ^ 21 := by
      norm_num
      linarith

/-- The shortest decimal of a double rounds to it. -/
theorem contains_shortest (hpos : 0 < x.magnitude) (hfinite : x.magnitude < infinityBits) :
    x.interval.Contains x.shortest.value := by
  have hmantissa := mantissa_pos hpos
  refine Interval.contains_search (show 23 < 24 by decide) (Interval.onGrid?_isSome ?_ ?_ ?_)
  · simp only [interval]
    split <;> omega
  · simp only [interval]
    omega
  · have hfine := lastGrid_fine hpos hfinite
    rw [← not_le]
    intro hcoarse
    rw [← Nat.one_mul (Interval.gridUnits _ _), Interval.mul_gridScale_le_iff] at hcoarse
    norm_num at hcoarse
    exact absurd hfine (not_lt.mpr hcoarse)

end Binary64

end KCompiler.Number
