import KCompiler.Proofs.Number.Shortest

/-! # The text of a double tells the double

However a decimal is written, with a point or with an exponent, its text stands for its value. As no
number rounds to two doubles, doubles with the same text are the same.
-/

namespace KCompiler.Number

/-- The number that an unsigned decimal text stands for. -/
def numberOf? (text : List Char) : Option ℚ :=
  let whole := text.takeWhile Char.isDigit
  let afterWhole := text.dropWhile Char.isDigit
  let pointed := afterWhole.head? == some '.'
  let fraction := if pointed then afterWhole.tail.takeWhile Char.isDigit else []
  let rest := if pointed then afterWhole.tail.dropWhile Char.isDigit else afterWhole
  if whole.isEmpty then none
  else (readExponent rest).map fun exponent =>
    Decimal.value ⟨decimalValue (whole ++ fraction), exponent - fraction.length⟩

section Digits

variable {digits whole fraction rest : List Char}

/-- Decimal digits only. -/
def AllDigits (text : List Char) : Prop :=
  ∀ c ∈ text, c.isDigit

/-- A text that does not begin with a digit. -/
def NoDigitFirst (text : List Char) : Prop :=
  ∀ c ∈ text.head?, c.isDigit = false

theorem takeWhile_isDigit (hwhole : AllDigits whole) (hrest : NoDigitFirst rest) :
    (whole ++ rest).takeWhile Char.isDigit = whole := by
  rw [List.takeWhile_append_of_pos hwhole]
  cases rest with
  | nil => simp
  | cons c rest => simp [hrest c rfl]

theorem dropWhile_isDigit (hwhole : AllDigits whole) (hrest : NoDigitFirst rest) :
    (whole ++ rest).dropWhile Char.isDigit = rest := by
  rw [List.dropWhile_append_of_pos hwhole]
  cases rest with
  | nil => rfl
  | cons c rest => simp [hrest c rfl]

theorem numberOf?_point (hwhole : AllDigits whole) (hne : whole ≠ []) (hfraction : AllDigits fraction)
    (hrest : NoDigitFirst rest) :
    numberOf? (whole ++ '.' :: (fraction ++ rest)) = (readExponent rest).map fun exponent =>
      Decimal.value ⟨decimalValue (whole ++ fraction), exponent - fraction.length⟩ := by
  have hpoint : NoDigitFirst ('.' :: (fraction ++ rest)) := by
    rintro _ ⟨⟩
    rfl
  simp [numberOf?, takeWhile_isDigit hwhole hpoint, dropWhile_isDigit hwhole hpoint,
    takeWhile_isDigit hfraction hrest, dropWhile_isDigit hfraction hrest, hne]

theorem numberOf?_plain (hwhole : AllDigits whole) (hne : whole ≠ []) (hrest : NoDigitFirst rest)
    (hpoint : rest.head? ≠ some '.') :
    numberOf? (whole ++ rest) =
      (readExponent rest).map fun exponent => Decimal.value ⟨decimalValue whole, exponent⟩ := by
  simp [numberOf?, takeWhile_isDigit hwhole hrest, dropWhile_isDigit hwhole hrest, hne, hpoint]

theorem decimalValue_eq (digits : List Char) : decimalValue digits = Nat.ofDigitChars 10 digits 0 := by
  rw [decimalValue, Nat.ofDigitChars_eq_foldl]
  congr 1
  funext value c
  rw [Nat.mul_comm]

theorem decimalValue_toDigits (n : Nat) : decimalValue (Nat.toDigits 10 n) = n := by
  rw [decimalValue_eq, Nat.ofDigitChars_ten_toDigits]

theorem decimalValue_append_zeros (digits : List Char) (count : Nat) :
    decimalValue (digits ++ List.replicate count '0') = 10 ^ count * decimalValue digits := by
  rw [decimalValue_eq, decimalValue_eq, Nat.ofDigitChars_append, Nat.ofDigitChars_replicate_zero]

theorem decimalValue_zeros_append (digits : List Char) (count : Nat) :
    decimalValue (List.replicate count '0' ++ digits) = decimalValue digits := by
  rw [decimalValue_eq, decimalValue_eq, Nat.ofDigitChars_append, Nat.ofDigitChars_replicate_zero,
    Nat.mul_zero]

theorem allDigits_toDigits (n : Nat) : AllDigits (Nat.toDigits 10 n) :=
  fun _ hc => Nat.isDigit_of_mem_toDigits (by decide) (by decide) hc

theorem allDigits_zeros (count : Nat) : AllDigits (List.replicate count '0') := by
  intro c hc
  rw [List.eq_of_mem_replicate hc]
  rfl

theorem AllDigits.append (hwhole : AllDigits whole) (hfraction : AllDigits fraction) :
    AllDigits (whole ++ fraction) :=
  List.forall_mem_append.mpr ⟨hwhole, hfraction⟩

theorem readExponent_toString (exponent : ℤ) :
    readExponent ('e' :: (toString exponent).toList) = some exponent := by
  have hdigits (n : Nat) : (Nat.toDigits 10 n).isEmpty = false ∧
      (Nat.toDigits 10 n).all Char.isDigit := by
    exact ⟨by simp [Nat.toDigits_ne_nil], List.all_eq_true.mpr (allDigits_toDigits n)⟩
  have hsign (n : Nat) (sign : Char) (hnot : sign.isDigit = false) :
      (Nat.toDigits 10 n).head? ≠ some sign := by
    intro hhead
    have hdigit := allDigits_toDigits n sign (List.mem_of_mem_head? hhead)
    rw [hnot] at hdigit
    cases hdigit
  rw [Int.toString_eq_repr, Int.repr_eq_if]
  split
  next hnonneg =>
    rw [Nat.toList_repr, readExponent, if_neg (by decide)]
    simp [hsign _ '-' rfl, hsign _ '+' rfl, hdigits, decimalValue_toDigits, hnonneg]
  next hneg =>
    rw [String.toList_append, Nat.toList_repr, readExponent, if_neg (by decide)]
    simp [hdigits, decimalValue_toDigits]
    omega

theorem noDigitFirst_nil : NoDigitFirst [] := by
  simp [NoDigitFirst]

theorem numberOf?_belowOne (hdigits : AllDigits digits) (count : Nat) :
    numberOf? (['0', '.'] ++ List.replicate count '0' ++ digits) =
      some (Decimal.value ⟨decimalValue digits, -(count + digits.length : ℕ)⟩) := by
  have hfraction := (allDigits_zeros count).append hdigits
  have hpoint := numberOf?_point (allDigits_zeros 1) (by simp) hfraction noDigitFirst_nil
  have hzeros : decimalValue (List.replicate 1 '0' ++ (List.replicate count '0' ++ digits)) =
      decimalValue digits := by
    rw [decimalValue_zeros_append, decimalValue_zeros_append]
  rw [hzeros] at hpoint
  simpa [readExponent] using hpoint

theorem numberOf?_whole (hdigits : AllDigits digits) (hne : digits ≠ []) (count : Nat) :
    numberOf? (digits ++ List.replicate count '0' ++ ['.', '0']) =
      some (Decimal.value ⟨decimalValue digits, count⟩) := by
  have hwhole := hdigits.append (allDigits_zeros count)
  have hpoint := numberOf?_point hwhole (by simp [hne]) (allDigits_zeros 1) noDigitFirst_nil
  have hzeros : decimalValue (digits ++ List.replicate count '0' ++ List.replicate 1 '0') =
      10 ^ (count + 1) * decimalValue digits := by
    rw [decimalValue_append_zeros, decimalValue_append_zeros]
    ring
  rw [hzeros] at hpoint
  refine hpoint.trans ?_
  have htenth : (10 : ℚ) ^ ((0 : ℤ) - (List.replicate 1 '0').length) = 10⁻¹ := by
    rw [List.length_replicate, Nat.cast_one, zero_sub, zpow_neg_one]
  rw [readExponent, Option.map_some, Decimal.value, Decimal.value, htenth, zpow_natCast]
  push_cast
  ring_nf

theorem numberOf?_between (hdigits : AllDigits digits) {count : Nat} (hcount : 0 < count)
    (hlength : count < digits.length) :
    numberOf? (digits.take count ++ ['.'] ++ digits.drop count) =
      some (Decimal.value ⟨decimalValue digits, -(digits.length - count : ℕ)⟩) := by
  have hwhole : AllDigits (digits.take count) := fun c hc => hdigits c (List.mem_of_mem_take hc)
  have hfraction : AllDigits (digits.drop count) := fun c hc => hdigits c (List.mem_of_mem_drop hc)
  have hne : digits.take count ≠ [] := by
    rw [ne_eq, List.take_eq_nil_iff]
    rintro (rfl | rfl)
    · omega
    · simp at hlength
  have hpoint := numberOf?_point hwhole hne hfraction noDigitFirst_nil
  rw [List.take_append_drop] at hpoint
  simpa [readExponent] using hpoint

theorem numberOf?_scientific (hdigits : AllDigits digits) (hne : digits ≠ []) (leading : ℤ) :
    numberOf? (digits.take 1 ++ (if digits.length = 1 then [] else '.' :: digits.tail) ++ ['e'] ++
        (toString leading).toList) =
      some (Decimal.value ⟨decimalValue digits, leading - (digits.length - 1 : ℕ)⟩) := by
  obtain ⟨first, more, rfl⟩ := List.exists_cons_of_ne_nil hne
  have hfirst : AllDigits [first] := by simpa [AllDigits] using hdigits first (by simp)
  have hmore : AllDigits more := fun c hc => hdigits c (by simp [hc])
  have hmark : NoDigitFirst ('e' :: (toString leading).toList) := by
    rintro _ ⟨⟩
    rfl
  cases more with
  | nil =>
      have hplain := numberOf?_plain hfirst (by simp) hmark (by simp)
      rw [readExponent_toString] at hplain
      simpa using hplain
  | cons second more =>
      have hpoint := numberOf?_point hfirst (by simp) hmore hmark
      rw [readExponent_toString] at hpoint
      simpa using hpoint

/-- What is written for a decimal stands for its value. -/
theorem numberOf?_write (format : DecimalFormat) (decimal : Decimal) :
    numberOf? (format.write decimal).toList = some decimal.value := by
  unfold DecimalFormat.write
  extract_lets digits point leading zeros
  rw [String.toList_ofList]
  have hdigits : AllDigits digits := allDigits_toDigits decimal.digits
  have hne : digits ≠ [] := Nat.toDigits_ne_nil
  have hlength := List.length_pos_iff.mpr hne
  have hpoint : point = digits.length + decimal.exponent := rfl
  have hleading : leading = point - 1 := rfl
  have hsame (exponent : ℤ) (hexponent : exponent = decimal.exponent) :
      some (Decimal.value ⟨decimalValue digits, exponent⟩) = some decimal.value := by
    rw [hexponent, show decimalValue digits = decimal.digits from decimalValue_toDigits _]
  split
  next =>
    split
    next hbelow => exact (numberOf?_belowOne hdigits _).trans (hsame _ (by omega))
    next habove =>
      split
      next hwhole => exact (numberOf?_whole hdigits hne _).trans (hsame _ (by omega))
      next hfraction =>
        exact (numberOf?_between hdigits (by omega) (by omega)).trans (hsame _ (by omega))
  next => exact (numberOf?_scientific hdigits hne _).trans (hsame _ (by omega))

/-- The characters that numbers are written with. -/
def isNumeral (c : Char) : Bool :=
  c.isDigit || c ∈ ['-', '.', 'e', 'i', 'n', 'f', 'N', 'a']

theorem AllDigits.isNumeral (hdigits : AllDigits digits) : ∀ c ∈ digits, isNumeral c := by
  intro c hmem
  simp [Number.isNumeral, hdigits c hmem]

theorem eq_of_toString {n m : ℤ} (hsame : toString n = toString m) : n = m := by
  have hread := readExponent_toString n
  rw [hsame, readExponent_toString] at hread
  exact (Option.some.inj hread).symm

theorem isNumeral_of_mem_toString (n : ℤ) : ∀ c ∈ (toString n).toList, isNumeral c := by
  have hdigits (n : Nat) := (allDigits_toDigits n).isNumeral
  rw [Int.toString_eq_repr, Int.repr_eq_if]
  split
  · rw [Nat.toList_repr]
    exact hdigits _
  · rw [String.toList_append, Nat.toList_repr]
    exact List.forall_mem_append.mpr ⟨List.all_eq_true.mp rfl, hdigits _⟩

theorem newline_notMem_toString (n : ℤ) : '\n' ∉ (toString n).toList :=
  fun hmem => absurd (isNumeral_of_mem_toString n _ hmem) (by decide)

theorem isNumeral_of_mem_write (format : DecimalFormat) (decimal : Decimal) :
    ∀ c ∈ (format.write decimal).toList, isNumeral c := by
  unfold DecimalFormat.write
  extract_lets digits point leading zeros fraction
  have hdigits := (allDigits_toDigits decimal.digits).isNumeral
  have hzeros (count : ℤ) : ∀ c ∈ zeros count, isNumeral c := (allDigits_zeros count.toNat).isNumeral
  have htake (count : Nat) : ∀ c ∈ digits.take count, isNumeral c :=
    fun c hmem => hdigits c (List.mem_of_mem_take hmem)
  have hdrop (count : Nat) : ∀ c ∈ digits.drop count, isNumeral c :=
    fun c hmem => hdigits c (List.mem_of_mem_drop hmem)
  have hpoint : ∀ c ∈ ['.'], isNumeral c := List.all_eq_true.mp rfl
  have hfraction : ∀ c ∈ fraction, isNumeral c := by
    simp only [fraction]
    split
    · simp
    · exact List.forall_mem_cons.mpr
        ⟨rfl, fun c hmem => hdigits c (List.mem_of_mem_tail hmem)⟩
  have hleading := isNumeral_of_mem_toString leading
  rw [String.toList_ofList]
  split
  · split
    · simp only [List.forall_mem_append]
      exact ⟨⟨List.all_eq_true.mp rfl, hzeros _⟩, hdigits⟩
    · split
      · simp only [List.forall_mem_append]
        exact ⟨⟨hdigits, hzeros _⟩, List.all_eq_true.mp rfl⟩
      · simp only [List.forall_mem_append]
        exact ⟨⟨htake _, hpoint⟩, hdrop _⟩
  · simp only [List.forall_mem_append]
    exact ⟨⟨⟨htake 1, hfraction⟩, List.all_eq_true.mp rfl⟩, hleading⟩

end Digits

namespace Binary64

variable {x y : Binary64}

/-- Doubles from zero to infinity. -/
def IsUnsigned (x : Binary64) : Prop :=
  x.bits.toNat ≤ infinityBits

instance (x : Binary64) : Decidable x.IsUnsigned :=
  inferInstanceAs (Decidable (x.bits.toNat ≤ infinityBits))

theorem IsUnsigned.magnitude_eq (hx : x.IsUnsigned) : x.magnitude = x.bits.toNat :=
  Nat.mod_eq_of_lt (Nat.lt_of_le_of_lt hx (by decide))

theorem IsUnsigned.text_eq (hx : x.IsUnsigned) :
    x.text = if x.magnitude = infinityBits then "inf"
      else if x.magnitude = 0 then "0.0" else plainFormat.write x.shortest := by
  have hsign : x.isNegative = false := by
    have hless : infinityBits < signBit := by decide
    simp only [isNegative, decide_eq_false_iff_not, not_le]
    exact Nat.lt_of_le_of_lt hx hless
  have hnan : x.isNaN = false := by
    simp only [isNaN, decide_eq_false_iff_not, not_lt, hx.magnitude_eq]
    exact hx
  simp [text, hsign, hnan, isInfinite]

/-- The number that the text of a finite double stands for. -/
def shown (x : Binary64) : ℚ :=
  if x.magnitude = 0 then 0 else x.shortest.value

theorem contains_shown (hfinite : x.magnitude < infinityBits) : x.interval.Contains x.shown := by
  unfold shown
  split
  next hzero =>
    have hlow : x.interval.low = 0 := by simp [interval, mantissa_eq, hzero, mantissaAt, hiddenBit_eq]
    rw [Interval.Contains, if_pos ((closed_iff x).mpr (by rw [hzero])), hlow]
    exact ⟨by simp, mul_nonneg (Nat.cast_nonneg _) (zpow_nonneg two_pos.le _)⟩
  next hzero => exact contains_shortest (Nat.pos_of_ne_zero hzero) hfinite

theorem IsUnsigned.numberOf?_text (hx : x.IsUnsigned) :
    numberOf? x.text.toList = if x.magnitude = infinityBits then none else some x.shown := by
  rw [hx.text_eq, shown]
  split
  · decide +kernel
  · split
    · decide +kernel
    · exact numberOf?_write _ _

/-- Doubles with the same text are the same. -/
theorem IsUnsigned.eq_of_text (hx : x.IsUnsigned) (hy : y.IsUnsigned) (htext : x.text = y.text) :
    x = y := by
  have hnumber : numberOf? x.text.toList = numberOf? y.text.toList := by rw [htext]
  rw [hx.numberOf?_text, hy.numberOf?_text] at hnumber
  have hxle := hx
  have hyle := hy
  rw [IsUnsigned, ← hx.magnitude_eq] at hxle
  rw [IsUnsigned, ← hy.magnitude_eq] at hyle
  have hmagnitude : x.magnitude = y.magnitude := by
    by_cases hxinf : x.magnitude = infinityBits <;> by_cases hyinf : y.magnitude = infinityBits
    · rw [hxinf, hyinf]
    · simp [hxinf, hyinf] at hnumber
    · simp [hxinf, hyinf] at hnumber
    · rw [if_neg hxinf, if_neg hyinf, Option.some.injEq] at hnumber
      have hxin := contains_shown (Nat.lt_of_le_of_ne hxle hxinf)
      have hyin := contains_shown (Nat.lt_of_le_of_ne hyle hyinf)
      rw [← hnumber] at hyin
      exact magnitude_eq_of_contains hxin hyin
  rw [hx.magnitude_eq, hy.magnitude_eq] at hmagnitude
  exact congrArg Binary64.mk (UInt64.toNat_inj.mp hmagnitude)

theorem isNumeral_of_mem_text (x : Binary64) : ∀ c ∈ x.text.toList, isNumeral c := by
  unfold text
  split
  · exact List.all_eq_true.mp rfl
  · extract_lets sign
    have hsign : ∀ c ∈ sign.toList, isNumeral c := by
      simp only [sign]
      split <;> exact List.all_eq_true.mp rfl
    split
    · rw [String.toList_append]
      exact List.forall_mem_append.mpr ⟨hsign, List.all_eq_true.mp rfl⟩
    · split
      · rw [String.toList_append]
        exact List.forall_mem_append.mpr ⟨hsign, List.all_eq_true.mp rfl⟩
      · rw [String.toList_append]
        exact List.forall_mem_append.mpr ⟨hsign, isNumeral_of_mem_write _ _⟩

theorem newline_notMem_text (x : Binary64) : '\n' ∉ x.text.toList :=
  fun hmem => absurd (x.isNumeral_of_mem_text _ hmem) (by decide)

end Binary64

end KCompiler.Number
