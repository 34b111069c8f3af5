import KCompiler.Number.Integer
import KCompiler.Text.Quoted
import Mathlib.Data.List.TakeWhile

/-! # Quoted text can be read back

A reader takes one character off a quoted text at a time, however it is written. So a quoted text
tells the text, and as the line break has an escape, it stays on its line.
-/

namespace KCompiler.Text

variable {quote c : Char} {rest text : List Char}

/-- The number that hexadecimal digits stand for. -/
def codeOf (digits : List Char) : Nat :=
  digits.foldl (fun code c => code * 16 + (Number.hexValue? c).getD 0) 0

theorem codeOf_toDigits (n : Nat) : codeOf (Nat.toDigits 16 n) = n := by
  induction n using Number.digitInduction (by decide : 1 < 16) with
  | single n hn =>
      rw [Nat.toDigits_of_lt_base hn]
      simp [codeOf, Number.hexValue?_digitChar n hn]
  | step n hn ih =>
      have hlast := Number.hexValue?_digitChar _ (Nat.mod_lt n (by decide : 16 > 0))
      rw [codeOf] at ih
      rw [Nat.toDigits_of_base_le (by decide) hn, codeOf, List.foldl_append, ih]
      simp only [List.foldl_cons, List.foldl_nil, hlast, Option.getD_some]
      omega

theorem hexValue?_of_mem_toDigits (n : Nat) :
    ∀ c ∈ Nat.toDigits 16 n, (Number.hexValue? c).isSome := by
  induction n using Number.digitInduction (by decide : 1 < 16) with
  | single n hn =>
      rw [Nat.toDigits_of_lt_base hn]
      simp [Number.hexValue?_digitChar n hn]
  | step n hn ih =>
      have hlast := Number.hexValue?_digitChar _ (Nat.mod_lt n (by decide : 16 > 0))
      rw [Nat.toDigits_of_base_le (by decide) hn, List.forall_mem_append]
      exact ⟨ih, by simp [hlast]⟩

/-- Takes one character off a quoted text, and gives what stands behind it. -/
def readShown : List Char → Option (Char × List Char)
  | [] => none
  | ['\\'] => none
  | '\\' :: mark :: rest =>
    if mark = '0' then some ('\x00', rest)
    else if mark = 't' then some ('\t', rest)
    else if mark = 'r' then some ('\r', rest)
    else if mark = 'n' then some ('\n', rest)
    else if mark = 'u' then
      some (Char.ofNat (codeOf (rest.tail.takeWhile (· ≠ '}'))), (rest.dropWhile (· ≠ '}')).tail)
    else some (mark, rest)
  | c :: rest => some (c, rest)

theorem readShown_escapeCode (c : Char) (rest : List Char) :
    readShown (escapeCode c ++ rest) = some (c, rest) := by
  have hbrace : ∀ d ∈ Nat.toDigits 16 c.toNat, decide (d ≠ '}') := by
    intro d hmem
    rw [decide_eq_true_iff]
    rintro rfl
    exact absurd (hexValue?_of_mem_toDigits _ _ hmem) (by decide)
  have htext : escapeCode c ++ rest =
      '\\' :: 'u' :: '{' :: (Nat.toDigits 16 c.toNat ++ '}' :: rest) := by
    simp [escapeCode]
  have hdigits : (Nat.toDigits 16 c.toNat ++ '}' :: rest).takeWhile (· ≠ '}') =
      Nat.toDigits 16 c.toNat := by
    rw [List.takeWhile_append_of_pos hbrace]
    simp
  have hbehind : ('{' :: (Nat.toDigits 16 c.toNat ++ '}' :: rest)).dropWhile (· ≠ '}') =
      '}' :: rest := by
    rw [List.dropWhile_cons_of_pos (by decide), List.dropWhile_append_of_pos hbrace]
    simp
  rw [htext, readShown, if_neg (by decide), if_neg (by decide), if_neg (by decide),
    if_neg (by decide), if_pos rfl, hbehind, List.tail_cons, hdigits, codeOf_toDigits,
    Char.ofNat_toNat, List.tail_cons]

/-- A quote that needs an escape of its own. -/
def IsQuote (quote : Char) : Prop :=
  quote = '"' ∨ quote = '\''

theorem readShown_backslash {mark : Char} (hmark : mark = '"' ∨ mark = '\'' ∨ mark = '\\')
    (rest : List Char) : readShown ('\\' :: mark :: rest) = some (mark, rest) := by
  rcases hmark with rfl | rfl | rfl <;> rfl

theorem readShown_plain (hc : c ≠ '\\') (rest : List Char) : readShown (c :: rest) = some (c, rest) := by
  unfold readShown
  split <;> simp_all

theorem readShown_escapeShown (hquote : IsQuote quote) (c : Char) (rest : List Char) :
    readShown (escapeShown quote c ++ rest) = some (c, rest) := by
  unfold escapeShown
  split
  next hc => rw [hc]; rfl
  next =>
  split
  next hc => rw [hc]; rfl
  next =>
  split
  next hc => rw [hc]; rfl
  next =>
  split
  next hc => rw [hc]; rfl
  next =>
  split
  next hc =>
    rw [Bool.or_eq_true, decide_eq_true_iff, decide_eq_true_iff] at hc
    refine readShown_backslash ?_ rest
    rcases hc with rfl | hc
    · exact hquote.imp_right .inl
    · exact .inr (.inr hc)
  next hc =>
  rw [Bool.or_eq_true, decide_eq_true_iff, decide_eq_true_iff, not_or] at hc
  split
  · exact readShown_escapeCode c rest
  · exact readShown_plain hc.2 rest

theorem eq_of_flatMap_escapeShown (hquote : IsQuote quote) {text other : List Char}
    (hsame : text.flatMap (escapeShown quote) = other.flatMap (escapeShown quote)) :
    text = other := by
  have hread (c : Char) (more : List Char) :
      readShown ((c :: more).flatMap (escapeShown quote)) =
        some (c, more.flatMap (escapeShown quote)) := by
    rw [List.flatMap_cons, readShown_escapeShown hquote]
  induction text generalizing other with
  | nil =>
      cases other with
      | nil => rfl
      | cons d other =>
          have hnone := hread d other
          rw [← hsame] at hnone
          cases hnone
  | cons c text ih =>
      have hfirst := hread c text
      rw [hsame] at hfirst
      cases other with
      | nil => cases hfirst
      | cons d other =>
          rw [hread, Option.some.injEq, Prod.mk.injEq] at hfirst
          rw [hfirst.1, ih hfirst.2.symm]

/-- A quoted text tells the text. -/
theorem quoted_injective : Function.Injective quoted := by
  intro text other hsame
  have hlists := congrArg String.toList hsame
  simp only [quoted, String.toList_ofList, List.append_cancel_right_eq,
    List.append_cancel_left_eq] at hlists
  exact String.toList_inj.mp (eq_of_flatMap_escapeShown (.inl rfl) hlists)

theorem quotedChar_injective : Function.Injective quotedChar := by
  intro c d hsame
  have hlists := congrArg String.toList hsame
  simp only [quotedChar, String.toList_ofList, List.append_cancel_right_eq,
    List.append_cancel_left_eq] at hlists
  have hread := readShown_escapeShown (.inr rfl) c []
  rw [hlists, readShown_escapeShown (.inr rfl), Option.some.injEq, Prod.mk.injEq] at hread
  exact hread.1.symm

theorem newline_notMem_escapeShown (quote c : Char) : '\n' ∉ escapeShown quote c := by
  unfold escapeShown
  split
  · decide
  split
  · decide
  split
  · decide
  split
  · decide
  next hnewline =>
  split
  next => simp [Ne.symm hnewline]
  split
  next =>
    have hdigits : '\n' ∉ Nat.toDigits 16 c.toNat := fun hmem =>
      absurd (hexValue?_of_mem_toDigits _ _ hmem) (by decide)
    simp [escapeCode, hdigits]
  next => simp [Ne.symm hnewline]

theorem newline_notMem_quoted (text : String) : '\n' ∉ (quoted text).toList := by
  have hbody : ∀ c ∈ text.toList, '\n' ∉ escapeShown '"' c :=
    fun c _ => newline_notMem_escapeShown '"' c
  simpa [quoted] using hbody

theorem newline_notMem_quotedChar (c : Char) : '\n' ∉ (quotedChar c).toList := by
  simpa [quotedChar] using newline_notMem_escapeShown '\'' c

end KCompiler.Text
