import KCompiler.Proofs.CReader.Spelling
import KCompiler.Proofs.Trees.Expressions
import KCompiler.Proofs.Trees.Source
import Mathlib.Data.List.Chain

/-! # What C reads in a literal

The short escape of the null character has one octal digit, and C takes up to two more for it. So
a null character swallows the octal digits that stand behind it; every other character is read
back as it was. A source ends at its first null character, so C reads back all literals of sources.
-/

namespace KCompiler.C

def isOctal (c : Char) : Bool :=
  (Number.digit? 8 c).isSome

/-- Octal digits at the front of a text that go on with the escape of a null character. -/
def swallowed (text : List Char) : List Char :=
  (text.take 2).takeWhile isOctal

/-- The character that octal digits stand for. -/
def octalChar (digits : List Char) : Char :=
  Char.ofNat (digits.foldl (fun code c => code * 8 + (Number.digit? 8 c).getD 0) 0)

/-- A text as C reads its escaped form. -/
def absorbed (text : List Char) : List Char :=
  match text with
  | [] => []
  | c :: rest =>
    if c = '\x00' then octalChar (swallowed rest) :: absorbed (rest.drop (swallowed rest).length)
    else c :: absorbed rest
termination_by text.length
decreasing_by all_goals simp only [List.length_cons, List.length_drop]; omega

/-- No octal digit stands directly behind a null character. -/
def NullsApart (text : List Char) : Prop :=
  text.IsChain fun c d => c = '\x00' → isOctal d = false

section Reading

variable {quote c : Char} {text rest digits : List Char}

theorem digitChar_eq_ofNat : ∀ n < 8, Nat.digitChar n = Char.ofNat (n + '0'.toNat) := by
  decide

theorem exists_digitChar_of_isOctal (hc : isOctal c) : ∃ n < 8, c = Nat.digitChar n := by
  obtain ⟨n, hn⟩ := Option.isSome_iff_exists.mp hc
  obtain ⟨hvalue, hless⟩ := Option.filter_eq_some_iff.mp hn
  have hless : n < 8 := of_decide_eq_true hless
  refine ⟨n, hless, ?_⟩
  unfold Number.hexValue? at hvalue
  split at hvalue
  next hrange =>
    have hlow : '0'.toNat ≤ c.toNat := hrange.1
    have hcode : c.toNat = n + '0'.toNat := by
      have hvalue := Option.some.inj hvalue
      omega
    rw [digitChar_eq_ofNat n hless, ← hcode, Char.ofNat_toNat]
  next =>
    -- The letters among the digits are worth ten and more.
    split at hvalue
    · have hvalue := Option.some.inj hvalue
      omega
    · split at hvalue
      · have hvalue := Option.some.inj hvalue
        omega
      · cases hvalue

/-- An octal digit is written as it is. -/
theorem escapeChar_of_isOctal (hquote : quote = '"' ∨ quote = '\'') (hc : isOctal c) :
    escapeChar quote c = [c] := by
  obtain ⟨n, hn, rfl⟩ := exists_digitChar_of_isOctal hc
  revert n
  rcases hquote with rfl | rfl <;> decide

theorem escapeText_of_isOctal (hquote : quote = '"' ∨ quote = '\'')
    (hdigits : ∀ c ∈ digits, isOctal c) : escapeText quote digits = digits := by
  induction digits with
  | nil => rfl
  | cons c digits ih =>
      rw [List.forall_mem_cons] at hdigits
      rw [escapeText, List.flatMap_cons, ← escapeText, ih hdigits.2,
        escapeChar_of_isOctal hquote hdigits.1, List.singleton_append]

/-- What writes any other character begins with no octal digit. -/
theorem exists_escapeChar_cons (hquote : quote = '"' ∨ quote = '\'') (hc : isOctal c = false) :
    ∃ first more, escapeChar quote c = first :: more ∧ isOctal first = false := by
  rcases escapeChar_forms hquote c with ⟨escape, hform, -⟩ | ⟨hform, -⟩
  · exact ⟨'\\', escape, hform, rfl⟩
  · exact ⟨c, [], hform, hc⟩

/-- The octal digits at the front of a text stand at the front of its escaped form. -/
theorem takeWhile_escapeText (hquote : quote = '"' ∨ quote = '\'') (n : Nat)
    (text rest : List Char) :
    ((escapeText quote text ++ quote :: rest).take n).takeWhile isOctal =
      (text.take n).takeWhile isOctal := by
  have hclose : isOctal quote = false := by rcases hquote with rfl | rfl <;> rfl
  induction n generalizing text with
  | zero => simp
  | succ n ih =>
      cases text with
      | nil => simp [escapeText, hclose]
      | cons c text =>
          rw [escapeText, List.flatMap_cons, ← escapeText, List.append_assoc]
          by_cases hc : isOctal c
          · simp [escapeChar_of_isOctal hquote hc, hc, ih]
          · rw [Bool.not_eq_true] at hc
            obtain ⟨first, more, hform, hfirst⟩ := exists_escapeChar_cons hquote hc
            simp [hform, hfirst, hc]

theorem foldlM_octal (hdigits : ∀ c ∈ digits, isOctal c) (code : Nat) :
    digits.foldlM (fun value c => (Number.digit? 8 c).map (value * 8 + ·)) code =
      some (digits.foldl (fun code c => code * 8 + (Number.digit? 8 c).getD 0) code) := by
  induction digits generalizing code with
  | nil => rfl
  | cons c digits ih =>
      rw [List.forall_mem_cons] at hdigits
      obtain ⟨n, hn⟩ := Option.isSome_iff_exists.mp hdigits.1
      simp [hn, ih hdigits.2]

theorem isOctal_of_mem_swallowed (hmem : c ∈ swallowed text) : isOctal c :=
  List.all_eq_true.mp List.all_takeWhile c hmem

theorem swallowed_append_drop (text : List Char) :
    swallowed text ++ text.drop (swallowed text).length = text := by
  have hfront : swallowed text <+: text :=
    (List.takeWhile_prefix _).trans (List.take_prefix 2 text)
  exact (List.prefix_iff_eq_append.mp hfront)

/-- The escape of a null character goes on with the octal digits behind it. -/
theorem escape?_null (hquote : quote = '"' ∨ quote = '\'') (text rest : List Char) :
    escape? ('0' :: (escapeText quote text ++ quote :: rest)) =
      some (octalChar (swallowed text), (swallowed text).length + 1) := by
  have hdigits : (('0' :: (escapeText quote text ++ quote :: rest)).take 3).takeWhile
      (fun c => (Number.digit? 8 c).isSome) = '0' :: swallowed text := by
    have hmore := takeWhile_escapeText hquote 2 text rest
    rw [List.take_succ_cons, List.takeWhile_cons_of_pos rfl]
    exact congrArg ('0' :: ·) hmore
  have hcode : natural? 8 ('0' :: swallowed text) = some _ :=
    foldlM_octal (fun _ => isOctal_of_mem_swallowed) 0
  rw [escape?]
  simp only [hdigits, hcode]
  rfl

theorem escapeText_eq_swallowed_append (hquote : quote = '"' ∨ quote = '\'') (text : List Char) :
    escapeText quote text =
      swallowed text ++ escapeText quote (text.drop (swallowed text).length) := by
  conv_lhs => rw [← swallowed_append_drop text]
  rw [escapeText, List.flatMap_append, ← escapeText, ← escapeText,
    escapeText_of_isOctal hquote fun _ => isOctal_of_mem_swallowed]

theorem quoted?_null (hquote : quote = '"' ∨ quote = '\'') (text rest : List Char) :
    quoted? quote (escapeText quote ('\x00' :: text) ++ quote :: rest) =
      (quoted? quote (escapeText quote (text.drop (swallowed text).length) ++ quote :: rest)).map
        fun (content, width) =>
          (octalChar (swallowed text) :: content, width + ((swallowed text).length + 1) + 1) := by
  have hslash : '\\' ≠ quote := by rcases hquote with rfl | rfl <;> decide
  have hform : escapeText quote ('\x00' :: text) = '\\' :: '0' :: escapeText quote text := rfl
  have hdrop : (escapeText quote text ++ quote :: rest).drop (swallowed text).length =
      escapeText quote (text.drop (swallowed text).length) ++ quote :: rest := by
    rw [escapeText_eq_swallowed_append hquote text, List.append_assoc, List.drop_left]
  rw [hform, List.cons_append, List.cons_append, quoted?, if_neg hslash, if_neg (by decide),
    if_pos rfl, escape?_null hquote, Option.bind_some]
  simp only [List.drop_succ_cons, hdrop]

/-- The literal of a text ends at its closing quote, and C reads the absorbed text in it. -/
theorem quoted?_eq_absorbed (hquote : quote = '"' ∨ quote = '\'') (text rest : List Char) :
    quoted? quote (escapeText quote text ++ quote :: rest) =
      some (absorbed text, (escapeText quote text).length + 1) := by
  fun_induction absorbed text with
  | case1 => simp [escapeText, quoted?]
  | case2 text ih =>
      have hlength := congrArg List.length (escapeText_eq_swallowed_append hquote text)
      have hform : escapeText quote ('\x00' :: text) = '\\' :: '0' :: escapeText quote text := rfl
      rw [quoted?_null hquote, ih, Option.map_some, hform]
      simp only [List.length_append, List.length_cons] at hlength ⊢
      congr 2
      omega
  | case3 c text hnull ih =>
      rw [escapeText, List.flatMap_cons, List.append_assoc, ← escapeText,
        quoted?_escapeChar hquote fun hc => absurd hc hnull, ih]
      simp only [Option.map_some, List.length_append]
      congr 2
      omega

end Reading

theorem length_absorbed_le (text : List Char) : (absorbed text).length ≤ text.length := by
  fun_induction absorbed text with
  | case1 => exact Nat.le_refl 0
  | case2 text ih =>
      simp only [List.length_cons, List.length_drop] at ih ⊢
      omega
  | case3 c text _ ih => exact Nat.succ_le_succ ih

theorem swallowed_eq_nil_iff {text : List Char} :
    swallowed text = [] ↔ ∀ c ∈ text.head?, isOctal c = false := by
  cases text with
  | nil => simp [swallowed]
  | cons c text => simp [swallowed]

/-- A text is read back as it was exactly if no null character swallows a digit. -/
theorem absorbed_eq_self_iff (text : List Char) : absorbed text = text ↔ NullsApart text := by
  induction text with
  | nil => simp [absorbed, NullsApart]
  | cons c text ih =>
      rw [NullsApart, List.isChain_cons, ← NullsApart, ← ih, absorbed]
      split
      next hnull =>
        subst hnull
        have hhead : (∀ d ∈ text.head?, '\x00' = '\x00' → isOctal d = false) ↔
            swallowed text = [] := by
          rw [swallowed_eq_nil_iff]
          exact ⟨fun h d hd => h d hd rfl, fun h d hd _ => h d hd⟩
        rw [hhead]
        constructor
        · intro heq
          -- What is swallowed makes the text shorter.
          have hlength := congrArg List.length heq
          have hle := length_absorbed_le (text.drop (swallowed text).length)
          have hfront := congrArg List.length (swallowed_append_drop text)
          simp only [List.length_cons, List.length_append] at hlength hle hfront
          have hnone : swallowed text = [] := List.eq_nil_of_length_eq_zero (by omega)
          rw [hnone] at heq
          exact ⟨hnone, (List.cons.inj heq).2⟩
        · rintro ⟨hnone, heq⟩
          rw [hnone, List.length_nil, List.drop_zero, heq]
          rfl
      next hnull => simp [hnull]

/-- The escaped form of a text makes one literal, which the quote behind it closes. C reads the
text in it exactly if no octal digit stands behind a null character. -/
theorem literal_read_back {quote : Char} (hquote : quote = '"' ∨ quote = '\'')
    (text rest : List Char) :
    quoted? quote (escapeText quote text ++ quote :: rest) =
        some (absorbed text, (escapeText quote text).length + 1) ∧
      (absorbed text = text ↔ NullsApart text) :=
  ⟨quoted?_eq_absorbed hquote text rest, absorbed_eq_self_iff text⟩

/-- Control characters before digits, a quote, and a null character at the end. -/
theorem literal_read_back_controls :
    let text := ['\x01', '7', '\x7f', '0', '"', '\n', '\x00']
    quoted? '"' (escapeText '"' text ++ ['"']) = some (text, 17) := by
  intro text
  have hread := literal_read_back (.inl rfl) text []
  rw [hread.2.mpr (by unfold NullsApart; decide)] at hread
  exact hread.1

/-- A null character before a digit is read as another character. -/
theorem not_read_back_null_digit :
    quoted? '"' (escapeText '"' ['\x00', '1'] ++ ['"']) = some (['\x01'], 4) ∧
      ['\x01'] ≠ ['\x00', '1'] := by
  refine ⟨?_, by decide⟩
  rw [quoted?_eq_absorbed (.inl rfl)]
  with_unfolding_all rfl

/-! ## Literals of sources -/

/-- The quote and the text of a literal that is written in quotes. -/
def quotation? : Literal → Option (Char × List Char)
  | .string value => some ('"', value.toList)
  | .char value => some ('\'', [value])
  | .int _ | .float _ | .bool _ => none

/-- No literal of a source holds a null character, but for character literals without a character,
which stand for it alone. So no digit is ever behind one, and C reads back all literals. -/
theorem quoted?_of_source (source : String) {value : Literal} {quote : Char} {text : List Char}
    (hmem : .literal value ∈ (parseModule (lex source).tokens).value.expressions)
    (hquotation : quotation? value = some (quote, text)) (rest : List Char) :
    ('\x00' ∈ text → value = .char '\x00') ∧
      quoted? quote (escapeText quote text ++ quote :: rest) =
        some (text, (escapeText quote text).length + 1) := by
  have hsourced : value.IsSourced := ((parseModule_lex_fits source).expressions _ hmem).2
  cases value with
  | string value =>
      cases hquotation
      exact ⟨fun hnull => absurd hnull hsourced, quoted?_escapeText (.inl rfl) hsourced⟩
  | char value =>
      cases hquotation
      have happart : NullsApart [value] := List.isChain_singleton value
      rw [quoted?_eq_absorbed (.inr rfl), (absorbed_eq_self_iff [value]).mpr happart]
      exact ⟨fun hnull => by rw [List.mem_singleton.mp hnull], rfl⟩
  | int value | float value | bool value => cases hquotation

end KCompiler.C
