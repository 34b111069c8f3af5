import KCompiler.Parse.Expression
import KCompiler.Proofs.Lexing.Lookahead
import KCompiler.Proofs.Lexing.Tokens
import Mathlib.Data.Nat.Digits.Defs

/-! # Integer literals are read exactly

The digits of a literal have a value in the base that the literal names. If it is a signed 64-bit
integer, it is what the literal is read as; no other value is taken for it, and the parser reports
the literal. A literal that names a base and has no digits is reported by the lexer as well.
-/

namespace KCompiler

namespace Number

/-- What a digit is worth, be it a capital or not. -/
def worth (c : Char) : Nat :=
  ['0', '1', '2', '3', '4', '5', '6', '7', '8', '9', 'a', 'b', 'c', 'd', 'e', 'f'].idxOf c.toLower

/-- The value of digits by their places. -/
def positional (base : Nat) (digits : List Char) : Nat :=
  Nat.ofDigits base (digits.reverse.map worth)

/-- The base that the beginning of a literal names, and the digits behind it. -/
def splitBase : List Char → Nat × List Char
  | '0' :: 'x' :: digits | '0' :: 'X' :: digits => (16, digits)
  | '0' :: 'b' :: digits | '0' :: 'B' :: digits => (2, digits)
  | digits => (10, digits)

/-! ## Digits -/

theorem toNat_le_of_isRadixDigit {c : Char} (hc : Scan.isRadixDigit .hexadecimal c) :
    c.toNat ≤ 'f'.toNat := by
  simp only [Scan.isRadixDigit, Bool.or_eq_true, Bool.and_eq_true, decide_eq_true_eq] at hc
  rcases hc with (hdigit | ⟨-, hle⟩) | ⟨-, hle⟩
  · exact (Char.isDigit_iff_toNat.mp hdigit).2.trans (by decide)
  · exact hle
  · exact Nat.le_trans hle (by decide)

theorem digit?_of_isRadixDigit {radix : Radix} {c : Char} (hc : Scan.isRadixDigit radix c) :
    digit? radix.base c = some (worth c) := by
  cases radix with
  | binary =>
      simp only [Scan.isRadixDigit, Bool.or_eq_true, beq_iff_eq] at hc
      rcases hc with rfl | rfl <;> rfl
  | hexadecimal =>
      have hall : ∀ n ≤ 'f'.toNat, Scan.isRadixDigit .hexadecimal (Char.ofNat n) →
          digit? 16 (Char.ofNat n) = some (worth (Char.ofNat n)) := by decide
      have hdigit := hall c.toNat (toNat_le_of_isRadixDigit hc)
      rw [Char.ofNat_toNat] at hdigit
      exact hdigit hc

theorem digit?_of_isDigit {c : Char} (hc : c.isDigit) : digit? 10 c = some (worth c) := by
  obtain ⟨n, hn, rfl⟩ := Scan.exists_digitChar hc
  revert n
  decide

/-! ## Values -/

section Values

variable {base limit : Nat} {digits : List Char}

/-- The value of digits behind others that are worth `value`, from left to right. -/
def accumulate (base value : Nat) (digits : List Char) : Nat :=
  digits.foldl (fun value c => value * base + worth c) value

theorem accumulate_cons (base value : Nat) (c : Char) (digits : List Char) :
    accumulate base value (c :: digits) = accumulate base (value * base + worth c) digits := rfl

theorem positional_eq_accumulate (base : Nat) (digits : List Char) :
    positional base digits = accumulate base 0 digits := by
  rw [positional, Nat.ofDigits_eq_foldr, List.foldr_map, List.foldr_reverse, accumulate]
  simp only [Nat.cast_id, Nat.add_comm, Nat.mul_comm]

/-- More digits never make a value smaller. -/
theorem le_accumulate (hbase : 0 < base) (digits : List Char) (value : Nat) :
    value ≤ accumulate base value digits := by
  induction digits generalizing value with
  | nil => exact Nat.le_refl value
  | cons c digits ih =>
      calc value ≤ value * base := Nat.le_mul_of_pos_right value hbase
        _ ≤ value * base + worth c := Nat.le_add_right _ _
        _ ≤ _ := ih _

variable (hdigits : ∀ c ∈ digits, digit? base c = some (worth c))

include hdigits

/-- If all digits together do not go beyond the limit, no first ones of them do. -/
theorem readDigits_of_le (hbase : 0 < base) (overflow : IntegerError) {value : Nat}
    (htotal : accumulate base value digits ≤ limit) :
    readDigits base limit overflow value digits = .ok (accumulate base value digits) := by
  induction digits generalizing value with
  | nil => rfl
  | cons c digits ih =>
      obtain ⟨hdigit, hdigits⟩ := List.forall_mem_cons.mp hdigits
      rw [accumulate_cons] at htotal
      have hstep : value * base + worth c ≤ limit := (le_accumulate hbase digits _).trans htotal
      simp only [readDigits, hdigit, if_pos hstep, accumulate_cons]
      exact ih hdigits htotal

theorem readDigits_of_lt (overflow : IntegerError) {value : Nat} (hvalue : value ≤ limit)
    (htotal : limit < accumulate base value digits) :
    readDigits base limit overflow value digits = .error overflow := by
  induction digits generalizing value with
  | nil => exact absurd hvalue (Nat.not_le.mpr htotal)
  | cons c digits ih =>
      obtain ⟨hdigit, hdigits⟩ := List.forall_mem_cons.mp hdigits
      simp only [readDigits, hdigit]
      split
      next hstep => exact ih hdigits hstep htotal
      next => rfl

theorem readInteger_eq (hne : digits ≠ []) :
    readInteger base digits = (readDigits base maxInteger .tooLarge 0 digits).map Int.ofNat := by
  have hsign {c : Char} (hc : c ∈ digits) : c ≠ '+' ∧ c ≠ '-' := by
    have hdigit := hdigits c hc
    constructor <;> rintro rfl <;> cases hdigit
  unfold readInteger
  split
  case h_1 => exact absurd rfl hne
  case h_2 | h_4 => exact absurd rfl (hsign List.mem_cons_self).1
  case h_3 | h_5 => exact absurd rfl (hsign List.mem_cons_self).2
  case h_6 => rfl

theorem readInteger_of_le (hbase : 0 < base) (hne : digits ≠ [])
    (hvalue : positional base digits ≤ maxInteger) :
    readInteger base digits = .ok (positional base digits) := by
  rw [positional_eq_accumulate] at hvalue ⊢
  rw [readInteger_eq hdigits hne, readDigits_of_le hdigits hbase .tooLarge hvalue]
  rfl

theorem readInteger_of_lt (hvalue : maxInteger < positional base digits) :
    readInteger base digits = .error .tooLarge := by
  have hne : digits ≠ [] := by
    rintro rfl
    exact Nat.not_lt_zero _ hvalue
  rw [positional_eq_accumulate] at hvalue
  rw [readInteger_eq hdigits hne, readDigits_of_lt hdigits .tooLarge (Nat.zero_le _) hvalue]
  rfl

end Values

end Number

open Number

/-! ## Literals -/

theorem splitBase_radix {mark : Char} {radix : Radix} (hmark : Scan.radix? mark = some radix)
    (digits : List Char) : splitBase ('0' :: mark :: digits) = (radix.base, digits) := by
  unfold Scan.radix? at hmark
  split at hmark <;> cases hmark <;> rfl

theorem splitBase_of_isDigit {text : List Char} (htext : ∀ c ∈ text, c.isDigit) :
    splitBase text = (10, text) := by
  unfold splitBase
  split
  case h_5 => rfl
  case h_1 => exact absurd (htext 'x' (by simp)) (by decide)
  case h_2 => exact absurd (htext 'X' (by simp)) (by decide)
  case h_3 => exact absurd (htext 'b' (by simp)) (by decide)
  case h_4 => exact absurd (htext 'B' (by simp)) (by decide)

/-- Without a base of its own, a literal is all digits. -/
theorem splitBase_snd {text : List Char} (hbase : (splitBase text).1 = 10) :
    (splitBase text).2 = text := by
  fun_cases splitBase text with
  | case1 | case2 | case3 | case4 => cases hbase
  | case5 => rfl

theorem integerValue_eq (text : String) :
    integerValue text = readInteger (splitBase text.toList).1 (splitBase text.toList).2 := by
  unfold integerValue
  split
  next mark digits htext =>
    split
    next radix hmark => rw [htext, splitBase_radix hmark]
    next hmark =>
      rw [htext, splitBase]
      all_goals
        rintro _ ⟨⟩
        cases hmark
  next hother =>
    rw [splitBase]
    all_goals exact fun digits htext => hother _ digits htext

/-- An integer without digits, by its kind and its text. -/
def lacksDigits (kind : Kind) (text : List Char) : Bool :=
  kind = .integer && (splitBase text).2.isEmpty

/-- The texts that integers have: not empty, with the digits of their base. -/
structure IsIntegerText (text : List Char) : Prop where
  ne_nil : text ≠ []
  base_pos : 0 < (splitBase text).1
  digits : ∀ c ∈ (splitBase text).2, digit? (splitBase text).1 c = some (worth c)

namespace Scan

variable {first : Char} {rest text : List Char}

theorem isIntegerText_of_number (hfirst : first.isDigit)
    (htoken : (number first rest).token = some (.integer, text)) : IsIntegerText text := by
  obtain ⟨body, after, rfl, hform⟩ := exists_numberForm first rest
  cases hform with
  | @radix mark radix digits hzero hmark hdigits hafter =>
      subst hzero
      rw [number_radix hmark hdigits hafter] at htoken
      cases htoken
      refine ⟨by simp, ?_, ?_⟩ <;> rw [splitBase_radix hmark]
      · cases radix <;> exact Nat.succ_pos _
      · exact fun c hc => digit?_of_isRadixDigit (hdigits c hc)
  | fraction hwhole hfraction hafter =>
      rw [number_fraction hwhole hfraction hafter] at htoken
      cases htoken
  | whole hwhole hafter =>
      rw [number_whole hwhole hafter] at htoken
      cases htoken
      have hdigits : ∀ c ∈ first :: body, c.isDigit := List.forall_mem_cons.mpr ⟨hfirst, hwhole⟩
      refine ⟨by simp, ?_, ?_⟩ <;> rw [splitBase_of_isDigit hdigits]
      · exact Nat.succ_pos _
      · exact fun c hc => digit?_of_isDigit (hdigits c hc)

/-- Of all numbers, the integers without digits are broken. -/
theorem number_missingDigits (hfirst : first.isDigit) (rest : List Char) :
    (number first rest).issue.any (·.code = "L005") =
      (number first rest).token.any fun token => lacksDigits token.1 token.2 := by
  obtain ⟨body, after, rfl, hform⟩ := exists_numberForm first rest
  cases hform with
  | @radix mark radix digits hzero hmark hdigits hafter =>
      subst hzero
      rw [number_radix hmark hdigits hafter]
      cases digits <;> simp [lacksDigits, splitBase_radix hmark, Issue.code]
  | fraction hwhole hfraction hafter =>
      rw [number_fraction hwhole hfraction hafter]
      rfl
  | whole hwhole hafter =>
      rw [number_whole hwhole hafter]
      simp [lacksDigits, splitBase_of_isDigit (List.forall_mem_cons.mpr ⟨hfirst, hwhole⟩)]

/-- Only the rule for numbers gives integers. -/
theorem Gives.number_of_integer (hgives : Gives first rest .integer text) :
    first.isDigit ∧ (Scan.number first rest).token = some (.integer, text) := by
  cases hgives with
  | word hfirst htoken =>
      obtain ⟨hkind, -⟩ := Prod.mk.inj (Option.some.inj htoken)
      cases hkind ▸ Kind.ofWord_getD _
  | number hfirst htoken => exact ⟨hfirst, htoken⟩

theorem piece_missingDigits (first : Char) (rest : List Char) :
    (piece first rest).issue.any (·.code = "L005") =
      (piece first rest).token.any fun token => lacksDigits token.1 token.2 := by
  by_cases hfirst : first.isDigit
  · rw [piece_of_isDigit hfirst]
    exact number_missingDigits hfirst rest
  have hissue : (piece first rest).issue.any (·.code = "L005") = false := by
    cases hissue : (piece first rest).issue with
    | none => rfl
    | some issue =>
        cases raises_of_piece hissue with
        | missingDigits radix hdigit => exact absurd hdigit hfirst
        | openComment | openChar | unclosedChar | emptyChar => rfl
  have htoken : (piece first rest).token.any (fun token => lacksDigits token.1 token.2) = false := by
    cases htoken : (piece first rest).token with
    | none => rfl
    | some token =>
        have hkind : token.1 ≠ .integer := by
          intro hkind
          have hgives : Gives first rest token.1 token.2 := gives_of_piece htoken
          rw [hkind] at hgives
          exact hfirst hgives.number_of_integer.1
        simp [lacksDigits, hkind]
  rw [hissue, htoken]

end Scan

/-! ## Findings of the lexer -/

namespace Piece

variable (piece : Piece) (start finish : Location)

theorem spans_finding? :
    ((piece.finding? start finish).toList.filter (·.issue.code = "L005")).map Finding.span =
      if piece.issue.any (·.code = "L005") then [⟨start.position, finish.position⟩] else [] := by
  unfold Piece.finding?
  cases piece.issue with
  | none => rfl
  | some issue =>
      by_cases hcode : issue.code = "L005"
      · have hissue : issue ≠ .openComment := by
          rintro rfl
          exact absurd hcode (by decide)
        simp [hcode, hissue]
      · simp [hcode]

theorem spans_token? :
    ((piece.token? start finish).toList.filter
        fun token => lacksDigits token.kind token.text.toList).map Token.span =
      if piece.token.any (fun token => lacksDigits token.1 token.2) then
        [⟨start.position, finish.position⟩]
      else [] := by
  unfold Piece.token?
  cases piece.token with
  | none => rfl
  | some token => cases hlacks : lacksDigits token.1 token.2 <;> simp [hlacks]

end Piece

/-- The spans of the integers without digits are those that the lexer reports for it. -/
theorem spans_missingDigits (place : Location) (text : List Char) :
    ((locate place (pieces text)).findings.filter (·.issue.code = "L005")).map Finding.span =
      ((locate place (pieces text)).tokens.filter
        fun token => lacksDigits token.kind token.text.toList).map Token.span := by
  fun_induction pieces text generalizing place with
  | case1 => rfl
  | case2 first rest scan ih =>
      simp only [locate, List.filter_append, List.map_append, ih, Piece.spans_finding?,
        Piece.spans_token?, scan, Scan.piece_missingDigits]

/-! ## Operands -/

namespace Token

/-- Where an operand begins, the parser takes the token for a number and reports errors with the
given codes, all of them at the token. -/
def ReadsAs (token : Token) (value : Int) (codes : List String) : Prop :=
  ∀ eof rest, (operand eof (token :: rest)).value = some (.literal (.int value)) ∧
    (operand eof (token :: rest)).rest = rest ∧
    (operand eof (token :: rest)).findings.map (fun finding => (finding.issue.code, finding.span)) =
      codes.map fun code => (code, token.span)

variable {token : Token} (hkind : token.kind = .integer)

include hkind

theorem readsAs_of_ok {value : Int} (hvalue : integerValue token.text = .ok value) :
    token.ReadsAs value [] := by
  intro eof rest
  have hopening : Opening.ofToken? token = some (.literal (.int value) []) := by
    simp [Opening.ofToken?, Literal.ofToken?, hkind, hvalue]
  rw [operand_cons]
  simp only [hopening]
  exact ⟨rfl, rfl, rfl⟩

theorem readsAs_of_error {error : IntegerError} (hvalue : integerValue token.text = .error error) :
    token.ReadsAs 0 ["P007"] := by
  intro eof rest
  have hopening : Opening.ofToken? token =
      some (.literal (.int 0) [⟨.invalidNumber .integer token.text, token.span⟩]) := by
    simp [Opening.ofToken?, Literal.ofToken?, hkind, hvalue]
  rw [operand_cons]
  simp only [hopening]
  exact ⟨rfl, rfl, rfl⟩

omit hkind

/-- The base in which an integer is written. -/
def base (token : Token) : Nat :=
  (splitBase token.text.toList).1

/-- The digits of an integer behind the base that it names. -/
def digits (token : Token) : List Char :=
  (splitBase token.text.toList).2

/-- What the digits of an integer are worth together. -/
def magnitude (token : Token) : Nat :=
  positional token.base token.digits

/-- An integer is read as what its digits are worth, or else refused, by the parser as well. -/
structure ReadsExactly (token : Token) : Prop where
  worth_lt_base : ∀ c ∈ token.digits, worth c < token.base
  of_lt : token.digits ≠ [] → token.magnitude < Nat.pow 2 63 →
    integerValue token.text = .ok token.magnitude ∧ token.ReadsAs token.magnitude []
  of_le : token.digits ≠ [] → Nat.pow 2 63 ≤ token.magnitude →
    integerValue token.text = .error .tooLarge ∧ token.ReadsAs 0 ["P007"]
  of_nil : token.digits = [] → token.base ≠ 10 ∧
    integerValue token.text = .error .empty ∧ token.ReadsAs 0 ["P007"]

theorem succ_maxInteger : maxInteger + 1 = Nat.pow 2 63 := by decide

theorem readsExactly (hkind : token.kind = .integer) (htext : IsIntegerText token.text.toList) :
    token.ReadsExactly where
  worth_lt_base c hc := by
    have hdigit := htext.digits c hc
    exact of_decide_eq_true (Option.filter_eq_some_iff.mp hdigit).2
  of_lt hne hlt := by
    rw [← succ_maxInteger, Nat.lt_succ_iff] at hlt
    have hvalue : integerValue token.text = .ok token.magnitude := by
      rw [integerValue_eq]
      exact readInteger_of_le htext.digits htext.base_pos hne hlt
    exact ⟨hvalue, readsAs_of_ok hkind hvalue⟩
  of_le _ hle := by
    have hvalue : integerValue token.text = .error .tooLarge := by
      rw [integerValue_eq]
      exact readInteger_of_lt htext.digits hle
    exact ⟨hvalue, readsAs_of_error hkind hvalue⟩
  of_nil hnil := by
    have hvalue : integerValue token.text = .error .empty := by
      rw [integerValue_eq, ← digits, hnil]
      rfl
    refine ⟨fun hbase => htext.ne_nil ?_, hvalue, readsAs_of_error hkind hvalue⟩
    exact (splitBase_snd hbase).symm.trans hnil

end Token

/-- Every integer of a source is read exactly or refused, and the lexer reports those without digits
and no others. -/
theorem integers_read_exactly (source : String) :
    (∀ token ∈ (lex source).tokens, token.kind = .integer → token.ReadsExactly) ∧
      ((lex source).findings.filter (·.issue.code = "L005")).map Finding.span =
        ((lex source).tokens.filter
          fun token => lacksDigits token.kind token.text.toList).map Token.span := by
  refine ⟨fun token hmem hkind => token.readsExactly hkind ?_,
    spans_missingDigits .start (visibleText source)⟩
  obtain ⟨front, first, rest, -, -, -, htoken, -⟩ :=
    exists_split_of_mem_lex hmem (by simp [hkind])
  have hgives := Scan.gives_of_piece htoken
  rw [hkind] at hgives
  obtain ⟨hfirst, hnumber⟩ := hgives.number_of_integer
  exact Scan.isIntegerText_of_number hfirst hnumber

/-- The largest integer is read, the next one is refused, and so is a base without digits. -/
theorem integers_read_exactly_limits :
    let source := "0x7FFFffffFFFFFFFF 009223372036854775808 0b"
    (lex source).tokens.map Token.magnitude =
        [9223372036854775807, 9223372036854775808, 0, 0] ∧
      (lex source).findings.map (·.issue.code) = ["L005"] ∧
      (∀ token ∈ (lex source).tokens, token.kind = .integer → token.ReadsExactly) ∧
      ((lex source).findings.filter (·.issue.code = "L005")).map Finding.span =
        ((lex source).tokens.filter
          fun token => lacksDigits token.kind token.text.toList).map Token.span :=
  ⟨by decide +kernel, by decide +kernel, integers_read_exactly _⟩

end KCompiler
