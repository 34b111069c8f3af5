import KCompiler.Proofs.CReader.Words
import KCompiler.Proofs.Emission.Lexicon

/-! # Words that C reads back

Names, numbers, literals, operators and marks are written so that C finds them again, as long as
the character behind them does not go on with them. What C knows beyond the words of expressions
has to be kept away: comments, other punctuators, prefixes of literals, octal numbers.
-/

namespace KCompiler

open Scan

namespace C

/-- C reads a text as some words, whatever stands behind it, if that begins with a character that
ends it. -/
def Writes (ends : Char → Bool) (text : List Char) (words : List Word) : Prop :=
  ∀ rest, (∀ c ∈ rest.head?, ends c) → words? (text ++ rest) = (words? rest).map (words ++ ·)

section Texts

variable {ends stricter : Char → Bool} {first second : List Char} {words more : List Word}

theorem Writes.append (hfirst : Writes ends first words) (hsecond : Writes stricter second more)
    (hmeet : ∃ c tail, second = c :: tail ∧ ends c) :
    Writes stricter (first ++ second) (words ++ more) := by
  intro rest hrest
  obtain ⟨c, tail, hhead, hends⟩ := hmeet
  have hbehind : ∀ d ∈ (second ++ rest).head?, ends d := by simpa [hhead] using hends
  rw [List.append_assoc, hfirst _ hbehind, hsecond rest hrest, Option.map_map]
  congr 1
  funext others
  exact (List.append_assoc words more others).symm

theorem writes_of_word {c : Char} {tail : List Char} {word : Word} (hblank : isBlank c = false)
    (hword : ∀ rest, (∀ d ∈ rest.head?, ends d) →
      word? c (tail ++ rest) = some (word, tail.length)) :
    Writes ends (c :: tail) [word] := by
  intro rest hrest
  rw [List.cons_append, words?, if_neg (by simp [hblank]), hword rest hrest]
  simp

end Texts

/-- What passes a test that no blank passes is no blank. -/
theorem isBlank_eq_false {test : Char → Bool} {c : Char} (hc : test c)
    (hblanks : [' ', '\t', '\n', '\r', '\x0b', '\x0c'].all (!test ·)) : isBlank c = false := by
  refine decide_eq_false fun hmem => ?_
  have hother := List.all_eq_true.mp hblanks c hmem
  simp [hc] at hother

theorem isBlank_of_isIdentifierPart {c : Char} (hc : isIdentifierPart c) : isBlank c = false :=
  isBlank_eq_false hc rfl

section Operands

variable {rest : List Char}

theorem ends_of_endsOperand (hrest : ∀ c ∈ rest.head?, endsOperand c) :
    ∀ c ∈ rest.head?, isIdentifierPart c = false ∧ c ≠ '.' ∧ c ≠ '"' ∧ c ≠ '\'' := by
  intro c hc
  have hends := hrest c hc
  simpa [endsOperand] using hends

theorem writes_name {name : String} (hname : WordLike name) :
    Writes endsOperand name.toList [.name name] := by
  obtain ⟨first, more, htext, hfirst, hmore⟩ := hname
  rw [htext]
  refine writes_of_word (isBlank_of_isIdentifierPart (isIdentifierPart_of_start hfirst)) ?_
  intro rest hrest
  have hends := ends_of_endsOperand hrest
  have hwidth : runLength isIdentifierPart (more ++ rest) = more.length :=
    runLength_append hmore fun c hc => (hends c hc).1
  have hquote : rest.head? ∉ [some '"', some '\''] := by
    intro hmem
    simp only [List.mem_cons, List.not_mem_nil, or_false] at hmem
    rcases hmem with hhead | hhead
    · exact (hends '"' hhead).2.2.1 rfl
    · exact (hends '\'' hhead).2.2.2 rfl
  rw [word?, if_pos hfirst, name?]
  simp only [hwidth, List.drop_left, List.take_left, if_neg hquote]
  rw [← htext, String.ofList_toList]

theorem exponent_cases :
    ∀ c ∈ ['e', 'E', 'p', 'P'], isIdentifierPart c ∧ c.isDigit = false := by
  intro c hmem
  simp only [List.mem_cons, List.not_mem_nil, or_false] at hmem
  rcases hmem with rfl | rfl | rfl | rfl <;> decide

theorem numberWidth_stop {c : Char} (hpart : isIdentifierPart c = false) (hpoint : c ≠ '.') :
    numberWidth (c :: rest) = 0 := by
  have hexponent : c ∉ ['e', 'E', 'p', 'P'] := by
    intro hmem
    rw [(exponent_cases c hmem).1] at hpart
    cases hpart
  cases rest with
  | nil => rw [numberWidth, if_neg (by simp [hpart, hpoint])]
  | cons d rest => rw [numberWidth, if_neg (by simp [hexponent]), if_neg (by simp [hpart, hpoint])]

theorem numberWidth_digit {c : Char} (hdigit : c.isDigit) :
    numberWidth (c :: rest) = numberWidth rest + 1 := by
  have hpart := isIdentifierPart_of_isDigit hdigit
  have hexponent : c ∉ ['e', 'E', 'p', 'P'] := by
    intro hmem
    rw [(exponent_cases c hmem).2] at hdigit
    cases hdigit
  cases rest with
  | nil => simp [numberWidth, hpart]
  | cons d rest => rw [numberWidth, if_neg (by simp [hexponent]), if_pos (by simp [hpart])]

/-- A number goes on to the end of its digits. -/
theorem numberWidth_append {digits : List Char} (hdigits : ∀ c ∈ digits, c.isDigit)
    (hrest : ∀ c ∈ rest.head?, endsOperand c) : numberWidth (digits ++ rest) = digits.length := by
  induction digits with
  | nil =>
      cases rest with
      | nil => rfl
      | cons c rest =>
          obtain ⟨hpart, hpoint, -⟩ := ends_of_endsOperand hrest c rfl
          exact numberWidth_stop hpart hpoint
  | cons c digits ih =>
      rw [List.forall_mem_cons] at hdigits
      rw [List.cons_append, numberWidth_digit hdigits.1, ih hdigits.2, List.length_cons]

theorem natural?_toDigits (n : Nat) : natural? 10 (Nat.toDigits 10 n) = some n := by
  rw [natural?, if_neg (by simp [Nat.toDigits_ne_nil])]
  induction n using Number.digitInduction (by decide : 1 < 10) with
  | single n hn =>
      rw [Nat.toDigits_of_lt_base hn]
      simp [Number.digit?_digitChar (by decide) hn]
  | step n hn ih =>
      have hlast := Number.digit?_digitChar (by decide) (Nat.mod_lt n (by decide : 10 > 0))
      have hvalue : n / 10 * 10 + n % 10 = n := by omega
      rw [Nat.toDigits_of_base_le (by decide) hn, List.foldlM_append, ih]
      simp [hlast, hvalue]

/-- No other digit stands behind a leading zero. -/
theorem eq_nil_of_toDigits {n : Nat} {more : List Char}
    (hdigits : Nat.toDigits 10 n = '0' :: more) : more = [] := by
  induction n using Number.digitInduction (by decide : 1 < 10) generalizing more with
  | single n hn =>
      rw [Nat.toDigits_of_lt_base hn] at hdigits
      exact (List.cons.inj hdigits).2.symm
  | step n hn ih =>
      rw [Nat.toDigits_of_base_le (by decide) hn] at hdigits
      have hvalue := natural?_toDigits (n / 10)
      cases hfront : Nat.toDigits 10 (n / 10) with
      | nil => exact absurd hfront Nat.toDigits_ne_nil
      | cons c front =>
          rw [hfront] at hdigits hvalue
          obtain ⟨rfl, -⟩ := List.cons.inj hdigits
          obtain rfl := ih hfront
          have hzero : some 0 = some (n / 10) := hvalue
          have hnone := Option.some.inj hzero
          omega

theorem integer?_repr (n : Nat) : integer? n.repr.toList = some n := by
  rw [Nat.toList_repr]
  unfold integer?
  split
  next mark digits hdigits => cases eq_nil_of_toDigits hdigits
  next => exact natural?_toDigits n

theorem writes_int (n : Nat) : Writes endsOperand n.repr.toList [.literal (.int n)] := by
  have hvalue := integer?_repr n
  obtain ⟨first, more, htext, hfirst, hmore⟩ := exists_repr_cons n
  rw [htext] at hvalue ⊢
  refine writes_of_word (isBlank_of_isIdentifierPart (isIdentifierPart_of_isDigit hfirst)) ?_
  intro rest hrest
  rw [word?, if_neg (by simp [not_isIdentifierStart_of_isDigit hfirst]), if_pos hfirst]
  simp only [numberWidth_append hmore hrest, List.take_left, hvalue, Option.map_some]

end Operands

section Operators

variable {first : Char} {more rest : List Char}

/-- What stands behind an operator does not make it a punctuator without a word, either. -/
theorem not_foreign (operator : Operator) (hrest : ∀ c ∈ rest.head?, endsOperator c) :
    ¬foreign.any fun symbol => symbol.toList.isPrefixOf (operator.symbol.toList ++ rest) := by
  have hshort : ∀ symbol ∈ foreign, ¬symbol.toList <+: operator.symbol.toList := by
    cases operator <;> decide
  have hlong : ∀ symbol ∈ foreign, operator.symbol.toList <+: symbol.toList →
      (symbol.toList.drop operator.symbol.toList.length).head?.all (!endsOperator ·) := by
    cases operator <;> decide
  intro hany
  obtain ⟨symbol, hsymbol, hfront⟩ := List.any_eq_true.mp hany
  rw [List.isPrefixOf_iff_prefix] at hfront
  rcases isPrefix_append_cases hfront with hless | ⟨c, tail, heq, hhead⟩
  · exact hshort symbol hsymbol hless
  · have hends := hlong symbol hsymbol (by simp [heq])
    simp [heq, hrest c hhead] at hends

/-- The punctuators are looked for where nothing else begins. -/
theorem word?_punctuator (hstart : isIdentifierStart first = false) (hdigit : first.isDigit = false)
    (hquotes : first ≠ '"' ∧ first ≠ '\'')
    (hcomment : first = '/' → rest.head? ∉ [some '/', some '*']) (hpoint : first ≠ '.') :
    word? first rest = punctuator? first rest := by
  rw [word?, if_neg (by simp [hstart]), if_neg (by simp [hdigit]), if_neg hquotes.1,
    if_neg hquotes.2, if_neg (by simpa using hcomment), if_neg (by simp [hpoint])]

theorem writes_operator (operator : Operator) :
    Writes endsOperator operator.symbol.toList [.op operator] := by
  obtain ⟨first, more, hsymbol⟩ := exists_symbol_cons operator
  have hfirst : isOperatorChar first := isOperatorChar_of_mem (hsymbol ▸ List.mem_cons_self)
  have hstart : isIdentifierStart first = false := by
    have hother := isIdentifierPart_operator (hsymbol ▸ List.mem_cons_self)
    by_contra hstart
    rw [isIdentifierPart_of_start (eq_true_of_ne_false hstart)] at hother
    cases hother
  have hquotes : first ≠ '"' ∧ first ≠ '\'' := by
    constructor <;> rintro rfl <;> exact absurd hfirst (by decide)
  have hpoint : first ≠ '.' := by
    rintro rfl
    exact absurd hfirst (by decide)
  rw [hsymbol]
  refine writes_of_word (isBlank_eq_false hfirst rfl) ?_
  intro rest hrest
  have hends (c : Char) (hc : c ∈ rest.head?) : isOperatorChar c = false :=
    not_isOperatorChar_of_endsOperator (hrest c hc)
  have hcomment : first = '/' → (more ++ rest).head? ∉ [some '/', some '*'] := by
    rintro rfl hmem
    simp only [List.mem_cons, List.not_mem_nil, or_false] at hmem
    rcases hmem with hhead | hhead
    · exact (not_comment hsymbol hends '/' hhead).1 rfl
    · exact (not_comment hsymbol hends '*' hhead).2 rfl
  rw [word?_punctuator hstart (not_isDigit_of_isOperatorChar hfirst) hquotes hcomment hpoint,
    punctuator?, ← List.cons_append, ← hsymbol, if_neg (not_foreign operator hrest),
    operator?_append hends, operator?_symbol]
  simp [← String.length_toList, hsymbol]

theorem writes_punct {mark : Punct} (hmark : mark.standsAlone) (ends : Char → Bool) :
    Writes ends [mark.char] [.punct mark] := by
  refine writes_of_word (by cases mark <;> rfl) ?_
  intro rest _
  cases mark with
  | colon | dot => cases hmark
  | _ => rfl

end Operators

section Literals

variable {quote c value : Char} {text rest : List Char}

/-- No octal digit stands at the front of a text. -/
def NoOctal (text : List Char) : Prop :=
  ∀ c ∈ text.head?, Number.digit? 8 c = none

theorem escape?_simple {mark : Char} (hmark : Number.digit? 8 mark = none)
    (hvalue : simpleEscape? mark = some value) : escape? (mark :: rest) = some (value, 1) := by
  simp [escape?, hmark, hvalue]

/-- The short escape of the null character would go on with octal digits. -/
theorem escape?_zero (hrest : NoOctal rest) : escape? ('0' :: rest) = some ('\x00', 1) := by
  have hdigits :
      (('0' :: rest).take 3).takeWhile (fun c => (Number.digit? 8 c).isSome) = ['0'] := by
    cases rest with
    | nil => rfl
    | cons c rest =>
        have hzero : (Number.digit? 8 '0').isSome := rfl
        simp [hzero, hrest c rfl]
  rw [escape?]
  simp only [hdigits]
  rfl

theorem escape?_octal {code : Nat} (hcode : code < 512) (rest : List Char) :
    escape? (Nat.digitChar (code / 64 % 8) :: Nat.digitChar (code / 8 % 8) ::
      Nat.digitChar (code % 8) :: rest) = some (Char.ofNat code, 3) := by
  have hvalue : (code / 64 % 8 * 8 + code / 8 % 8) * 8 + code % 8 = code := by omega
  have hdigit (n : Nat) : Number.digit? 8 (Nat.digitChar (n % 8)) = some (n % 8) :=
    Number.digit?_digitChar (by decide) (Nat.mod_lt n (by decide))
  simp [escape?, natural?, hdigit, hvalue]

/-- How C reads what a character of a literal is written by. -/
theorem escapeChar_forms (hquote : quote = '"' ∨ quote = '\'') (c : Char) :
    (∃ escape, escapeChar quote c = '\\' :: escape ∧ ∀ rest, (c = '\x00' → NoOctal rest) →
      escape? (escape ++ rest) = some (c, escape.length)) ∨
    (escapeChar quote c = [c] ∧ c ≠ quote ∧ c ≠ '\n' ∧ c ≠ '\\') := by
  have hshort : ∀ pair ∈ shortEscapes,
      Number.digit? 8 pair.2 = none ∧ simpleEscape? pair.2 = some pair.1 := by decide
  have hform := escaped_escapeChar quote c
  generalize escapeChar quote c = text at hform ⊢
  cases hform with
  | short hmark =>
      obtain ⟨hdigit, hvalue⟩ := hshort _ hmark
      exact .inl ⟨_, rfl, fun _ _ => escape?_simple hdigit hvalue⟩
  | null hnull =>
      subst hnull
      exact .inl ⟨_, rfl, fun rest hrest => escape?_zero (hrest rfl)⟩
  | quote hsame =>
      subst hsame
      refine .inl ⟨_, rfl, fun _ _ => ?_⟩
      rcases hquote with rfl | rfl
      · exact escape?_simple rfl rfl
      · exact escape?_simple rfl rfl
  | octal _ hcontrol =>
      refine .inl ⟨_, rfl, fun rest _ => ?_⟩
      have hoctal := @escape?_octal c.toNat (by omega) rest
      rwa [Char.ofNat_toNat] at hoctal
  | plain hlong hsame _ =>
      exact .inr ⟨rfl, hsame, fun hc => hlong (by rw [hc]; decide),
        fun hc => hlong (by rw [hc]; decide)⟩

theorem quoted?_escapeChar (hquote : quote = '"' ∨ quote = '\'')
    (hnull : c = '\x00' → NoOctal rest) :
    quoted? quote (escapeChar quote c ++ rest) =
      (quoted? quote rest).map fun (content, width) =>
        (c :: content, width + (escapeChar quote c).length) := by
  have hslash : '\\' ≠ quote := by rcases hquote with rfl | rfl <;> decide
  rcases escapeChar_forms hquote c with ⟨escape, hform, hescape⟩ | ⟨hform, hsame, hline, hother⟩
  · rw [hform, List.cons_append, quoted?, if_neg hslash, if_neg (by decide), if_pos rfl,
      hescape rest hnull]
    simp [Nat.add_assoc]
  · rw [hform, List.singleton_append, quoted?, if_neg hsame, if_neg hline, if_neg hother]
    rfl

/-- A string without null characters is read back from its escaped text. -/
theorem quoted?_escapeText {content : List Char} (hquote : quote = '"' ∨ quote = '\'')
    (hnull : '\x00' ∉ content) :
    quoted? quote (escapeText quote content ++ quote :: rest) =
      some (content, (escapeText quote content).length + 1) := by
  induction content with
  | nil => simp [escapeText, quoted?]
  | cons c content ih =>
      rw [List.mem_cons, not_or] at hnull
      rw [escapeText, List.flatMap_cons, List.append_assoc, ← escapeText,
        quoted?_escapeChar hquote fun hc => absurd hc.symm hnull.1, ih hnull.2]
      simp only [Option.map_some, List.length_append]
      congr 2
      omega

theorem writes_string {value : String} (hnull : '\x00' ∉ value.toList) (ends : Char → Bool) :
    Writes ends (stringText value).toList [.literal (.string value)] := by
  rw [toList_stringText]
  refine writes_of_word rfl ?_
  intro rest _
  rw [word?, if_neg (by decide), if_neg (by decide), if_pos rfl, List.append_assoc,
    List.singleton_append, quoted?_escapeText (.inl rfl) hnull]
  simp

theorem writes_char (value : Char) (ends : Char → Bool) :
    Writes ends (charText value).toList [.literal (.char value)] := by
  rw [toList_charText]
  refine writes_of_word rfl ?_
  intro rest _
  have hclose : NoOctal ('\'' :: rest) := by
    intro c hc
    cases hc
    rfl
  have hend : quoted? '\'' ('\'' :: rest) = some ([], 1) := by rw [quoted?, if_pos rfl]
  rw [word?, if_neg (by decide), if_neg (by decide), if_neg (by decide), if_pos rfl,
    List.append_assoc, List.singleton_append, char?,
    quoted?_escapeChar (.inr rfl) fun _ => hclose, hend]
  simp [Nat.add_comm]

end Literals

end C

/-- Literals that C writes as literals. Truth values are names there. -/
def Literal.IsConstant : Literal → Prop
  | .int value => 0 ≤ value
  | .string value => '\x00' ∉ value.toList
  | .char _ => True
  | .float _ | .bool _ => False

/-- C as a reader of emitted texts. -/
def Lexicon.c : Lexicon where
  Writes := C.Writes
  IsName := WordLike
  IsLiteral := Literal.IsConstant
  append := C.Writes.append
  name := C.writes_name
  name_begins := WordLike.beginsOperand
  literal {value} hvalue mangling := by
    cases value with
    | int value =>
        obtain ⟨n, rfl⟩ := Int.eq_ofNat_of_zero_le hvalue
        exact C.writes_int n
    | string value => exact C.writes_string hvalue _
    | char value => exact C.writes_char value _
    | float value | bool value => exact hvalue.elim
  literal_begins {value} hvalue mangling := by
    cases value with
    | int value => exact Literal.beginsOperand_int hvalue mangling
    | string value => exact ⟨_, _, toList_stringText value, by decide⟩
    | char value => exact ⟨_, _, toList_charText value, by decide⟩
    | float value | bool value => exact hvalue.elim
  operator := C.writes_operator
  punct := C.writes_punct

end KCompiler
