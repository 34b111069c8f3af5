import KCompiler.Emit.Escape
import KCompiler.Proofs.Lexing.Rules
import KCompiler.Proofs.Printing
import KCompiler.Token.Lexer
import Mathlib.Data.List.TakeWhile

/-! # Words that the lexer reads back

A word is written so that the lexer finds it again, as long as the character behind it does not
go on with it: a letter goes on with a name, and one operator sign with another. Texts that write
words are put together by looking at the characters where they meet.
-/

namespace KCompiler

/-- A text is lexed into tokens that write some words, wherever it stands and whatever stands
behind it, if that begins with a character that ends it. -/
structure Writes (ends : Char → Bool) (text : List Char) (words : List Word) : Prop where
  visible : Cursor.sentinel ∉ text
  locate_eq : ∀ rest, (∀ c ∈ rest.head?, ends c) → ∀ place, ∃ tokens next,
    Spells tokens words ∧ locate place (pieces (text ++ rest)) =
      ⟨tokens ++ (locate next (pieces rest)).tokens, (locate next (pieces rest)).findings⟩

namespace Writes

variable {ends stricter : Char → Bool} {first second : List Char} {words more : List Word}

theorem append (hfirst : Writes ends first words) (hsecond : Writes stricter second more)
    (hmeet : ∃ c tail, second = c :: tail ∧ ends c) :
    Writes stricter (first ++ second) (words ++ more) := by
  refine ⟨by simp [hfirst.visible, hsecond.visible], ?_⟩
  intro rest hrest place
  obtain ⟨c, tail, hhead, hends⟩ := hmeet
  have hbehind : ∀ d ∈ (second ++ rest).head?, ends d := by simpa [hhead] using hends
  obtain ⟨front, middle, hfront, hlocate⟩ := hfirst.locate_eq _ hbehind place
  obtain ⟨back, next, hback, hlast⟩ := hsecond.locate_eq rest hrest middle
  refine ⟨front ++ back, next, spells_append.mpr ⟨front, back, rfl, hfront, hback⟩, ?_⟩
  rw [List.append_assoc, hlocate, hlast, List.append_assoc]

/-- A whole source that writes words is lexed to them without a finding. -/
theorem lex_eq {source : String} (hwrites : Writes ends source.toList words) :
    ∃ tokens eof, Spells tokens words ∧ eof.kind = .eof ∧
      lex source = ⟨tokens ++ [eof], []⟩ := by
  obtain ⟨tokens, next, htokens, hlocate⟩ := hwrites.locate_eq [] (by simp) .start
  have hvisible : visibleText source = source.toList := by
    refine List.takeWhile_eq_self_iff.mpr fun c hc => ?_
    simpa using fun hnull : c = Cursor.sentinel => hwrites.visible (hnull ▸ hc)
  refine ⟨tokens, .endOfInput next.offset next.position, htokens, rfl, ?_⟩
  rw [List.append_nil, pieces] at hlocate
  rw [lex, hvisible, hlocate, locate]

end Writes

/-- A token that one rule makes of a first character and those behind it writes a word. -/
theorem writes_of_piece {ends : Char → Bool} {first : Char} {more content : List Char} {kind : Kind}
    {word : Word} (hvisible : Cursor.sentinel ∉ first :: more)
    (hpiece : ∀ rest, (∀ c ∈ rest.head?, ends c) →
      Scan.piece first (more ++ rest) =
        { width := more.length, token := some (kind, content) })
    (hspelt : ∀ token : Token, token.kind = kind → token.text = String.ofList content →
      word.Spelt token) : Writes ends (first :: more) [word] := by
  refine ⟨hvisible, ?_⟩
  intro rest hrest place
  rw [List.cons_append, pieces, hpiece rest hrest, locate]
  simp only [List.take_left, List.drop_left]
  exact ⟨[_], _, ⟨hspelt _ rfl rfl, trivial⟩, rfl⟩

namespace Scan

section Runs

variable {test : Char → Bool} {text rest : List Char}

theorem runLength_append (htext : ∀ c ∈ text, test c) (hrest : ∀ c ∈ rest.head?, test c = false) :
    runLength test (text ++ rest) = text.length := by
  rw [runLength, List.takeWhile_append_of_pos htext]
  cases rest with
  | nil => simp
  | cons c rest => simp [hrest c rfl]

end Runs

theorem isIdentifierPart_of_start {c : Char} (hc : isIdentifierStart c) : isIdentifierPart c := by
  simp only [isIdentifierStart, Bool.or_eq_true] at hc
  rcases hc with (hletter | hmark) | hmark
  · simp [isIdentifierPart, Text.isLetterOrNumeral_of_isLetter hletter]
  · simp [isIdentifierPart, hmark]
  · simp [isIdentifierPart, hmark]

theorem isIdentifierPart_operator {operator : Operator} {c : Char}
    (hc : c ∈ operator.symbol.toList) : isIdentifierPart c = false := by
  have hall : operator.symbol.toList.all fun c => !isIdentifierPart c := by
    cases operator <;> rfl
  simpa using List.all_eq_true.mp hall c hc

theorem isIdentifierPart_punct (mark : Punct) : isIdentifierPart mark.char = false := by
  cases mark <;> decide

/-- A decimal digit is the one of its value. -/
theorem exists_digitChar {c : Char} (hc : c.isDigit) : ∃ n < 10, Nat.digitChar n = c := by
  have hrange := Char.isDigit_iff_toNat.mp hc
  have hzero : '0'.toNat = 48 := rfl
  have hnine : '9'.toNat = 57 := rfl
  refine ⟨c.toNat - 48, by omega, Char.toNat_inj.mp ?_⟩
  rw [Nat.toNat_digitChar_of_lt_ten (by omega)]
  omega

theorem isIdentifierPart_of_isDigit {c : Char} (hc : c.isDigit) : isIdentifierPart c := by
  obtain ⟨n, hn, rfl⟩ := exists_digitChar hc
  revert n
  decide

theorem not_isIdentifierStart_of_isDigit {c : Char} (hc : c.isDigit) :
    isIdentifierStart c = false := by
  obtain ⟨n, hn, rfl⟩ := exists_digitChar hc
  revert n
  decide

variable {first : Char} {more rest : List Char}

/-- The first character decides that a word begins. -/
theorem piece_of_isIdentifierStart (hfirst : isIdentifierStart first) :
    piece first rest = word first rest := by
  have hpart := isIdentifierPart_of_start hfirst
  have hmark : punct? first = none := by
    refine List.find?_eq_none.mpr fun mark _ => ?_
    simp only [decide_eq_true_eq]
    rintro rfl
    rw [isIdentifierPart_punct] at hpart
    cases hpart
  have hoperator : operator? (first :: rest) = none := by
    refine List.find?_eq_none.mpr fun operator _ hprefix => ?_
    obtain ⟨c, more, hsymbol⟩ := exists_symbol_cons operator
    obtain ⟨rfl, -⟩ : c = first ∧ _ := by simpa [hsymbol] using hprefix
    rw [isIdentifierPart_operator (hsymbol ▸ List.mem_cons_self)] at hpart
    cases hpart
  unfold piece
  split
  case h_6 =>
    rw [if_neg, symbol_of_none hmark hoperator, if_pos hfirst]
    · intro hdigit
      rw [not_isIdentifierStart_of_isDigit hdigit] at hfirst
      cases hfirst
  all_goals exact absurd hfirst (by decide)

theorem piece_of_isDigit (hfirst : first.isDigit) : piece first rest = number first rest := by
  unfold piece
  split
  case h_6 => rw [if_pos hfirst]
  all_goals exact absurd hfirst (by decide)

/-- A character that does not go on with a name or a number, and does not make a name the prefix
of a literal, either. -/
def endsOperand (c : Char) : Bool :=
  !isIdentifierPart c && c ∉ ['.', '"', '\'']

theorem radix?_of_isDigit {c : Char} (hc : c.isDigit) : radix? c = none := by
  obtain ⟨n, hn, rfl⟩ := exists_digitChar hc
  revert n
  decide

theorem radix?_of_isIdentifierPart {c : Char} (hc : isIdentifierPart c = false) :
    radix? c = none := by
  unfold radix?
  split
  case h_5 => rfl
  all_goals exact absurd hc (by decide)

theorem number_eq (hmore : ∀ c ∈ more, c.isDigit) (hrest : ∀ c ∈ rest.head?, endsOperand c) :
    number first (more ++ rest) =
      { width := more.length, token := some (.integer, first :: more) } := by
  have hends (c : Char) (hc : c ∈ rest.head?) : isIdentifierPart c = false ∧ c ≠ '.' := by
    have hends := hrest c hc
    simp only [endsOperand, Bool.and_eq_true, Bool.not_eq_true'] at hends
    exact ⟨hends.1, by rintro rfl; simp at hends⟩
  have hmark : (more ++ rest).head?.bind radix? = none := by
    cases more with
    | cons c more => exact radix?_of_isDigit (hmore c List.mem_cons_self)
    | nil =>
        cases rest with
        | nil => rfl
        | cons c rest => exact radix?_of_isIdentifierPart (hends c rfl).1
  have hradix : (if first = '0' then (more ++ rest).head?.bind radix? else none) = none := by
    rw [hmark, ite_self]
  have hwidth : runLength Char.isDigit (more ++ rest) = more.length := by
    refine runLength_append hmore fun c hc => ?_
    by_contra hdigit
    have hpart := isIdentifierPart_of_isDigit (eq_true_of_ne_false hdigit)
    rw [(hends c hc).1] at hpart
    cases hpart
  rw [number]
  simp only [hradix, hwidth, List.drop_left]
  split
  next fraction => exact absurd rfl (hends '.' rfl).2
  next => simp [spelled]

theorem word_eq {kind : Kind} (hmore : ∀ c ∈ more, isIdentifierPart c)
    (hrest : ∀ c ∈ rest.head?, endsOperand c)
    (hkind : (Kind.ofWord? (String.ofList (first :: more))).getD .identifier = kind) :
    word first (more ++ rest) = { width := more.length, token := some (kind, first :: more) } := by
  have hwidth : runLength isIdentifierPart (more ++ rest) = more.length := by
    refine runLength_append hmore fun c hc => ?_
    have hends := hrest c hc
    simp only [endsOperand, Bool.and_eq_true, Bool.not_eq_true'] at hends
    exact hends.1
  rw [word]
  simp only [hwidth, List.take_left, hkind, spelled]

/-- A character that operators are made of. -/
def isOperatorChar (c : Char) : Bool :=
  Operator.all.any fun operator => operator.symbol.toList.contains c

/-- A character that does not go on with an operator. -/
def endsOperator (c : Char) : Bool :=
  !isOperatorChar c && c ∉ ['.', ':', '#']

theorem not_isOperatorChar_of_endsOperator {c : Char} (hc : endsOperator c) :
    isOperatorChar c = false := by
  simpa using (Bool.and_eq_true_iff.mp hc).1

theorem isOperatorChar_of_mem {operator : Operator} {c : Char}
    (hc : c ∈ operator.symbol.toList) : isOperatorChar c := by
  have hmem : operator ∈ Operator.all := by cases operator <;> decide
  exact List.any_eq_true.mpr ⟨operator, hmem, by simpa using hc⟩

theorem endsOperator_of_isIdentifierPart {c : Char} (hc : isIdentifierPart c) :
    endsOperator c := by
  have hoperator : isOperatorChar c = false := by
    by_contra hoperator
    obtain ⟨operator, -, hmem⟩ := List.any_eq_true.mp (eq_true_of_ne_false hoperator)
    rw [isIdentifierPart_operator (by simpa using hmem)] at hc
    cases hc
  have hmark : c ∉ ['.', ':', '#'] := by
    intro hmem
    simp only [List.mem_cons, List.not_mem_nil, or_false] at hmem
    rcases hmem with rfl | rfl | rfl <;> exact absurd hc (by decide)
  simp [endsOperator, hoperator, hmark]

/-- What begins a text with more behind it begins the text, or goes on into what is behind it. -/
theorem isPrefix_append_cases {symbol text : List Char} (hfront : symbol <+: text ++ rest) :
    symbol <+: text ∨ ∃ c tail, symbol = text ++ c :: tail ∧ rest.head? = some c := by
  rcases List.prefix_or_prefix_of_prefix hfront (List.prefix_append text rest) with hshort | hlong
  · exact .inl hshort
  · obtain ⟨tail, rfl⟩ := hlong
    cases tail with
    | nil => exact .inl (by simp)
    | cons c tail =>
        obtain ⟨left, hleft⟩ := (List.prefix_append_right_inj text).mp hfront
        exact .inr ⟨c, tail, rfl, by simp [← hleft]⟩

/-- What stands behind an operator does not make it longer if it begins with no character of
operators. -/
theorem operator?_append {text : List Char} (hrest : ∀ c ∈ rest.head?, isOperatorChar c = false) :
    operator? (text ++ rest) = operator? text := by
  unfold operator?
  congr 1
  funext operator
  rw [Bool.eq_iff_iff, List.isPrefixOf_iff_prefix, List.isPrefixOf_iff_prefix]
  refine ⟨fun hfront => ?_, fun hfront => hfront.trans (List.prefix_append _ _)⟩
  rcases isPrefix_append_cases hfront with hshort | ⟨c, tail, hsymbol, hhead⟩
  · exact hshort
  · have hother := hrest c hhead
    have hmem : c ∈ operator.symbol.toList := by simp [hsymbol]
    rw [isOperatorChar_of_mem hmem] at hother
    cases hother

theorem punct?_of_isOperatorChar {c : Char} (hc : isOperatorChar c) : punct? c = none := by
  refine List.find?_eq_none.mpr fun mark _ => ?_
  simp only [decide_eq_true_eq]
  rintro rfl
  revert hc
  cases mark <;> decide

theorem not_isDigit_of_isOperatorChar {c : Char} (hc : isOperatorChar c) : c.isDigit = false := by
  by_contra hdigit
  obtain ⟨n, hn, rfl⟩ := exists_digitChar (eq_true_of_ne_false hdigit)
  revert hc
  revert n
  decide

/-- No comment begins with an operator. -/
theorem not_comment {operator : Operator} (hsymbol : operator.symbol.toList = '/' :: more)
    (hrest : ∀ c ∈ rest.head?, isOperatorChar c = false) :
    ∀ c ∈ (more ++ rest).head?, c ≠ '/' ∧ c ≠ '*' := by
  intro c hc
  cases more with
  | nil =>
      have hother := hrest c hc
      constructor <;> rintro rfl <;> revert hother <;> decide
  | cons d more =>
      obtain rfl : d = c := by simpa using hc
      obtain rfl : d = '=' := by
        revert hsymbol
        cases operator <;> rintro ⟨⟩
        rfl
      decide

/-- An operator is read if no character of operators stands behind it. -/
theorem piece_operator {operator : Operator} (hsymbol : operator.symbol.toList = first :: more)
    (hrest : ∀ c ∈ rest.head?, isOperatorChar c = false) :
    piece first (more ++ rest) =
      { width := more.length, token := some (.op operator, first :: more) } := by
  have hfirst : isOperatorChar first := isOperatorChar_of_mem (hsymbol ▸ List.mem_cons_self)
  have hoperator : operator? (first :: (more ++ rest)) = some operator := by
    rw [← List.cons_append, operator?_append hrest, ← hsymbol, operator?_symbol]
  have hlength : operator.symbol.length - 1 = more.length := by
    rw [← String.length_toList, hsymbol]
    rfl
  unfold piece
  split
  case h_2 tail htail => exact absurd rfl (not_comment hsymbol hrest '/' (by simp [htail])).1
  case h_3 tail htail => exact absurd rfl (not_comment hsymbol hrest '*' (by simp [htail])).2
  case h_6 =>
    rw [if_neg (by simp [not_isDigit_of_isOperatorChar hfirst]),
      symbol_of_operator? (punct?_of_isOperatorChar hfirst) hoperator]
    simp [spelled, hlength]
  all_goals exact absurd hfirst (by decide)

theorem piece_punct (mark : Punct) (rest : List Char) :
    piece mark.char rest = { width := 0, token := some (.punct mark, [mark.char]) } := by
  cases mark <;> rfl

section Quoted

/-- Characters that the language can write in a literal by its own escapes. -/
def isPlain (c : Char) : Bool :=
  ['\n', '\t', '\r', '\x08', '\x0c'].contains c || !(c.toNat < 0x20 || c.toNat = 0x7f)

variable {quote c : Char}

/-- A character of a literal is written by an escape that stands for it, or as it is. -/
theorem escapeChar_cases (hquote : unescape quote = quote) (hplain : isPlain c) :
    (∃ mark, escapeChar quote c = ['\\', mark] ∧ unescape mark = c) ∨
      (escapeChar quote c = [c] ∧ c ≠ '\\' ∧ c ≠ quote) := by
  have hshort : ∀ pair ∈ shortEscapes, unescape pair.2 = pair.1 := by decide
  have hform := escaped_escapeChar quote c
  generalize escapeChar quote c = text at hform ⊢
  cases hform with
  | short hmark => exact .inl ⟨_, rfl, hshort _ hmark⟩
  | null hnull =>
      subst hnull
      exact absurd hplain (by decide)
  | quote hsame => exact .inl ⟨_, rfl, hsame ▸ hquote⟩
  | octal hlong hcontrol =>
      -- A control character that the language can write has a short escape.
      simp only [shortEscapes, List.map_cons, List.mem_cons, not_or] at hlong
      have hprintable : ¬(c.toNat < 0x20 ∨ c.toNat = 0x7f) := by simpa [isPlain, hlong] using hplain
      exact absurd hcontrol hprintable
  | plain hlong hsame _ => exact .inr ⟨rfl, fun hc => hlong (by rw [hc]; decide), hsame⟩

theorem stringBody_escapeChar (hplain : isPlain c) (rest : List Char) :
    stringBody (escapeChar '"' c ++ rest) =
      ((stringBody rest).1 + (escapeChar '"' c).length, c :: (stringBody rest).2) := by
  rcases escapeChar_cases (show unescape '"' = '"' from rfl) hplain with
    ⟨mark, hescape, hmark⟩ | ⟨hescape, hslash, hquote⟩
  · rw [hescape, List.cons_append, List.cons_append, List.nil_append, stringBody, hmark]
    rfl
  · rw [hescape, List.cons_append, List.nil_append, stringBody]
    · rfl
    · exact hquote
    · exact fun h => absurd h hslash
    · exact fun _ _ h => absurd h hslash

/-- A string is read back from its escaped text. -/
theorem stringBody_escapeText {content : List Char} (hplain : ∀ c ∈ content, isPlain c)
    (rest : List Char) :
    stringBody (escapeText '"' content ++ '"' :: rest) =
      ((escapeText '"' content).length + 1, content) := by
  induction content with
  | nil => rfl
  | cons c content ih =>
      rw [List.forall_mem_cons] at hplain
      rw [escapeText, List.flatMap_cons, List.append_assoc, stringBody_escapeChar hplain.1]
      rw [← escapeText, ih hplain.2, List.length_append]
      simp only [Prod.mk.injEq, and_true]
      omega

/-- A character is read back from its escaped text. -/
theorem charLiteral_escapeChar (hplain : isPlain c) (rest : List Char) :
    charLiteral (escapeChar '\'' c ++ '\'' :: rest) =
      { width := (escapeChar '\'' c).length + 1, token := some (.char, [c]) } := by
  rcases escapeChar_cases (show unescape '\'' = '\'' from rfl) hplain with
    ⟨mark, hescape, hmark⟩ | ⟨hescape, hslash, hquote⟩
  · rw [hescape, List.cons_append, List.cons_append, List.nil_append, charLiteral, hmark]
    rfl
  · rw [hescape, List.cons_append, List.nil_append, charLiteral]
    · rfl
    · exact hquote
    · exact fun h => absurd h hslash
    · exact fun _ _ h => absurd h hslash

end Quoted

end Scan

section Numbers

open Number

variable {radix limit : Nat} {overflow : IntegerError}

theorem Number.readDigits_append (value : Nat) (first second : List Char) :
    readDigits radix limit overflow value (first ++ second) =
      (readDigits radix limit overflow value first).bind fun value =>
        readDigits radix limit overflow value second := by
  induction first generalizing value with
  | nil => rfl
  | cons c first ih =>
      rw [List.cons_append, readDigits, readDigits]
      split
      · rfl
      · split
        · exact ih _
        · rfl

/-- The digits of a number are read back to it. -/
theorem Number.readDigits_toDigits (n : Nat) (hlimit : n ≤ limit) :
    readDigits 10 limit overflow 0 (Nat.toDigits 10 n) = .ok n := by
  induction n using digitInduction (by decide : 1 < 10) with
  | single n hn =>
      rw [Nat.toDigits_of_lt_base hn, readDigits, digit?_digitChar (by decide) hn]
      simp [hlimit, readDigits]
  | step n hn ih =>
      have hlast := digit?_digitChar (by decide) (Nat.mod_lt n (by decide : 10 > 0))
      have hvalue : n / 10 * 10 + n % 10 = n := by omega
      rw [Nat.toDigits_of_base_le (by decide) hn, readDigits_append, ih (by omega)]
      simp [Except.bind, readDigits, hlast, hvalue, hlimit]

theorem isDigit_of_mem_repr {n : Nat} {c : Char} (hc : c ∈ n.repr.toList) : c.isDigit := by
  rw [Nat.toList_repr] at hc
  exact Nat.isDigit_of_mem_toDigits (by decide) (by decide) hc

theorem Number.readInteger_repr {n : Nat} (hn : n ≤ maxInteger) :
    readInteger 10 n.repr.toList = .ok n := by
  have hvalue := @readDigits_toDigits maxInteger .tooLarge n hn
  have hdigits := @isDigit_of_mem_repr n
  have hsome : n.repr.toList ≠ [] := by simp [Nat.toList_repr, Nat.toDigits_ne_nil]
  rw [← Nat.toList_repr] at hvalue
  generalize n.repr.toList = digits at hvalue hdigits hsome
  unfold readInteger
  split
  case h_1 => exact absurd rfl hsome
  case h_6 => simp [hvalue, Except.map]
  all_goals exact absurd (hdigits List.mem_cons_self) (by decide)

theorem integerValue_repr {n : Nat} (hn : n ≤ maxInteger) : integerValue n.repr = .ok n := by
  unfold integerValue
  split
  next mark digits htext =>
    have hmark : mark.isDigit := @isDigit_of_mem_repr n mark (by simp [htext])
    simp only [Scan.radix?_of_isDigit hmark]
    exact readInteger_repr hn
  next => exact readInteger_repr hn

end Numbers

section Words

open Scan

/-- A text that the lexer takes for a word as a whole. -/
def WordLike (name : String) : Prop :=
  ∃ first more, name.toList = first :: more ∧ isIdentifierStart first ∧
    ∀ c ∈ more, isIdentifierPart c

theorem wordLike_iff (name : String) : WordLike name ↔
    name.toList.head?.any isIdentifierStart && name.toList.tail.all isIdentifierPart := by
  unfold WordLike
  cases name.toList with
  | nil => simp
  | cons first more => simp

instance (name : String) : Decidable (WordLike name) :=
  decidable_of_iff _ (wordLike_iff name).symm

theorem WordLike.isIdentifierPart {name : String} (hname : WordLike name) :
    ∀ c ∈ name.toList, Scan.isIdentifierPart c := by
  obtain ⟨first, more, htext, hfirst, hmore⟩ := hname
  rw [htext, List.forall_mem_cons]
  exact ⟨isIdentifierPart_of_start hfirst, hmore⟩

theorem WordLike.visible {name : String} (hname : WordLike name) :
    Cursor.sentinel ∉ name.toList := by
  intro hmem
  exact absurd (hname.isIdentifierPart _ hmem) (by decide)

theorem writes_name {name : String} (hname : WordLike name)
    (hword : Kind.ofWord? name = none) : Writes endsOperand name.toList [.name name] := by
  have hvisible := hname.visible
  obtain ⟨first, more, htext, hfirst, hmore⟩ := hname
  rw [htext] at hvisible ⊢
  have hsame : String.ofList (first :: more) = name := by rw [← htext, String.ofList_toList]
  refine @writes_of_piece _ _ _ (first :: more) .identifier _ hvisible ?_ ?_
  · intro rest hrest
    rw [piece_of_isIdentifierStart hfirst]
    exact word_eq hmore hrest (by rw [hsame, hword]; rfl)
  · intro token hkind htoken
    exact ⟨hkind, htoken.trans hsame⟩

theorem exists_repr_cons (n : Nat) :
    ∃ first more, n.repr.toList = first :: more ∧ first.isDigit ∧ ∀ c ∈ more, c.isDigit := by
  obtain ⟨first, more, htext⟩ : ∃ first more, n.repr.toList = first :: more :=
    List.exists_cons_of_ne_nil (by simp [Nat.toList_repr, Nat.toDigits_ne_nil])
  have hdigits : ∀ c ∈ first :: more, c.isDigit :=
    htext ▸ fun c => isDigit_of_mem_repr
  exact ⟨first, more, htext, List.forall_mem_cons.mp hdigits⟩

theorem writes_int {n : Nat} (hn : n ≤ Number.maxInteger) :
    Writes endsOperand n.repr.toList [.literal (.int n)] := by
  obtain ⟨first, more, htext, hfirst, hmore⟩ := exists_repr_cons n
  have hsame : String.ofList (first :: more) = n.repr := by rw [← htext, String.ofList_toList]
  have hvisible : Cursor.sentinel ∉ first :: more :=
    fun hmem => absurd (isDigit_of_mem_repr (htext ▸ hmem)) (by decide)
  rw [htext]
  refine @writes_of_piece _ _ _ (first :: more) .integer _ hvisible ?_ ?_
  · intro rest hrest
    rw [piece_of_isDigit hfirst]
    exact number_eq hmore hrest
  · intro token hkind htoken
    simp [Word.Spelt, Literal.ofToken?, hkind, htoken, hsame, integerValue_repr hn]

theorem writes_operator (operator : Operator) :
    Writes endsOperator operator.symbol.toList [.op operator] := by
  obtain ⟨first, more, hsymbol⟩ := exists_symbol_cons operator
  have hvisible : Cursor.sentinel ∉ operator.symbol.toList := by cases operator <;> decide
  rw [hsymbol] at hvisible ⊢
  refine @writes_of_piece _ _ _ (first :: more) (.op operator) _ hvisible ?_ fun _ hkind _ => hkind
  intro rest hrest
  exact piece_operator hsymbol fun c hc => not_isOperatorChar_of_endsOperator (hrest c hc)

theorem writes_punct (mark : Punct) (ends : Char → Bool) :
    Writes ends [mark.char] [.punct mark] := by
  have hvisible : Cursor.sentinel ∉ [mark.char] := by cases mark <;> decide
  refine @writes_of_piece _ _ _ [mark.char] (.punct mark) _ hvisible ?_ fun _ hkind _ => hkind
  exact fun rest _ => piece_punct mark rest

theorem visible_escapeText {quote : Char} {content : List Char} (hquote : unescape quote = quote)
    (hplain : ∀ c ∈ content, isPlain c) : Cursor.sentinel ∉ escapeText quote content := by
  intro hmem
  obtain ⟨c, hc, hmem⟩ := List.mem_flatMap.mp hmem
  have hnull : c ≠ Cursor.sentinel := by
    rintro rfl
    exact absurd (hplain _ hc) (by decide)
  rcases escapeChar_cases hquote (hplain c hc) with ⟨mark, hescape, hmark⟩ | ⟨hescape, -, -⟩
  · rw [hescape] at hmem
    obtain rfl : Cursor.sentinel = mark := by simpa [Cursor.sentinel] using hmem
    exact hnull hmark.symm
  · rw [hescape] at hmem
    exact hnull (List.mem_singleton.mp hmem).symm

theorem toList_stringText (value : String) :
    (stringText value).toList = '"' :: (escapeText '"' value.toList ++ ['"']) := by
  simp [stringText]

theorem toList_charText (value : Char) :
    (charText value).toList = '\'' :: (escapeChar '\'' value ++ ['\'']) := by
  simp [charText, escapeText]

theorem writes_string {value : String} (hplain : ∀ c ∈ value.toList, isPlain c)
    (ends : Char → Bool) :
    Writes ends (stringText value).toList [.literal (.string value)] := by
  rw [toList_stringText]
  refine @writes_of_piece _ _ _ value.toList .string _ ?_ ?_ ?_
  · simpa [Cursor.sentinel] using @visible_escapeText '"' _ rfl hplain
  · intro rest _
    change stringLiteral _ = _
    rw [stringLiteral, List.append_assoc, List.singleton_append, stringBody_escapeText hplain]
    simp
  · intro token hkind htoken
    simp [Word.Spelt, Literal.ofToken?, hkind, htoken]

theorem writes_char {value : Char} (hplain : isPlain value) (ends : Char → Bool) :
    Writes ends (charText value).toList [.literal (.char value)] := by
  rw [toList_charText]
  refine @writes_of_piece _ _ _ [value] .char _ ?_ ?_ ?_
  · simpa [Cursor.sentinel, escapeText] using
      @visible_escapeText '\'' [value] rfl (by simpa using hplain)
  · intro rest _
    change charLiteral _ = _
    rw [List.append_assoc, List.singleton_append, charLiteral_escapeChar hplain]
    simp
  · intro token hkind htoken
    simp [Word.Spelt, Literal.ofToken?, hkind, htoken, charValue]

end Words

end KCompiler
