import KCompiler.Proofs.Lexing.Lookahead
import KCompiler.Proofs.Lexing.Tokens

/-! # Tokens take as much as they can

A token that the source spells goes on for as long as its kind allows: no longer operator begins
where an operator or a mark stands, and behind a word or a number the next character does not go on
with it. This is so for all that may follow, null characters and what they hide included.
-/

namespace KCompiler

/-- The characters that words are made of. -/
def IsWordChar (c : Char) : Prop :=
  Text.isLetterOrNumeral c ∨ c = '_' ∨ c = '@'

/-- A word that ends where the characters of words do. -/
structure IsWholeWord (text after : List Char) : Prop where
  start : ∃ c ∈ text.head?, Text.isLetter c ∨ c = '_' ∨ c = '@'
  inside : ∀ c ∈ text, IsWordChar c
  stops : ∀ c ∈ after.head?, ¬IsWordChar c

/-- Digits that end where digits do. -/
structure IsWholeRun (isDigit : Char → Bool) (text after : List Char) : Prop where
  inside : ∀ c ∈ text, isDigit c
  stops : ∀ c ∈ after.head?, ¬isDigit c

/-- No operator that begins where a text does goes beyond it. -/
def BoundsOperators (text after : List Char) : Prop :=
  ∀ operator : Operator, operator.symbol.toList <+: text ++ after →
    operator.symbol.length ≤ text.length

/-- What a kind of token says about the text of the token and the text behind it. -/
def Kind.TakesMost (text after : List Char) : Kind → Prop
  | .op operator => text = operator.symbol.toList ∧ BoundsOperators text after
  | .punct mark => text = mark.symbol.toList ∧ BoundsOperators text after
  | .keyword word => IsWholeWord text after ∧ text = word.symbol.toList
  | .builtin type => IsWholeWord text after ∧ text = type.symbol.toList
  | .identifier =>
    IsWholeWord text after ∧ (∀ word : Keyword, text ≠ word.symbol.toList) ∧
      ∀ type : Builtin, text ≠ type.symbol.toList
  | .integer =>
    (text ≠ [] ∧ IsWholeRun Char.isDigit text after ∧
      ∀ c ∈ after.head?, c ≠ '.' ∧ (text = ['0'] → Scan.radix? c = none)) ∨
    ∃ mark radix digits, text = '0' :: mark :: digits ∧ Scan.radix? mark = some radix ∧
      IsWholeRun (Scan.isRadixDigit radix) digits after
  | .float =>
    ∃ whole fraction, text = whole ++ '.' :: fraction ∧ whole ≠ [] ∧ (∀ c ∈ whole, c.isDigit) ∧
      IsWholeRun Char.isDigit fraction after
  | .string | .char | .newline | .eof => True

namespace Scan

variable {first : Char} {rest text body after : List Char} {kind : Kind}

/-! ## Marks and operators -/

theorem boundsOperators_of_punct? {mark : Punct} (hmark : punct? first = some mark) :
    BoundsOperators [first] rest := by
  intro operator hbegins
  obtain ⟨c, more, hsymbol⟩ := exists_symbol_cons operator
  rw [hsymbol, List.singleton_append, List.cons_prefix_cons] at hbegins
  obtain ⟨rfl, -⟩ := hbegins
  have hchar : isOperatorChar c := @isOperatorChar_of_mem operator c (by simp [hsymbol])
  rw [punct?_of_isOperatorChar hchar] at hmark
  cases hmark

theorem symbol_of_punct?_eq_some {mark : Punct} (hmark : punct? first = some mark) :
    mark.symbol.toList = [first] := by
  have hchar : mark.char = first := by simpa using List.find?_some hmark
  rw [Punct.symbol, String.toList_singleton, hchar]

/-! ## Words -/

theorem isWordChar_iff {c : Char} : IsWordChar c ↔ isIdentifierPart c := by
  simp [IsWordChar, isIdentifierPart, or_assoc]

theorem isWholeWord_cons (hfirst : isIdentifierStart first) (hbody : ∀ c ∈ body, isIdentifierPart c)
    (hafter : ∀ c ∈ after.head?, isIdentifierPart c = false) :
    IsWholeWord (first :: body) after where
  start := ⟨first, rfl, by simpa [isIdentifierStart, or_assoc] using hfirst⟩
  inside := by
    simp only [List.forall_mem_cons, isWordChar_iff]
    exact ⟨isIdentifierPart_of_start hfirst, hbody⟩
  stops c hc := by
    rw [isWordChar_iff, hafter c hc]
    exact Bool.false_ne_true

theorem takesMost_of_ofWord (hkind : kind.OfWord (String.ofList text))
    (hword : IsWholeWord text after) : kind.TakesMost text after := by
  have hspelt {symbol : String} : symbol = String.ofList text ↔ text = symbol.toList := by
    rw [eq_comm, ← String.toList_inj, String.toList_ofList]
  cases hkind with
  | keyword hsymbol | builtin hsymbol => exact ⟨hword, hspelt.mp hsymbol⟩
  | identifier hkeyword htype =>
      exact ⟨hword, fun reserved => mt hspelt.mpr (hkeyword reserved),
        fun type => mt hspelt.mpr (htype type)⟩

/-! ## Numbers -/

theorem isWholeRun_of_head? {isDigit : Char → Bool} (hinside : ∀ c ∈ text, isDigit c)
    (hafter : ∀ c ∈ after.head?, isDigit c = false) : IsWholeRun isDigit text after :=
  ⟨hinside, fun c hc => by simp [hafter c hc]⟩

theorem takesMost_whole (hfirst : first.isDigit) (hbody : ∀ c ∈ body, c.isDigit)
    (hafter : ∀ c ∈ after.head?, continuesNumber first body c = false) :
    Kind.integer.TakesMost (first :: body) after := by
  have hstops (c : Char) (hc : c ∈ after.head?) : c.isDigit = false ∧ c ≠ '.' ∧
      (first :: body = ['0'] → radix? c = none) := by
    have hcontinues := hafter c hc
    simp only [continuesNumber, Bool.or_eq_false_iff, beq_eq_false_iff_ne] at hcontinues
    obtain ⟨⟨hdigit, hpoint⟩, hmark⟩ := hcontinues
    refine ⟨hdigit, hpoint, fun hzero => ?_⟩
    obtain ⟨rfl, rfl⟩ := List.cons.inj hzero
    simpa using hmark
  refine .inl ⟨by simp, isWholeRun_of_head? ?_ fun c hc => (hstops c hc).1, fun c hc =>
    (hstops c hc).2⟩
  exact List.forall_mem_cons.mpr ⟨hfirst, hbody⟩

theorem exists_takesMost_number (hfirst : first.isDigit)
    (htoken : (number first rest).token = some (kind, text)) :
    ∃ after, first :: rest = text ++ after ∧ kind.TakesMost text after := by
  obtain ⟨body, after, rfl, hform⟩ := exists_numberForm first rest
  cases hform with
  | @radix mark radix digits hzero hmark hdigits hafter =>
      subst hzero
      rw [number_radix hmark hdigits hafter] at htoken
      obtain ⟨rfl, rfl⟩ := Prod.mk.inj (Option.some.inj htoken)
      exact ⟨after, rfl, .inr ⟨mark, radix, digits, rfl, hmark, isWholeRun_of_head? hdigits hafter⟩⟩
  | @fraction whole fraction hwhole hfraction hafter =>
      rw [number_fraction hwhole hfraction hafter] at htoken
      obtain ⟨rfl, rfl⟩ := Prod.mk.inj (Option.some.inj htoken)
      refine ⟨after, rfl, first :: whole, fraction, rfl, by simp, ?_,
        isWholeRun_of_head? hfraction hafter⟩
      exact List.forall_mem_cons.mpr ⟨hfirst, hwhole⟩
  | whole hwhole hafter =>
      rw [number_whole hwhole hafter] at htoken
      obtain ⟨rfl, rfl⟩ := Prod.mk.inj (Option.some.inj htoken)
      exact ⟨after, rfl, takesMost_whole hfirst hwhole hafter⟩

/-- Every rule takes as much of the text as its kind of token can be. -/
theorem Gives.exists_takesMost (hgives : Gives first rest kind text) (hspelt : kind.isSpelt) :
    ∃ after, first :: rest = text ++ after ∧ kind.TakesMost text after := by
  cases hgives with
  | word hfirst htoken =>
      obtain ⟨body, after, rfl, hbody, hafter⟩ := exists_run isIdentifierPart rest
      rw [word_append hbody hafter] at htoken
      obtain ⟨rfl, rfl⟩ := Prod.mk.inj (Option.some.inj htoken)
      exact ⟨after, rfl,
        takesMost_of_ofWord (Kind.ofWord_getD _) (isWholeWord_cons hfirst hbody hafter)⟩
  | number hfirst htoken => exact exists_takesMost_number hfirst htoken
  | punct hmark =>
      exact ⟨rest, rfl, (symbol_of_punct?_eq_some hmark).symm, boundsOperators_of_punct? hmark⟩
  | @op operator hoperator =>
      obtain ⟨after, htext⟩ := isPrefix_of_operator? hoperator
      refine ⟨after, htext.symm, rfl, fun other hother => ?_⟩
      rw [htext] at hother
      rw [String.length_toList]
      exact length_le_of_operator? hoperator hother
  | string | char | newline => cases hspelt

end Scan

/-! ## Hidden text -/

/-- What the lexer does not see of a source begins with a null character. -/
theorem exists_hidden (source : String) :
    ∃ hidden, source.toList = visibleText source ++ hidden ∧
      ∀ c ∈ hidden.head?, c = Cursor.sentinel := by
  refine ⟨_, List.takeWhile_append_dropWhile.symm, fun c hc => ?_⟩
  have hstop := List.head?_dropWhile_not (· ≠ Cursor.sentinel) source.toList
  rw [hc] at hstop
  simpa using hstop

section Hidden

variable {text after hidden : List Char} (hhidden : ∀ c ∈ hidden.head?, c = Cursor.sentinel)

include hhidden

theorem forall_head?_append_hidden {P : Char → Prop} (hafter : ∀ c ∈ after.head?, P c)
    (hnull : P Cursor.sentinel) : ∀ c ∈ (after ++ hidden).head?, P c := by
  intro c hc
  cases after with
  | nil => exact hhidden c hc ▸ hnull
  | cons d after => exact hafter c hc

theorem BoundsOperators.append_hidden (hbounds : BoundsOperators text after) :
    BoundsOperators text (after ++ hidden) := by
  intro operator hbegins
  rw [← List.append_assoc] at hbegins
  rcases Scan.isPrefix_append_cases hbegins with hshort | ⟨c, tail, hsymbol, hhead⟩
  · exact hbounds operator hshort
  · have hnull : Cursor.sentinel ∈ operator.symbol.toList := by
      rw [hsymbol, ← hhidden c hhead]
      simp
    exact absurd (Scan.isOperatorChar_of_mem hnull) (by decide)

theorem IsWholeWord.append_hidden (hword : IsWholeWord text after) :
    IsWholeWord text (after ++ hidden) :=
  { hword with
    stops := forall_head?_append_hidden hhidden hword.stops (by
      rw [Scan.isWordChar_iff]
      decide) }

theorem IsWholeRun.append_hidden {isDigit : Char → Bool} (hrun : IsWholeRun isDigit text after)
    (hnull : isDigit Cursor.sentinel = false) : IsWholeRun isDigit text (after ++ hidden) :=
  { hrun with
    stops := forall_head?_append_hidden hhidden hrun.stops (by simp [hnull]) }

/-- A null character goes on with no token. -/
theorem Kind.TakesMost.append_hidden {kind : Kind} (hmost : kind.TakesMost text after) :
    kind.TakesMost text (after ++ hidden) := by
  cases kind with
  | op | punct => exact ⟨hmost.1, hmost.2.append_hidden hhidden⟩
  | keyword | builtin | identifier => exact ⟨hmost.1.append_hidden hhidden, hmost.2⟩
  | integer =>
      rcases hmost with ⟨hne, hrun, hstops⟩ | ⟨mark, radix, digits, htext, hmark, hrun⟩
      · refine .inl ⟨hne, hrun.append_hidden hhidden rfl, ?_⟩
        exact forall_head?_append_hidden hhidden hstops ⟨by decide, fun _ => rfl⟩
      · refine .inr ⟨mark, radix, digits, htext, hmark, hrun.append_hidden hhidden ?_⟩
        cases radix <;> decide
  | float =>
      obtain ⟨whole, fraction, htext, hne, hwhole, hrun⟩ := hmost
      exact ⟨whole, fraction, htext, hne, hwhole, hrun.append_hidden hhidden rfl⟩
  | string | char | newline | eof => trivial

end Hidden

/-- A token that the source spells stands in the source where it says, and takes as much of it as
its kind allows. -/
theorem takesMost_of_mem_lex {source : String} {token : Token} (hmem : token ∈ (lex source).tokens)
    (hspelt : token.kind.isSpelt) :
    ∃ front after, source.toList = front ++ (token.text.toList ++ after) ∧
      token.bytes.lo = String.utf8Len front ∧ token.kind.TakesMost token.text.toList after := by
  have hkind : token.kind ≠ .eof := by
    intro heof
    rw [heof] at hspelt
    cases hspelt
  obtain ⟨front, first, rest, -, htext, hlo, htoken, -⟩ := exists_split_of_mem_lex hmem hkind
  obtain ⟨after, hfirst, hmost⟩ := (Scan.gives_of_piece htoken).exists_takesMost hspelt
  obtain ⟨hidden, hsource, hhidden⟩ := exists_hidden source
  refine ⟨front, after ++ hidden, ?_, hlo, hmost.append_hidden hhidden⟩
  rw [hsource, htext, hfirst, List.append_assoc, List.append_assoc]

/-- Of three signs of equality behind two of comparison, one still belongs to the operator. -/
theorem takesMost_of_mem_lex_shift :
    let source := "x<<===1.5.@y"
    let token : Token := ⟨.op .shlEq, "<<=", ⟨1, 3⟩, ⟨⟨1, 2⟩, ⟨1, 5⟩⟩⟩
    token ∈ (lex source).tokens ∧ token.kind.isSpelt ∧
      ∃ front after, source.toList = front ++ (token.text.toList ++ after) ∧
        token.bytes.lo = String.utf8Len front ∧ token.kind.TakesMost token.text.toList after := by
  intro source token
  have hmem : token ∈ (lex source).tokens := by decide +kernel
  exact ⟨hmem, rfl, takesMost_of_mem_lex hmem rfl⟩

end KCompiler
