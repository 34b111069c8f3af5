import KCompiler.Proofs.Lexing.Operators

/-! # What the rules of the lexer make

Every piece of a source is a line break, a token spelt on one line, a quoted literal or a filler
between tokens. Fillers are described on their own, by the language and not by the rules. The
rules that look at a first character are gathered in one statement, so that no later proof has
to go through them again.
-/

namespace KCompiler

/-- A character that a token can begin with. -/
def StartsToken (c : Char) : Prop :=
  c = '\n' ∨ c = '"' ∨ c = '\'' ∨ c.isDigit ∨ Text.isLetter c ∨ c = '_' ∨ c = '@' ∨
    (∃ mark : Punct, mark.char = c) ∨ ∃ operator : Operator, operator.symbol.toList.head? = some c

/-- What can stand between tokens. -/
inductive Filler where
  | blank
  /-- A character that no token begins with. -/
  | stray
  | lineComment
  | blockComment
  /-- A block comment that is never closed. -/
  | openComment
  deriving DecidableEq, Repr

/-- A text is a filler if `after` stands behind it. A line comment goes up to a line break or the
end, a block comment through the first `*/` behind its opening. -/
def Filler.Spells (text after : List Char) : Filler → Prop
  | .blank => ∃ c ∈ [' ', '\t', '\r'], text = [c]
  | .stray => ∃ c, text = [c] ∧ ¬StartsToken c
  | .lineComment => ∃ body, text = '/' :: '/' :: body ∧ '\n' ∉ body ∧ ∀ c ∈ after.head?, c = '\n'
  | .blockComment =>
    ∃ inner, text = '/' :: '*' :: (inner ++ ['*', '/']) ∧ ¬['*', '/'] <:+: inner ++ ['*']
  | .openComment => ∃ inner, text = '/' :: '*' :: inner ∧ ¬['*', '/'] <:+: inner ∧ after = []

/-- The kinds of tokens that stand on one line and whose text is what the source spells. -/
def Kind.isSpelt : Kind → Bool
  | .string | .char | .newline | .eof => false
  | _ => true

/-- What a word is: reserved if a keyword or a builtin type is spelt like it, and else a name. -/
inductive Kind.OfWord (word : String) : Kind → Prop
  | keyword {reserved : Keyword} (hsymbol : reserved.symbol = word) : OfWord word (.keyword reserved)
  | builtin {type : Builtin} (hsymbol : type.symbol = word) : OfWord word (.builtin type)
  | identifier (hkeyword : ∀ reserved : Keyword, reserved.symbol ≠ word)
      (htype : ∀ type : Builtin, type.symbol ≠ word) : OfWord word .identifier

theorem Kind.ofWord_getD (word : String) : OfWord word ((Kind.ofWord? word).getD .identifier) := by
  unfold Kind.ofWord?
  cases hkeyword : Keyword.all.find? (·.symbol = word) with
  | some reserved => exact .keyword (by simpa using List.find?_some hkeyword)
  | none =>
      cases htype : Builtin.all.find? (·.symbol = word) with
      | some type => exact .builtin (by simpa using List.find?_some htype)
      | none =>
          refine .identifier (fun reserved => ?_) fun type => ?_
          · have hmem : reserved ∈ Keyword.all := by cases reserved <;> decide
            simpa using List.find?_eq_none.mp hkeyword reserved hmem
          · have hmem : type ∈ Builtin.all := by cases type <;> decide
            simpa using List.find?_eq_none.mp htype type hmem

theorem Kind.OfWord.isSpelt {word : String} {kind : Kind} (hword : OfWord word kind) :
    kind.isSpelt := by
  cases hword <;> rfl

namespace Scan

/-- All that a rule can make of a first character and the text behind it. -/
inductive Makes (first : Char) (rest : List Char) : Scan → Prop
  | newline (hfirst : first = '\n') : Makes first rest (spelled .newline first rest 0)
  | spelt {kind : Kind} {width : Nat} {issue : Option Issue} (hkind : kind.isSpelt)
      (hline : '\n' ∉ first :: rest.take width) (hissue : issue ≠ some .openComment) :
      Makes first rest { spelled kind first rest width with issue }
  | literal {kind : Kind} {width : Nat} {content : List Char} {issue : Option Issue}
      (hkind : kind = .string ∨ kind = .char) (hissue : issue ≠ some .openComment) :
      Makes first rest { width, token := some (kind, content), issue }
  | filler {filler : Filler} {width : Nat}
      (hspells : filler.Spells (first :: rest.take width) (rest.drop width)) :
      Makes first rest
        { width, issue := if filler = .openComment then some .openComment else none }

section Runs

variable {test : Char → Bool} {text : List Char}

theorem take_runLength : text.take (runLength test text) = text.takeWhile test :=
  (List.prefix_iff_eq_take.mp (List.takeWhile_prefix test)).symm

theorem drop_runLength : text.drop (runLength test text) = text.dropWhile test := by
  induction text with
  | nil => rfl
  | cons c text ih =>
      by_cases hc : test c
      · simpa [runLength, hc] using ih
      · simp [runLength, hc]

theorem notMem_run {c : Char} (hc : test c = false) : c ∉ text.take (runLength test text) := by
  rw [take_runLength]
  intro hmem
  have htest := List.all_eq_true.mp List.all_takeWhile _ hmem
  rw [hc] at htest
  cases htest

end Runs

variable {first : Char} {rest : List Char}

theorem isIdentifierStart_newline : isIdentifierStart '\n' = false := by decide

theorem isIdentifierPart_newline : isIdentifierPart '\n' = false := by decide

theorem word_makes (hfirst : isIdentifierStart first) : Makes first rest (word first rest) := by
  refine .spelt (Kind.ofWord_getD _).isSpelt ?_ (by simp)
  rw [List.mem_cons, not_or]
  refine ⟨?_, notMem_run isIdentifierPart_newline⟩
  rintro rfl
  rw [isIdentifierStart_newline] at hfirst
  cases hfirst

theorem isRadixDigit_newline (radix : Radix) : isRadixDigit radix '\n' = false := by
  cases radix <;> decide

/-- A number is an integer or a float, spelt by its characters. -/
theorem number_eq_spelled (first : Char) (rest : List Char) :
    ∃ kind issue, (kind = .integer ∨ kind = .float) ∧ issue ≠ some .openComment ∧
      number first rest = { spelled kind first rest (number first rest).width with issue } := by
  unfold number
  simp only
  split
  · exact ⟨.integer, _, .inl rfl, by split <;> simp, rfl⟩
  · split
    · exact ⟨.float, none, .inr rfl, by simp, rfl⟩
    · exact ⟨.integer, none, .inl rfl, by simp, rfl⟩

/-- A number has no characters but digits, a point, and a letter for its radix. -/
theorem notMem_number {c : Char} (hfirst : c ≠ first) (hdigit : c.isDigit = false)
    (hpoint : c ≠ '.') (hletter : radix? c = none)
    (hradix : ∀ radix, isRadixDigit radix c = false) :
    c ∉ first :: rest.take (number first rest).width := by
  unfold number
  simp only
  split
  next radix hsome =>
    obtain ⟨mark, digits, rfl, hmark⟩ : ∃ mark digits, rest = mark :: digits ∧ c ≠ mark := by
      split at hsome
      next =>
        cases rest with
        | nil => cases hsome
        | cons mark digits =>
            refine ⟨mark, digits, rfl, ?_⟩
            rintro rfl
            rw [List.head?_cons, Option.bind_some, hletter] at hsome
            cases hsome
      next => cases hsome
    change c ∉ first :: (mark :: digits).take (_ + 1)
    rw [List.tail_cons, List.take_succ_cons, List.mem_cons, not_or, List.mem_cons, not_or]
    exact ⟨hfirst, hmark, notMem_run (hradix radix)⟩
  next =>
    split
    next fraction hrest =>
      change c ∉ first :: rest.take (_ + 1 + _)
      rw [Nat.add_assoc, List.take_add, hrest, Nat.add_comm 1, List.take_succ_cons]
      simp only [List.mem_cons, List.mem_append, not_or]
      exact ⟨hfirst, notMem_run hdigit, hpoint, notMem_run hdigit⟩
    next =>
      rw [List.mem_cons, not_or]
      exact ⟨hfirst, notMem_run hdigit⟩

theorem number_makes (hfirst : first.isDigit) : Makes first rest (number first rest) := by
  have hline : '\n' ≠ first := by
    rintro rfl
    cases hfirst
  obtain ⟨kind, issue, hkind, hissue, hnumber⟩ := number_eq_spelled first rest
  rw [hnumber]
  refine .spelt ?_ (notMem_number hline rfl (by decide) rfl isRadixDigit_newline) hissue
  rcases hkind with rfl | rfl <;> rfl

theorem charEnd_makes (taken : Nat) (content text : List Char) :
    Makes first rest (charEnd taken content text) := by
  unfold charEnd
  split <;> exact .literal (.inr rfl) (by simp)

theorem charLiteral_makes : Makes first rest (charLiteral rest) := by
  unfold charLiteral
  split
  · exact charEnd_makes 0 [] []
  · exact .literal (.inr rfl) (by simp)
  · exact charEnd_makes 1 [] []
  · exact charEnd_makes 2 _ _
  · exact charEnd_makes 1 _ _

theorem lineComment_makes (hfirst : first = '/') (hrest : rest.head? = some '/') :
    Makes first rest (lineComment rest) := by
  obtain ⟨body, rfl⟩ := List.head?_eq_some_iff.mp hrest
  subst hfirst
  refine @Makes.filler _ _ .lineComment _ ?_
  refine ⟨body.takeWhile (· ≠ '\n'), ?_, ?_, ?_⟩
  · rw [take_runLength]
    simp
  · intro hmem
    have htest := List.all_eq_true.mp List.all_takeWhile _ hmem
    simp at htest
  · rw [drop_runLength]
    intro c hc
    have htest := List.head?_dropWhile_not (· ≠ '\n') ('/' :: body)
    rw [hc] at htest
    simpa using htest

/-- The end of a comment is its first `*/`. -/
theorem commentEnd?_eq_some {text : List Char} {width : Nat}
    (hend : commentEnd? text = some width) :
    ∃ inner, text.take width = inner ++ ['*', '/'] ∧ ¬['*', '/'] <:+: inner ++ ['*'] := by
  fun_induction commentEnd? text generalizing width with
  | case1 => cases hend
  | case2 rest =>
      cases hend
      exact ⟨[], rfl, by decide⟩
  | case3 c rest hother ih =>
      obtain ⟨inside, hinside, rfl⟩ := Option.map_eq_some_iff.mp hend
      obtain ⟨inner, htake, hfirst⟩ := ih hinside
      refine ⟨c :: inner, by rw [List.take_succ_cons, htake]; rfl, ?_⟩
      rw [List.cons_append, List.infix_cons_iff, not_or]
      refine ⟨?_, hfirst⟩
      -- A closing before the inner text would begin the whole of it.
      rintro ⟨more, hprefix⟩
      obtain ⟨rfl, hmore⟩ := List.cons.inj hprefix
      cases inner with
      | nil => simp at hmore
      | cons d inner =>
          obtain ⟨rfl, -⟩ := List.cons.inj hmore
          cases rest with
          | nil => simp at htake
          | cons d rest =>
              cases inside with
              | zero => simp at htake
              | succ inside =>
                  obtain ⟨rfl, -⟩ := List.cons.inj htake
                  exact hother rest rfl rfl

theorem commentEnd?_eq_none {text : List Char} (hend : commentEnd? text = none) :
    ¬['*', '/'] <:+: text := by
  fun_induction commentEnd? text with
  | case1 => decide
  | case2 rest => cases hend
  | case3 c rest hother ih =>
      rw [List.infix_cons_iff, not_or]
      refine ⟨?_, ih (Option.map_eq_none_iff.mp hend)⟩
      rintro ⟨more, hprefix⟩
      simp only [List.cons_append, List.nil_append, List.cons.injEq] at hprefix
      exact hother more hprefix.1.symm hprefix.2.symm

theorem blockComment_makes (hfirst : first = '/') (hrest : rest.head? = some '*') :
    Makes first rest (blockComment rest) := by
  obtain ⟨body, rfl⟩ := List.head?_eq_some_iff.mp hrest
  subst hfirst
  unfold blockComment
  split
  next width hend =>
    obtain ⟨inner, htake, hclose⟩ := commentEnd?_eq_some hend
    rw [List.tail_cons] at htake
    exact @Makes.filler _ _ .blockComment _
      ⟨inner, by rw [List.take_succ_cons, htake], hclose⟩
  next hend =>
    exact @Makes.filler _ _ .openComment _
      ⟨body, by simp, commentEnd?_eq_none hend, by simp⟩

theorem char_of_punct? {mark : Punct} (hmark : punct? first = some mark) : mark.char = first := by
  simpa using List.find?_some hmark

/-- An operator that a text begins with is spelt by its beginning. -/
theorem take_symbol {operator : Operator} (hoperator : operator? (first :: rest) = some operator) :
    first :: rest.take (operator.symbol.length - 1) = operator.symbol.toList := by
  have htake := List.prefix_iff_eq_take.mp (isPrefix_of_operator? hoperator)
  have hlength : operator.symbol.toList.length = operator.symbol.length - 1 + 1 := by
    cases operator <;> rfl
  rw [htake, hlength, List.take_succ_cons]

theorem newline_notMem_symbol (operator : Operator) : '\n' ∉ operator.symbol.toList := by
  cases operator <;> decide

theorem newline_ne_char (mark : Punct) : '\n' ≠ mark.char := by
  cases mark <;> decide

theorem not_startsToken (hdigit : first.isDigit = false) (hnewline : first ≠ '\n')
    (hstring : first ≠ '"') (hchar : first ≠ '\'') (hmark : punct? first = none)
    (hoperator : operator? (first :: rest) = none) (hstart : isIdentifierStart first = false) :
    ¬StartsToken first := by
  simp only [isIdentifierStart, Bool.or_eq_false_iff, beq_eq_false_iff_ne] at hstart
  rintro (h | h | h | h | h | h | h | ⟨mark, h⟩ | ⟨operator, h⟩)
  · exact hnewline h
  · exact hstring h
  · exact hchar h
  · rw [hdigit] at h
    cases h
  · rw [hstart.1.1] at h
    cases h
  · exact hstart.1.2 h
  · exact hstart.2 h
  · have hnone := List.find?_eq_none.mp hmark mark (by cases mark <;> decide)
    simp [h] at hnone
  · obtain ⟨single, hmem, hsymbol⟩ := exists_symbol_singleton h
    have hnone := List.find?_eq_none.mp hoperator single hmem
    simp [hsymbol] at hnone

theorem symbol_makes (hdigit : first.isDigit = false) (hnewline : first ≠ '\n')
    (hstring : first ≠ '"') (hchar : first ≠ '\'') : Makes first rest (symbol first rest) := by
  cases hmark : punct? first with
  | some mark =>
      rw [symbol_of_punct? hmark]
      refine .spelt rfl ?_ (by simp)
      have hline := newline_ne_char mark
      rw [char_of_punct? hmark] at hline
      simpa using hline
  | none =>
      cases hoperator : operator? (first :: rest) with
      | some operator =>
          rw [symbol_of_operator? hmark hoperator]
          refine .spelt rfl ?_ (by simp)
          rw [take_symbol hoperator]
          exact newline_notMem_symbol operator
      | none =>
          rw [symbol_of_none hmark hoperator]
          split
          next hstart => exact word_makes hstart
          next hstart =>
            have hstray : ¬StartsToken first :=
              not_startsToken hdigit hnewline hstring hchar hmark hoperator (by simpa using hstart)
            by_cases hblank : first ∈ [' ', '\t', '\r']
            · exact @Makes.filler _ _ .blank _ ⟨first, hblank, rfl⟩
            · exact @Makes.filler _ _ .stray _ ⟨first, rfl, hstray⟩

/-- Every piece is made by one of the rules. -/
theorem piece_makes (first : Char) (rest : List Char) : Makes first rest (piece first rest) := by
  unfold piece
  split
  · exact .newline rfl
  · exact lineComment_makes rfl rfl
  · exact blockComment_makes rfl rfl
  · exact .literal (.inl rfl) (by simp)
  · exact charLiteral_makes
  next hnewline hstring hchar _ _ =>
    split
    next hdigit => exact number_makes hdigit
    next hdigit => exact symbol_makes (by simpa using hdigit) hnewline hstring hchar

end Scan
end KCompiler
