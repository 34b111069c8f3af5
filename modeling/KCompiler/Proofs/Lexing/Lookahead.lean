import KCompiler.Proofs.Lexing.Spelling

/-! # How far the lexer looks ahead

A rule makes a piece of the beginning of a text and looks at no more than one character behind it.
As long as this character stays the same, anything may follow. Behind a token in order it may also
be a blank or the end, unless the token takes all that is left of the text.
-/

namespace KCompiler.Scan

/-- What may stand behind a piece in place of `after` without a change to the piece. -/
structure Allows (scan : Scan) (after more : List Char) : Prop where
  ended : after = [] → more = []
  next : more.head? = after.head? ∨
    scan.token.isSome ∧ scan.issue = none ∧ ∀ c ∈ more.head?, c = ' '

namespace Allows

variable {scan : Scan} {after more : List Char}

theorem of_head? (hhead : more.head? = after.head?) : scan.Allows after more where
  ended hafter := by
    rw [hafter] at hhead
    exact List.head?_eq_none_iff.mp hhead
  next := .inl hhead

variable (hallows : scan.Allows after more)

include hallows

/-- What does not go on with a piece still does not, if blanks do not. -/
theorem stops {test : Char → Bool} (hafter : ∀ c ∈ after.head?, test c = false)
    (hblank : test ' ' = false) : ∀ c ∈ more.head?, test c = false := by
  rcases hallows.next with hsame | ⟨-, -, hmore⟩
  · rwa [hsame]
  · intro c hc
    rw [hmore c hc, hblank]

theorem head?_eq_of_token (htoken : scan.token = none) : more.head? = after.head? := by
  rcases hallows.next with hsame | ⟨hsome, -, -⟩
  · exact hsame
  · rw [htoken] at hsome
    cases hsome

theorem head?_eq_of_issue {issue : Issue} (hissue : scan.issue = some issue) :
    more.head? = after.head? := by
  rcases hallows.next with hsame | ⟨-, hnone, -⟩
  · exact hsame
  · rw [hissue] at hnone
    cases hnone

end Allows

/-- A rule makes a piece of the beginning of a text, and the same one before all that may stand
behind it. -/
def Splits (rule : List Char → Scan) (text : List Char) : Prop :=
  ∃ body after, text = body ++ after ∧ (rule text).width = body.length ∧
    ∀ more, (rule text).Allows after more → rule (body ++ more) = rule text

/-- It is enough to know what ends a piece: what stands behind it does, and so does all that may
stand there. -/
theorem Splits.of_ends {rule : List Char → Scan} {scan : Scan} {body after : List Char}
    (ends : List Char → Prop) (hrule : ∀ more, ends more → rule (body ++ more) = scan)
    (hwidth : scan.width = body.length) (hafter : ends after)
    (hallows : ∀ more, scan.Allows after more → ends more) : Splits rule (body ++ after) := by
  have htext : rule (body ++ after) = scan := hrule after hafter
  refine ⟨body, after, rfl, by rw [htext, hwidth], fun more hmore => ?_⟩
  rw [htext] at hmore ⊢
  exact hrule more (hallows more hmore)

variable {first : Char} {body more text : List Char}

/-- A text begins with a run of characters that satisfy a test. -/
theorem exists_run (test : Char → Bool) (text : List Char) :
    ∃ body after, text = body ++ after ∧ (∀ c ∈ body, test c) ∧
      ∀ c ∈ after.head?, test c = false := by
  refine ⟨text.takeWhile test, text.dropWhile test, List.takeWhile_append_dropWhile.symm,
    fun c hc => List.mem_takeWhile_imp hc, fun c hc => ?_⟩
  have hstop := List.head?_dropWhile_not test text
  rwa [hc] at hstop

/-! ## Words and numbers -/

theorem word_append (hbody : ∀ c ∈ body, isIdentifierPart c)
    (hmore : ∀ c ∈ more.head?, isIdentifierPart c = false) :
    word first (body ++ more) =
      { width := body.length
        token := some ((Kind.ofWord? (String.ofList (first :: body))).getD .identifier,
          first :: body) } := by
  rw [word]
  simp only [runLength_append hbody hmore, spelled, List.take_left]

theorem word_splits (first : Char) (text : List Char) : Splits (word first) text := by
  obtain ⟨body, after, rfl, hbody, hafter⟩ := exists_run isIdentifierPart text
  refine .of_ends (fun more => ∀ c ∈ more.head?, isIdentifierPart c = false)
    (fun more hmore => word_append hbody hmore) rfl hafter ?_
  exact fun more hallows => hallows.stops hafter (by decide)

theorem number_radix {mark : Char} {radix : Radix} (hmark : radix? mark = some radix)
    (hbody : ∀ c ∈ body, isRadixDigit radix c)
    (hmore : ∀ c ∈ more.head?, isRadixDigit radix c = false) :
    number '0' (mark :: body ++ more) =
      { width := body.length + 1
        token := some (.integer, '0' :: mark :: body)
        issue := if body.length = 0 then some (.missingDigits radix) else none } := by
  rw [List.cons_append, number]
  simp only [if_true, List.head?_cons, Option.bind_some, hmark, List.tail_cons,
    runLength_append hbody hmore, spelled, List.take_succ_cons, List.take_left]

theorem number_fraction {whole fraction : List Char} (hwhole : ∀ c ∈ whole, c.isDigit)
    (hfraction : ∀ c ∈ fraction, c.isDigit) (hmore : ∀ c ∈ more.head?, c.isDigit = false) :
    number first (whole ++ '.' :: fraction ++ more) =
      { width := (whole ++ '.' :: fraction).length
        token := some (.float, first :: (whole ++ '.' :: fraction)) } := by
  rw [List.append_assoc, List.cons_append]
  have hmark : (whole ++ '.' :: (fraction ++ more)).head?.bind radix? = none := by
    cases whole with
    | nil => rfl
    | cons c whole => exact radix?_of_isDigit (hwhole c List.mem_cons_self)
  have hwidth : runLength Char.isDigit (whole ++ '.' :: (fraction ++ more)) = whole.length :=
    runLength_append hwhole (by simp [Char.isDigit])
  have htake : (whole ++ '.' :: (fraction ++ more)).take (whole.length + 1 + fraction.length) =
      whole ++ '.' :: fraction := by
    rw [Nat.add_assoc, List.take_length_add_append, Nat.add_comm 1, List.take_succ_cons,
      List.take_left]
  rw [number]
  simp only [hmark, ite_self, hwidth, List.drop_left, runLength_append hfraction hmore, spelled,
    htake, List.length_append, List.length_cons]
  congr 1
  omega

/-- A character that goes on with a number of which whole digits have been read. -/
def continuesNumber (first : Char) (whole : List Char) (c : Char) : Bool :=
  c.isDigit || c == '.' || (first == '0' && whole.isEmpty && (radix? c).isSome)

theorem number_whole {whole : List Char} (hwhole : ∀ c ∈ whole, c.isDigit)
    (hmore : ∀ c ∈ more.head?, continuesNumber first whole c = false) :
    number first (whole ++ more) =
      { width := whole.length, token := some (.integer, first :: whole) } := by
  have hstop (c : Char) (hc : c ∈ more.head?) : c.isDigit = false ∧ c ≠ '.' := by
    have hcontinues := hmore c hc
    simp only [continuesNumber, Bool.or_eq_false_iff, beq_eq_false_iff_ne] at hcontinues
    exact hcontinues.1
  have hradix : (if first = '0' then (whole ++ more).head?.bind radix? else none) = none := by
    split
    next hfirst =>
      cases whole with
      | cons c whole => exact radix?_of_isDigit (hwhole c List.mem_cons_self)
      | nil =>
          cases more with
          | nil => rfl
          | cons c more =>
              have hcontinues := hmore c rfl
              simpa [continuesNumber, hfirst, hstop c rfl] using hcontinues
    next => rfl
  rw [number]
  simp only [hradix, runLength_append hwhole fun c hc => (hstop c hc).1, List.drop_left]
  split
  next fraction => exact absurd rfl (hstop '.' rfl).2
  next => simp [spelled]

/-- The ways in which a number goes on behind its first digit, up to the text `after` it. -/
inductive NumberForm (first : Char) (after : List Char) : List Char → Prop
  | radix {mark : Char} {radix : Radix} {digits : List Char} (hfirst : first = '0')
      (hmark : radix? mark = some radix) (hdigits : ∀ c ∈ digits, isRadixDigit radix c)
      (hafter : ∀ c ∈ after.head?, isRadixDigit radix c = false) :
      NumberForm first after (mark :: digits)
  | fraction {whole fraction : List Char} (hwhole : ∀ c ∈ whole, c.isDigit)
      (hfraction : ∀ c ∈ fraction, c.isDigit) (hafter : ∀ c ∈ after.head?, c.isDigit = false) :
      NumberForm first after (whole ++ '.' :: fraction)
  | whole {whole : List Char} (hwhole : ∀ c ∈ whole, c.isDigit)
      (hafter : ∀ c ∈ after.head?, continuesNumber first whole c = false) :
      NumberForm first after whole

theorem exists_numberForm (first : Char) (text : List Char) :
    ∃ body after, text = body ++ after ∧ NumberForm first after body := by
  by_cases hradix : first = '0' ∧ ∃ mark ∈ text.head?, (radix? mark).isSome
  · obtain ⟨hfirst, mark, hhead, hsome⟩ := hradix
    obtain ⟨tail, rfl⟩ := List.head?_eq_some_iff.mp hhead
    obtain ⟨radix, hmark⟩ := Option.isSome_iff_exists.mp hsome
    obtain ⟨digits, after, rfl, hdigits, hafter⟩ := exists_run (isRadixDigit radix) tail
    exact ⟨mark :: digits, after, rfl, .radix hfirst hmark hdigits hafter⟩
  obtain ⟨whole, after, rfl, hwhole, hafter⟩ := exists_run Char.isDigit text
  by_cases hpoint : after.head? = some '.'
  · obtain ⟨tail, rfl⟩ := List.head?_eq_some_iff.mp hpoint
    obtain ⟨fraction, after, rfl, hfraction, hbehind⟩ := exists_run Char.isDigit tail
    exact ⟨whole ++ '.' :: fraction, after, by simp, .fraction hwhole hfraction hbehind⟩
  refine ⟨whole, after, rfl, .whole hwhole fun c hc => ?_⟩
  have hdot : c ≠ '.' := by
    rintro rfl
    exact hpoint hc
  have hmark : first = '0' → whole = [] → radix? c = none := by
    rintro rfl rfl
    by_contra hsome
    exact hradix ⟨rfl, c, hc, Option.isSome_iff_ne_none.mpr hsome⟩
  simp only [continuesNumber, hafter c hc, Bool.false_or, Bool.or_eq_false_iff,
    beq_eq_false_iff_ne]
  refine ⟨hdot, ?_⟩
  by_contra hmore
  simp only [Bool.not_eq_false, Bool.and_eq_true, beq_iff_eq, List.isEmpty_iff] at hmore
  rw [hmark hmore.1.1 hmore.1.2] at hmore
  cases hmore.2

theorem number_splits (first : Char) (text : List Char) : Splits (number first) text := by
  obtain ⟨body, after, rfl, hform⟩ := exists_numberForm first text
  cases hform with
  | @radix mark radix digits hfirst hmark hdigits hafter =>
      subst hfirst
      refine .of_ends (fun more => ∀ c ∈ more.head?, isRadixDigit radix c = false)
        (fun more hmore => number_radix hmark hdigits hmore) rfl hafter ?_
      exact fun more hallows => hallows.stops hafter (by cases radix <;> decide)
  | fraction hwhole hfraction hafter =>
      refine .of_ends (fun more => ∀ c ∈ more.head?, c.isDigit = false)
        (fun more hmore => number_fraction hwhole hfraction hmore) rfl hafter ?_
      exact fun more hallows => hallows.stops hafter (by decide)
  | whole hwhole hafter =>
      refine .of_ends (fun more => ∀ c ∈ more.head?, continuesNumber first body c = false)
        (fun more hmore => number_whole hwhole hmore) rfl hafter ?_
      exact fun more hallows => hallows.stops hafter (by simp [continuesNumber, radix?])

/-! ## Quoted literals -/

/-- A string literal that is closed may be followed by anything, and one that is not by nothing. -/
theorem exists_stringBody (text : List Char) :
    ∃ body after content, text = body ++ after ∧ ∀ more, (after = [] → more = []) →
      stringBody (body ++ more) = (body.length, content) := by
  fun_induction stringBody text with
  | case1 =>
      refine ⟨[], [], [], rfl, fun more hmore => ?_⟩
      rw [hmore rfl]
      rfl
  | case2 rest => exact ⟨['"'], rest, [], rfl, fun more _ => by simp [stringBody]⟩
  | case3 =>
      refine ⟨['\\'], [], [], rfl, fun more hmore => ?_⟩
      rw [hmore rfl]
      rfl
  | case4 c rest width content hrest ih =>
      obtain ⟨body, after, content, rfl, hbody⟩ := ih
      refine ⟨'\\' :: c :: body, after, unescape c :: content, rfl, fun more hmore => ?_⟩
      simp [stringBody, hbody more hmore]
  | case5 c rest hquote hlast hescape width content hrest ih =>
      obtain ⟨body, after, content, rfl, hbody⟩ := ih
      refine ⟨c :: body, after, c :: content, rfl, fun more hmore => ?_⟩
      have hslash : c ≠ '\\' := by
        rintro rfl
        cases hinner : body ++ after with
        | nil => exact hlast rfl hinner
        | cons d inner => exact hescape d inner rfl hinner
      rw [List.cons_append, stringBody, hbody more hmore]
      · rfl
      · exact hquote
      · exact fun h => absurd h hslash
      · exact fun _ _ h => absurd h hslash

theorem stringLiteral_splits (text : List Char) : Splits stringLiteral text := by
  obtain ⟨body, after, content, rfl, hbody⟩ := exists_stringBody text
  refine @Splits.of_ends _ { width := body.length, token := some (.string, content) } _ _
    (fun more => after = [] → more = []) ?_ rfl id fun more hallows => hallows.ended
  intro more hmore
  rw [stringLiteral, hbody more hmore]

/-- A character literal that is not closed goes up to a quote, which belongs to it, or up to the
end of the line. -/
theorem charEnd_unclosed {found : Char} {content : List Char} (taken : Nat) (hquote : found ≠ '\'')
    (hbody : ∀ c ∈ body, c ≠ '\'' && c ≠ '\n')
    (hmore : ∀ c ∈ more.head?, (c ≠ '\'' && c ≠ '\n') = false)
    (hhead : (body ++ more).head? = some found) :
    charEnd taken content (body ++ more) =
      { width := taken + body.length + if more.head? = some '\'' then 1 else 0
        token := some (.char, content)
        issue := some (.unclosedChar found) } := by
  obtain ⟨tail, hinner⟩ := List.head?_eq_some_iff.mp hhead
  have hrun : runLength (fun c => c ≠ '\'' && c ≠ '\n') (found :: tail) = body.length := by
    rw [← hinner]
    exact runLength_append hbody hmore
  have hdrop : (found :: tail).drop body.length = more := by rw [← hinner, List.drop_left]
  rw [hinner, charEnd]
  · simp only [hrun, hdrop]
  · exact fun h => absurd h hquote

/-- The end of a character literal, whatever has been taken of it before. -/
theorem charEnd_splits (taken : Nat) (content text : List Char) :
    ∃ body after, text = body ++ after ∧
      (charEnd taken content text).width = taken + body.length ∧
      ∀ more, (charEnd taken content text).Allows after more →
        charEnd taken content (body ++ more) = charEnd taken content text := by
  cases text with
  | nil => exact ⟨[], [], rfl, rfl, fun more hallows => by rw [hallows.ended rfl]; rfl⟩
  | cons found rest =>
      by_cases hquote : found = '\''
      · subst hquote
        exact ⟨['\''], rest, rfl, rfl, fun more _ => rfl⟩
      obtain ⟨body, after, htext, hbody, hafter⟩ :=
        exists_run (fun c => c ≠ '\'' && c ≠ '\n') (found :: rest)
      have hwhole := @charEnd_unclosed body after found content taken hquote hbody hafter
        (by rw [← htext]; rfl)
      rw [← htext] at hwhole
      by_cases hclosed : after.head? = some '\''
      · obtain ⟨tail, rfl⟩ := List.head?_eq_some_iff.mp hclosed
        have hnonempty : body ≠ [] := by
          rintro rfl
          exact hquote (List.cons.inj htext).1
        refine ⟨body ++ ['\''], tail, by simp [htext], ?_, fun more _ => ?_⟩
        · rw [hwhole]
          simp [Nat.add_assoc]
        · obtain ⟨c, inner, rfl⟩ := List.exists_cons_of_ne_nil hnonempty
          obtain ⟨rfl, -⟩ := List.cons.inj htext
          rw [hwhole, List.append_assoc, charEnd_unclosed taken hquote hbody (by simp) rfl]
          simp
      · refine ⟨body, after, htext, ?_, fun more hallows => ?_⟩
        · simp [hwhole, hclosed]
        · rw [hwhole] at hallows ⊢
          have hsame := hallows.head?_eq_of_issue rfl
          have hhead : (body ++ more).head? = some found := by
            rw [List.head?_append, hsame, ← List.head?_append, ← htext]
            rfl
          rw [charEnd_unclosed taken hquote hbody (hsame ▸ hafter) hhead, hsame]

theorem charLiteral_splits (text : List Char) : Splits charLiteral text := by
  -- What has been read before the end of the literal stands in front of what belongs to it.
  have hinner {front text content : List Char}
      (hrule : ∀ inner, charLiteral (front ++ inner) = charEnd front.length content inner) :
      Splits charLiteral (front ++ text) := by
    obtain ⟨body, after, rfl, hwidth, hsame⟩ := charEnd_splits front.length content text
    refine ⟨front ++ body, after, by simp, ?_, fun more hallows => ?_⟩
    · rw [hrule, hwidth, List.length_append]
    · rw [hrule] at hallows
      rw [List.append_assoc, hrule, hrule, hsame more hallows]
  fun_cases charLiteral text with
  | case1 => exact ⟨[], [], rfl, rfl, fun more hallows => by rw [hallows.ended rfl]; rfl⟩
  | case2 rest => exact ⟨['\''], rest, rfl, rfl, fun more _ => rfl⟩
  | case3 => exact ⟨['\\'], [], rfl, rfl, fun more hallows => by rw [hallows.ended rfl]; rfl⟩
  | case4 c rest => exact @hinner ['\\', c] rest [unescape c] fun inner => by simp [charLiteral]
  | case5 c rest hquote hlast hescape =>
      refine @hinner [c] rest [c] fun inner => ?_
      have hslash : c ≠ '\\' := by
        rintro rfl
        cases rest with
        | nil => exact hlast rfl rfl
        | cons d rest => exact hescape d rest rfl rfl
      rw [List.cons_append, List.nil_append, charLiteral]
      · rfl
      · exact hquote
      · exact fun h => absurd h hslash
      · exact fun _ _ h => absurd h hslash

/-! ## Comments -/

/-- A line comment goes on behind its first character to the end of the line. -/
theorem lineComment_append (hbody : '\n' ∉ body) (hmore : ∀ c ∈ more.head?, c = '\n') :
    lineComment (body ++ more) = { width := body.length } := by
  rw [lineComment, runLength_append]
  · intro c hc
    simpa using fun hline : c = '\n' => hbody (hline ▸ hc)
  · simpa using hmore

/-- A comment that is closed may be followed by anything. -/
theorem exists_commentEnd {text : List Char} {width : Nat} (hend : commentEnd? text = some width) :
    ∃ body after, text = body ++ after ∧ body ≠ [] ∧ width = body.length ∧
      ∀ more, commentEnd? (body ++ more) = some body.length := by
  fun_induction commentEnd? text generalizing width with
  | case1 => cases hend
  | case2 rest =>
      cases hend
      exact ⟨['*', '/'], rest, rfl, by simp, rfl, fun more => rfl⟩
  | case3 c rest hother ih =>
      obtain ⟨inside, hinside, rfl⟩ := Option.map_eq_some_iff.mp hend
      obtain ⟨_ | ⟨d, body⟩, after, rfl, hnonempty, rfl, hbody⟩ := ih hinside
      · exact absurd rfl hnonempty
      refine ⟨c :: d :: body, after, rfl, by simp, rfl, fun more => ?_⟩
      rw [List.cons_append, commentEnd?, hbody more]
      · rfl
      · rintro tail rfl heq
        obtain ⟨rfl, -⟩ := List.cons.inj heq
        exact hother _ rfl rfl

/-- A block comment, from the star of its opening on. -/
theorem blockComment_splits (text : List Char) :
    ∃ body after, '*' :: text = '*' :: body ++ after ∧
      (blockComment ('*' :: text)).width = ('*' :: body).length ∧
      ∀ more, (blockComment ('*' :: text)).Allows after more →
        blockComment ('*' :: body ++ more) = blockComment ('*' :: text) := by
  cases hend : commentEnd? text with
  | some width =>
      obtain ⟨body, after, rfl, -, rfl, hbody⟩ := exists_commentEnd hend
      refine ⟨body, after, rfl, ?_, fun more _ => ?_⟩
      · simp [blockComment, hend]
      · simp [blockComment, hbody]
  | none =>
      refine ⟨text, [], by simp, by simp [blockComment, hend], fun more hallows => ?_⟩
      rw [hallows.ended rfl, List.append_nil]

/-! ## Operators -/

/-- An operator is read if the next character does not make it another one. -/
theorem operator?_symbol_append (operator : Operator) (more : List Char) :
    operator? (operator.symbol.toList ++ more) = some operator ↔
      ∀ c ∈ more.head?, ∀ longer : Operator,
        longer.symbol.toList ≠ operator.symbol.toList ++ [c] := by
  constructor
  · intro hoperator c hc longer hlonger
    obtain ⟨tail, rfl⟩ := List.head?_eq_some_iff.mp hc
    have hprefix : longer.symbol.toList <+: operator.symbol.toList ++ c :: tail := by
      rw [hlonger]
      exact ⟨tail, by simp⟩
    have hlength := length_le_of_operator? hoperator hprefix
    have hmore := congrArg List.length hlonger
    simp only [String.length_toList, List.length_append, List.length_singleton] at hmore
    omega
  · intro hstop
    have hbegins : operator.symbol.toList <+: operator.symbol.toList ++ more :=
      List.prefix_append _ _
    obtain ⟨found, hfound⟩ : ∃ found, operator? (operator.symbol.toList ++ more) = some found := by
      refine Option.isSome_iff_exists.mp (List.find?_isSome.mpr ⟨operator, operator.mem_all, ?_⟩)
      exact List.isPrefixOf_iff_prefix.mpr hbegins
    have hprefix := isPrefix_of_operator? hfound
    have hshort : found.symbol.toList <+: operator.symbol.toList := by
      rcases isPrefix_append_cases hprefix with hshort | ⟨c, tail, hsymbol, hhead⟩
      · exact hshort
      · obtain ⟨longer, hlonger⟩ :=
          found.exists_symbol_take (Nat.succ_pos operator.symbol.toList.length)
        refine absurd ?_ (hstop c hhead longer)
        rw [hlonger, hsymbol, Nat.succ_eq_add_one, List.take_length_add_append]
        rfl
    have hlong := length_le_of_operator? hfound hbegins
    rw [← String.length_toList, ← String.length_toList] at hlong
    have hsame := hshort.eq_of_length (Nat.le_antisymm hshort.length_le hlong)
    rw [hfound, Operator.symbol_injective (String.toList_inj.mp hsame)]

theorem operator_splits {operator : Operator} (hmark : punct? first = none)
    (hoperator : operator? (first :: text) = some operator) : Splits (symbol first) text := by
  obtain ⟨c, body, hsymbol⟩ := exists_symbol_cons operator
  obtain ⟨after, htext⟩ := isPrefix_of_operator? hoperator
  rw [hsymbol, List.cons_append] at htext
  obtain ⟨rfl, rfl⟩ := List.cons.inj htext
  have hlength : operator.symbol.length - 1 = body.length := by
    rw [← String.length_toList, hsymbol]
    rfl
  refine @Splits.of_ends _ { width := body.length, token := some (.op operator, c :: body) } _ _
    (fun more => operator? (c :: (body ++ more)) = some operator) ?_ rfl hoperator ?_
  · intro more hmore
    rw [symbol_of_operator? hmark hmore, spelled, hlength, List.take_left]
  · intro more hallows
    rw [← List.cons_append, ← hsymbol, operator?_symbol_append] at hoperator ⊢
    rcases hallows.next with hsame | ⟨-, -, hblank⟩
    · rwa [hsame]
    · intro d hd longer hlonger
      have hmem : d ∈ longer.symbol.toList := by simp [hlonger]
      rw [hblank d hd] at hmem
      exact absurd (isOperatorChar_of_mem hmem) (by decide)

theorem symbol_splits (first : Char) (text : List Char) : Splits (symbol first) text := by
  cases hmark : punct? first with
  | some mark =>
      refine ⟨[], text, rfl, ?_, fun more _ => ?_⟩ <;> simp [symbol_of_punct? hmark, spelled]
  | none =>
      cases hoperator : operator? (first :: text) with
      | some operator => exact operator_splits hmark hoperator
      | none =>
          have hsymbol (more : List Char) : symbol first more =
              if isIdentifierStart first then word first more else { width := 0 } :=
            symbol_of_none hmark (operator?_eq_none hoperator more)
          by_cases hstart : isIdentifierStart first
          · have hword : symbol first = word first := funext fun more => by simp [hsymbol, hstart]
            rw [hword]
            exact word_splits first text
          · refine ⟨[], text, rfl, ?_, fun more _ => ?_⟩ <;> simp [hsymbol, hstart]

/-! ## Pieces -/

/-- A slash begins a comment or an operator. -/
theorem piece_slash (htext : ∀ c ∈ text.head?, c ≠ '/' ∧ c ≠ '*') :
    piece '/' text = symbol '/' text := by
  unfold piece
  split
  case h_2 => exact absurd rfl (htext '/' rfl).1
  case h_3 => exact absurd rfl (htext '*' rfl).2
  case h_6 => rfl
  all_goals simp at *

theorem slash_splits (text : List Char) : Splits (piece '/') text := by
  by_cases hline : text.head? = some '/'
  · obtain ⟨tail, rfl⟩ := List.head?_eq_some_iff.mp hline
    obtain ⟨body, after, rfl, hbody, hafter⟩ := exists_run (· ≠ '\n') tail
    have hstop : ∀ c ∈ after.head?, c = '\n' := by simpa using hafter
    have hinside : '\n' ∉ '/' :: body := by simpa using fun hmem => hbody '\n' hmem
    rw [← List.cons_append]
    refine .of_ends (fun more => ∀ c ∈ more.head?, c = '\n')
      (fun more hmore => lineComment_append hinside hmore) rfl hstop ?_
    intro more hallows
    rwa [hallows.head?_eq_of_token rfl]
  by_cases hblock : text.head? = some '*'
  · obtain ⟨tail, rfl⟩ := List.head?_eq_some_iff.mp hblock
    obtain ⟨body, after, htext, hwidth, hsame⟩ := blockComment_splits tail
    exact ⟨'*' :: body, after, htext, hwidth, hsame⟩
  have hother : ∀ c ∈ text.head?, (c == '/' || c == '*') = false := by
    intro c hc
    simp only [Bool.or_eq_false_iff, beq_eq_false_iff_ne]
    refine ⟨?_, ?_⟩
    · rintro rfl
      exact hline hc
    · rintro rfl
      exact hblock hc
  have hslash {text : List Char} (htext : ∀ c ∈ text.head?, (c == '/' || c == '*') = false) :
      piece '/' text = symbol '/' text :=
    piece_slash fun c hc => by simpa using htext c hc
  obtain ⟨body, after, rfl, hwidth, hsame⟩ := symbol_splits '/' text
  rw [Splits, hslash hother]
  refine ⟨body, after, rfl, hwidth, fun more hallows => ?_⟩
  rw [← hsame more hallows]
  apply hslash
  cases body with
  | nil => exact hallows.stops hother (by decide)
  | cons c body => exact hother

/-- Every piece looks at no more than one character behind it. -/
theorem piece_splits (first : Char) (text : List Char) : Splits (piece first) text := by
  by_cases hslash : first = '/'
  · subst hslash
    exact slash_splits text
  by_cases hnewline : first = '\n'
  · subst hnewline
    exact ⟨[], text, rfl, rfl, fun more _ => rfl⟩
  by_cases hstring : first = '"'
  · subst hstring
    exact stringLiteral_splits text
  by_cases hchar : first = '\''
  · subst hchar
    exact charLiteral_splits text
  have hrule : piece first = if first.isDigit then number first else symbol first := by
    funext text
    unfold piece
    split
    case h_6 => split <;> rfl
    all_goals contradiction
  rw [hrule]
  split
  · exact number_splits first text
  · exact symbol_splits first text

/-- The first piece of a text and the pieces behind it, for all that may stand there. -/
theorem exists_piece (first : Char) (text : List Char) :
    ∃ body after, text = body ++ after ∧ ∀ more, (piece first text).Allows after more →
      pieces (first :: (body ++ more)) =
        ⟨first :: body, (piece first text).token, (piece first text).issue⟩ :: pieces more := by
  obtain ⟨body, after, htext, hwidth, hsame⟩ := piece_splits first text
  refine ⟨body, after, htext, fun more hallows => ?_⟩
  rw [pieces, hsame more hallows, hwidth]
  simp only [List.take_left, List.drop_left]

end KCompiler.Scan
