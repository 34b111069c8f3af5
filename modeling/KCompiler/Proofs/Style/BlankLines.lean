import KCompiler.Proofs.Diagnosis.Lines
import KCompiler.Proofs.Lexing.Places
import KCompiler.Style

/-! # Blank lines

Blank lines are counted by line breaks that stand behind each other among the tokens. What the
lexer passes over makes no token, so that lines count which hold a comment or a stray character.
The lines that are counted are blank exactly if there is no such thing between the line breaks.
-/

namespace KCompiler

/-- A text of spaces, tabs and carriage returns. -/
def Text.IsBlank (text : List Char) : Prop :=
  ∀ c ∈ text, c ∈ [' ', '\t', '\r']

/-- Lines, each with the line break that ends it. -/
def endedLines (lines : List (List Char)) : List Char :=
  lines.flatMap (· ++ ['\n'])

/-- What the lexer passes over before the text `after`: blanks, stray characters and comments. -/
inductive PassedOver (after : List Char) : List Char → Prop
  | nil : PassedOver after []
  | cons {filler : Filler} {text more : List Char} (hclosed : filler ≠ .openComment)
      (hspells : filler.Spells text (more ++ after)) (hmore : PassedOver after more) :
      PassedOver after (text ++ more)

/-- Lines before the text `after` that hold nothing but what the lexer passes over. A comment can
make one of them go over several lines of the source. -/
def AllPassedOver (after : List Char) : List (List Char) → Prop
  | [] => True
  | line :: lines =>
    PassedOver ('\n' :: (endedLines lines ++ after)) line ∧ AllPassedOver after lines

/-- A character that is seen in its line. -/
def Text.Shows (c : Char) : Prop :=
  c ∉ [' ', '\t', '\r', '\n']

section Fillers

open Text

variable {filler : Filler} {text after : List Char}

/-- A filler is a blank, or begins and ends with characters that show. Only a block comment has
line breaks, and none behind the last character that shows. -/
theorem Filler.Spells.blank_or_shows (hclosed : filler ≠ .openComment)
    (hspells : filler.Spells text after) :
    (IsBlank text ∧ '\n' ∉ text) ∨ (∃ c more, text = c :: more ∧ Shows c) ∧
      ∃ front c more, text = front ++ c :: more ∧ Shows c ∧ '\n' ∉ more := by
  have hslash : Shows '/' := by simp [Shows]
  cases filler with
  | blank =>
      obtain ⟨c, hc, rfl⟩ := hspells
      refine .inl ⟨by simpa [IsBlank] using hc, ?_⟩
      rintro hbreak
      rw [← List.mem_singleton.mp hbreak] at hc
      simp at hc
  | stray =>
      obtain ⟨c, rfl, hstray⟩ := hspells
      have hbreak : '\n' ≠ c := fun h => hstray (.inl h.symm)
      by_cases hc : c ∈ [' ', '\t', '\r']
      · exact .inl ⟨by simpa [IsBlank] using hc, by simpa using hbreak⟩
      · have hshows : Shows c := by simpa [Shows, hbreak.symm] using hc
        exact .inr ⟨⟨c, [], rfl, hshows⟩, [], c, [], rfl, hshows, by simp⟩
  | lineComment =>
      obtain ⟨body, rfl, hline, -⟩ := hspells
      exact .inr ⟨⟨'/', _, rfl, hslash⟩, [], '/', _, rfl, hslash, by simpa using hline⟩
  | blockComment =>
      obtain ⟨inner, rfl, -⟩ := hspells
      refine .inr ⟨⟨'/', _, rfl, hslash⟩, '/' :: '*' :: (inner ++ ['*']), '/', [], ?_, hslash, by simp⟩
      simp
  | openComment => exact absurd rfl hclosed

theorem PassedOver.blank_or_shows (hpassed : PassedOver after text) :
    (IsBlank text ∧ '\n' ∉ text) ∨
      (∃ front c more, text = front ++ c :: more ∧ Shows c ∧ '\n' ∉ front) ∧
      ∃ front c more, text = front ++ c :: more ∧ Shows c ∧ '\n' ∉ more := by
  induction hpassed with
  | nil => exact .inl ⟨by simp [IsBlank], by simp⟩
  | @cons filler text more hclosed hspells hmore ih =>
      rcases hspells.blank_or_shows hclosed with ⟨hblank, hline⟩ | ⟨⟨c, rest, hfirst, hc⟩, hlast⟩
      · rcases ih with ⟨hrest, hnone⟩ | ⟨⟨front, c, tail, rfl, hc, hfront⟩, hlast⟩
        · refine .inl ⟨List.forall_mem_append.mpr ⟨hblank, hrest⟩, by simp [hline, hnone]⟩
        · refine .inr ⟨⟨text ++ front, c, tail, by simp, hc, by simp [hline, hfront]⟩, ?_⟩
          obtain ⟨back, d, end', hback, hd, hend⟩ := hlast
          exact ⟨text ++ back, d, end', by simp [hback], hd, hend⟩
      · refine .inr ⟨⟨[], c, rest ++ more, by simp [hfirst], hc, by simp⟩, ?_⟩
        rcases ih with ⟨hrest, hnone⟩ | ⟨-, back, d, end', rfl, hd, hend⟩
        · obtain ⟨back, d, end', rfl, hd, hend⟩ := hlast
          exact ⟨back, d, end' ++ more, by simp, hd, by simp [hend, hnone]⟩
        · exact ⟨text ++ back, d, end', by simp, hd, hend⟩

end Fillers

/-! ## The line breaks among the tokens -/

section Tokens

open Style

variable {tokens : List Token} {count : Nat} {span : Span}

theorem isNewline_iff (token : Token) : isNewline token ↔ token.kind = .newline :=
  beq_iff_eq

/-- A run of blank lines is found at line breaks behind each other, with another line break before
them unless they are the first tokens. -/
theorem exists_of_mem_blankLines {atStart : Bool}
    (hmem : ⟨.blankLines count, span⟩ ∈ blankLines atStart tokens) :
    ∃ front newlines back, tokens = front ++ (newlines ++ back) ∧ newlines.length = count ∧
      (∀ token ∈ newlines, token.kind = .newline) ∧
      (∃ first ∈ newlines.head?, first.span = span) ∧
      (atStart ∧ front = [] ∨ ∃ before last, front = before ++ [last] ∧ last.kind = .newline) := by
  fun_induction blankLines atStart tokens with
  | case1 => simp at hmem
  | case2 atStart token tokens hnewline blank found ih =>
      rw [isNewline_iff] at hnewline
      have hrun (other : Token) (hother : other ∈ tokens.takeWhile isNewline) :
          other.kind = .newline :=
        (isNewline_iff other).mp (List.all_eq_true.mp List.all_takeWhile other hother)
      have hsplit : tokens.takeWhile isNewline ++ tokens.dropWhile isNewline = tokens :=
        List.takeWhile_append_dropWhile
      rcases List.mem_append.mp hmem with hfound | hmore
      · obtain ⟨first, more, hblank, hcount, hspan⟩ :
            ∃ first more, blank = first :: more ∧ blank.length = count ∧ first.span = span := by
          cases hblank : blank with
          | nil => simp [found, hblank] at hfound
          | cons first more =>
              have hfound : maxBlankLines < blank.length ∧
                  (count = blank.length ∧ span = first.span) := by
                simpa [found, hblank] using hfound
              exact ⟨first, more, rfl, by rw [← hblank, hfound.2.1], hfound.2.2.symm⟩
        cases atStart with
        | true =>
            refine ⟨[], blank, tokens.dropWhile isNewline, ?_, hcount, ?_, ?_, .inl ⟨rfl, rfl⟩⟩
            · simp [blank, hsplit]
            · simpa [blank, hnewline] using hrun
            · exact ⟨first, by simp [hblank], hspan⟩
        | false =>
            refine ⟨[token], blank, tokens.dropWhile isNewline, ?_, hcount, ?_, ?_, ?_⟩
            · simp [blank, hsplit]
            · simpa [blank] using hrun
            · exact ⟨first, by simp [hblank], hspan⟩
            · exact .inr ⟨[], token, rfl, hnewline⟩
      · obtain ⟨front, newlines, back, hback, hcount, hkinds, hfirst, hlast⟩ := ih hmore
        obtain ⟨before, last, rfl, hkind⟩ := hlast.resolve_left (by simp)
        refine ⟨token :: (tokens.takeWhile isNewline ++ (before ++ [last])), newlines, back, ?_,
          hcount, hkinds, hfirst, .inr ⟨token :: (tokens.takeWhile isNewline ++ before), last, ?_,
          hkind⟩⟩
        · rw [List.cons_append, List.append_assoc, ← hback, hsplit]
        · simp
  | case3 atStart token tokens hother ih =>
      obtain ⟨front, newlines, back, rfl, hcount, hkinds, hfirst, hlast⟩ := ih hmem
      obtain ⟨before, last, rfl, hkind⟩ := hlast.resolve_left (by simp)
      exact ⟨token :: (before ++ [last]), newlines, back, rfl, hcount, hkinds, hfirst,
        .inr ⟨token :: before, last, rfl, hkind⟩⟩

end Tokens

/-! ## The text before the line breaks -/

section Texts

variable {first : Char} {rest : List Char}

/-- A line break is the only character of its token. -/
theorem Scan.lexeme_of_newline {content : List Char}
    (htoken : (piece first rest).token = some (.newline, content)) :
    first :: rest.take (piece first rest).width = ['\n'] := by
  have hmakes := piece_makes first rest
  generalize piece first rest = scan at hmakes htoken ⊢
  cases hmakes with
  | newline hfirst => simp [spelled, hfirst]
  | spelt hkind _ _ =>
      obtain ⟨rfl, -⟩ := Prod.mk.inj (Option.some.inj htoken)
      cases hkind
  | literal hkind _ =>
      obtain ⟨rfl, -⟩ := Prod.mk.inj (Option.some.inj htoken)
      simp at hkind
  | filler _ => cases htoken

/-- What makes neither a token nor a finding is a filler. -/
theorem Scan.filler_of_none (htoken : (piece first rest).token = none)
    (hissue : (piece first rest).issue = none) :
    ∃ filler : Filler, filler ≠ .openComment ∧
      filler.Spells (first :: rest.take (piece first rest).width)
        (rest.drop (piece first rest).width) := by
  have hmakes := piece_makes first rest
  generalize piece first rest = scan at hmakes htoken hissue ⊢
  cases hmakes with
  | newline hfirst => cases htoken
  | spelt _ _ _ => cases htoken
  | literal _ _ => cases htoken
  | @filler filler width hspells => exact ⟨filler, by simpa using hissue, hspells⟩

end Texts

/-- The tokens of a text that begins at a place and has nothing broken in it: fillers are passed
over, and a line break is a token of its own. -/
inductive Lexes : Location → List Char → List Token → Prop
  | done {place : Location} {eof : Token} (heof : eof.kind = .eof) : Lexes place [] [eof]
  | pass {place : Location} {text rest : List Char} {tokens : List Token} {filler : Filler}
      (hclosed : filler ≠ .openComment) (hspells : filler.Spells text rest)
      (hrest : Lexes (place.afterAll text) rest tokens) : Lexes place (text ++ rest) tokens
  | token {place : Location} {text rest : List Char} {token : Token} {tokens : List Token}
      (hstart : token.span.start = place.position) (hnewline : token.kind = .newline → text = ['\n'])
      (hrest : Lexes (place.afterAll text) rest tokens) : Lexes place (text ++ rest) (token :: tokens)

theorem lexes_of_clean (place : Location) (text : List Char)
    (hclean : (locate place (pieces text)).findings = []) :
    Lexes place text (locate place (pieces text)).tokens := by
  induction text using pieces.induct generalizing place with
  | case1 =>
      rw [pieces]
      exact .done rfl
  | case2 first rest scan ih =>
      rw [pieces, locate] at hclean ⊢
      obtain ⟨hfinding, hclean⟩ := List.append_eq_nil_iff.mp hclean
      have hsplit : first :: rest = (first :: rest.take scan.width) ++ rest.drop scan.width := by
        simp
      rw [hsplit]
      have hrest := ih _ hclean
      cases htoken : (Scan.piece first rest).token with
      | none =>
          have hissue : (Scan.piece first rest).issue = none := by
            simpa [Piece.finding?] using hfinding
          obtain ⟨filler, hclosed, hspells⟩ := Scan.filler_of_none htoken hissue
          exact .pass hclosed hspells hrest
      | some content =>
          refine .token rfl (fun hkind => ?_) hrest
          obtain ⟨kind, text⟩ := content
          obtain rfl : kind = .newline := hkind
          exact Scan.lexeme_of_newline htoken

namespace Lexes

variable {place : Location} {text : List Char} {back : List Token}

/-- The text behind a token that is not the last. -/
theorem exists_behind {front : List Token} {last : Token}
    (hlexes : Lexes place text (front ++ last :: back)) (hback : back ≠ []) :
    ∃ before lexeme after, text = (before ++ lexeme) ++ after ∧
      Lexes (place.afterAll (before ++ lexeme)) after back ∧
      (last.kind = .newline → lexeme = ['\n']) := by
  generalize htokens : front ++ last :: back = tokens at hlexes
  induction hlexes generalizing front with
  | done heof =>
      cases front with
      | nil => exact absurd (List.cons.inj htokens).2 hback
      | cons token front => simp at htokens
  | @pass place text rest tokens filler hclosed hspells hrest ih =>
      obtain ⟨before, lexeme, after, rfl, hafter, hnewline⟩ := ih htokens
      refine ⟨text ++ before, lexeme, after, by simp, ?_, hnewline⟩
      rwa [List.append_assoc, Location.afterAll_append]
  | @token place text rest token tokens hstart hnewline hrest ih =>
      cases front with
      | nil =>
          obtain ⟨rfl, rfl⟩ := List.cons.inj htokens
          exact ⟨[], text, rest, rfl, hrest, hnewline⟩
      | cons other front =>
          obtain ⟨-, htokens⟩ := List.cons.inj htokens
          obtain ⟨before, lexeme, after, rfl, hafter, hkind⟩ := ih htokens
          refine ⟨text ++ before, lexeme, after, by simp, ?_, hkind⟩
          rwa [List.append_assoc, Location.afterAll_append]

/-- Before each of some line breaks at the front stands what the lexer passes over. -/
theorem exists_passedOver {newlines : List Token} (hlexes : Lexes place text (newlines ++ back))
    (hkinds : ∀ token ∈ newlines, token.kind = .newline) :
    ∃ lines after, text = endedLines lines ++ after ∧ lines.length = newlines.length ∧
      AllPassedOver after lines ∧
      ∀ token ∈ newlines.head?, ∃ line ∈ lines.head?,
        token.span.start = (place.afterAll line).position := by
  generalize htokens : newlines ++ back = tokens at hlexes
  induction hlexes generalizing newlines with
  | @done place eof heof =>
      cases newlines with
      | nil => exact ⟨[], [], rfl, rfl, trivial, by simp⟩
      | cons newline newlines =>
          obtain ⟨rfl, -⟩ := List.cons.inj htokens
          have hkind := hkinds newline List.mem_cons_self
          simp [heof] at hkind
  | @pass place text rest tokens filler hclosed hspells hrest ih =>
      cases newlines with
      | nil => exact ⟨[], text ++ rest, rfl, rfl, trivial, by simp⟩
      | cons newline newlines =>
          obtain ⟨lines, after, rfl, hlength, hpassed, hstart⟩ := ih hkinds htokens
          cases lines with
          | nil => simp at hlength
          | cons line lines =>
              have hcover : endedLines (line :: lines) ++ after =
                  line ++ '\n' :: (endedLines lines ++ after) := by simp [endedLines]
              rw [hcover] at hspells
              refine ⟨(text ++ line) :: lines, after, by simp [endedLines], hlength,
                ⟨.cons hclosed hspells hpassed.1, hpassed.2⟩, ?_⟩
              intro token htoken
              obtain ⟨_, ⟨⟩, hstart⟩ := hstart token htoken
              exact ⟨text ++ line, rfl, by rw [Location.afterAll_append, hstart]⟩
  | @token place text rest token tokens hstart hnewline hrest ih =>
      cases newlines with
      | nil => exact ⟨[], text ++ rest, rfl, rfl, trivial, by simp⟩
      | cons newline newlines =>
          obtain ⟨rfl, hmore⟩ := List.cons.inj htokens
          rw [List.forall_mem_cons] at hkinds
          obtain rfl := hnewline hkinds.1
          obtain ⟨lines, after, rfl, hlength, hpassed, -⟩ := ih hkinds.2 hmore
          refine ⟨[] :: lines, after, by simp [endedLines], by simp [hlength], ⟨.nil, hpassed⟩, ?_⟩
          rintro _ ⟨⟩
          exact ⟨[], rfl, hstart⟩

end Lexes

/-! ## Lines that are blank -/

/-- A line of a source, by its number, that is there and blank. -/
def BlankLine (source : String) (number : Nat) : Prop :=
  ∃ line, Text.line? source number = some line ∧ Text.IsBlank line.toList

section Lines

open Text

variable {source : String} {front back : List Char}

theorem takeWhile_line {line : List Char} (hline : '\n' ∉ line) (more : List Char) :
    (line ++ '\n' :: more).takeWhile (· ≠ '\n') = line := by
  rw [List.takeWhile_append_of_pos (takesLine hline)]
  simp

theorem newline_notMem_of_isBlank {line : List Char} (hblank : IsBlank line) : '\n' ∉ line := by
  intro hmem
  simpa using hblank '\n' hmem

theorem not_isBlank_of_mem {line : List Char} {c : Char} (hmem : c ∈ line) (hc : Shows c) :
    ¬IsBlank line := by
  intro hblank
  have hin := hblank c hmem
  simp only [Shows, List.mem_cons, List.not_mem_nil, or_false] at hc hin
  exact hc (hin.imp id (Or.imp id .inl))

/-- A character that shows is seen in the line that has its number. -/
theorem not_blankLine {c : Char} (hsource : source.toList = front ++ c :: back) (hc : Shows c) :
    ¬BlankLine source (Position.behind front).line := by
  rintro ⟨line, hline, hblank⟩
  refine not_isBlank_of_mem ?_ hc hblank
  have hat := (line?_at hsource).2 line hline
  generalize line.toList = found at hat
  cases hat with
  | last hfront hbefore hnone => simp
  | @ended before left right after _ hfront hback hbefore hnone hreturn =>
      have hright : c ∈ left ++ right := by
        cases right with
        | nil =>
            obtain ⟨rfl, -⟩ := List.cons.inj hback
            simp [Shows] at hc
        | cons d right =>
            obtain ⟨rfl, -⟩ := List.cons.inj hback
            simp
      rcases hreturn with hreturn | ⟨hreturn, -⟩
      · rw [hreturn, List.mem_append, List.mem_singleton] at hright
        refine hright.resolve_right ?_
        rintro rfl
        simp [Shows] at hc
      · rwa [← hreturn]

/-- A line that holds nothing but blanks before the line break that ends it. -/
theorem blankLine_of_isBlank {line : List Char}
    (hsource : source.toList = front ++ (line ++ '\n' :: back))
    (hfront : front = [] ∨ front.getLast? = some '\n') (hblank : IsBlank line) :
    BlankLine source (Position.behind front).line := by
  obtain ⟨hend, hat⟩ := line?_at hsource
  obtain ⟨found, hfound⟩ : ∃ found, line? source (Position.behind front).line = some found := by
    refine Option.ne_none_iff_exists'.mp fun hnone => ?_
    simpa using (hend.mp hnone).1
  refine ⟨found, hfound, ?_⟩
  have hat := hat found hfound
  generalize found.toList = text at hat
  cases hat with
  | last _ _ hnone => simp at hnone
  | @ended before left right after _ hsplit hback hbefore hnone hreturn =>
      rw [List.mem_append, not_or] at hnone
      have hleft : left = [] := by
        rcases List.eq_nil_or_concat left with rfl | ⟨init, d, rfl⟩
        · rfl
        · obtain rfl : d = '\n' := by simpa [hsplit] using hfront
          simp at hnone
      have hright : right = line := by
        have htake := congrArg (List.takeWhile (· ≠ '\n')) hback
        rw [takeWhile_line (newline_notMem_of_isBlank hblank), takeWhile_line hnone.2] at htake
        exact htake.symm
      subst hleft hright
      rw [List.nil_append] at hreturn
      rcases hreturn with rfl | ⟨rfl, -⟩
      · exact fun c hc => hblank c (List.mem_append_left _ hc)
      · exact hblank

/-- The lines behind a place at the beginning of a line are blank exactly if only blanks are passed
over in them. -/
theorem blankLines_iff {lines : List (List Char)} {after rest : List Char}
    (hsource : source.toList = front ++ (endedLines lines ++ rest))
    (hfront : front = [] ∨ front.getLast? = some '\n') (hpassed : AllPassedOver after lines) :
    (∀ i < lines.length, BlankLine source ((Position.behind front).line + i)) ↔
      ∀ line ∈ lines, IsBlank line := by
  induction lines generalizing front with
  | nil => simp
  | cons line lines ih =>
      have hinput : source.toList = front ++ (line ++ '\n' :: (endedLines lines ++ rest)) := by
        simp [hsource, endedLines]
      rcases hpassed.1.blank_or_shows with ⟨hblank, hline⟩ | ⟨⟨before, c, more, rfl, hc, hnone⟩, -⟩
      · have hnext : (Position.behind (front ++ line ++ ['\n'])).line =
            (Position.behind front).line + 1 := by
          simp [Position.behind, List.count_eq_zero.mpr hline]
          omega
        have hmore := @ih (front ++ line ++ ['\n']) (by simp [hinput]) (by simp) hpassed.2
        have hfirst := blankLine_of_isBlank hinput hfront hblank
        rw [List.forall_mem_cons, ← hmore, hnext, List.length_cons]
        simp only [Nat.forall_lt_succ_left, Nat.add_zero, hfirst, hblank, true_and, Nat.add_assoc,
          Nat.add_comm 1]
      · -- What shows is on the first line that is counted.
        have hplace : (Position.behind (front ++ before)).line = (Position.behind front).line := by
          simp [Position.behind, List.count_eq_zero.mpr hnone]
        have hat : source.toList =
            (front ++ before) ++ c :: (more ++ '\n' :: (endedLines lines ++ rest)) := by
          simpa using hinput
        have hshown := not_blankLine hat hc
        refine iff_of_false (fun hall => hshown ?_) (fun hall => ?_)
        · rw [hplace]
          exact hall 0 (by simp)
        · exact not_isBlank_of_mem (by simp) hc (hall _ List.mem_cons_self)

end Lines

theorem mem_blankLines_of_mem_check {tokens : List Token} {count : Nat} {span : Span}
    (hfound : ⟨.blankLines count, span⟩ ∈ Style.check tokens) :
    ⟨.blankLines count, span⟩ ∈ Style.blankLines true tokens := by
  refine (List.mem_append.mp hfound).resolve_left fun hparens => ?_
  obtain ⟨⟨closed?, opened⟩, -, hsome⟩ := List.mem_filterMap.mp hparens
  obtain ⟨closed, -, hsome⟩ := Option.bind_eq_some_iff.mp hsome
  obtain ⟨why, -, hsome⟩ := Option.bind_eq_some_iff.mp hsome
  cases hsome

/-- The line on which the first of some line breaks stands is the line behind what was passed over
before it. -/
theorem blankLines_from_first_iff {source : String} {before line : List Char}
    {lines : List (List Char)} {after rest : List Char}
    (hsource : source.toList = before ++ (endedLines (line :: lines) ++ rest))
    (hbefore : before = [] ∨ before.getLast? = some '\n')
    (hpassed : AllPassedOver after (line :: lines)) :
    (∀ i < (line :: lines).length, BlankLine source ((Position.behind (before ++ line)).line + i)) ↔
      ∀ passed ∈ line :: lines, Text.IsBlank passed := by
  rcases hpassed.1.blank_or_shows with ⟨-, hline⟩ | ⟨-, front, c, more, rfl, hc, hnone⟩
  · have hplace : (Position.behind (before ++ line)).line = (Position.behind before).line := by
      simp [Position.behind, List.count_eq_zero.mpr hline]
    rw [hplace]
    exact blankLines_iff hsource hbefore hpassed
  · -- The last character that shows is on the line of the line break.
    have hplace : (Position.behind (before ++ front)).line =
        (Position.behind (before ++ (front ++ c :: more))).line := by
      have hc' : c ≠ '\n' := by
        rintro rfl
        simp [Text.Shows] at hc
      simp [Position.behind, List.count_eq_zero.mpr hnone, List.count_cons_of_ne hc']
    have hat : source.toList =
        (before ++ front) ++ c :: (more ++ '\n' :: (endedLines lines ++ rest)) := by
      simpa [endedLines] using hsource
    have hshown := not_blankLine hat hc
    rw [hplace] at hshown
    refine iff_of_false (fun hall => hshown (hall 0 (by simp))) (fun hall => ?_)
    exact not_isBlank_of_mem (by simp) hc (hall _ List.mem_cons_self)

/-- Where blank lines are counted, so many line breaks stand with nothing before each of them that
makes a token. The lines from the first one on are blank exactly if nothing but blanks is passed
over there: no comment and no stray character. -/
theorem blank_iff_nothing_passed {source : String} {count : Nat} {span : Span}
    (hclean : (lex source).findings = [])
    (hfound : ⟨.blankLines count, span⟩ ∈ Style.check (lex source).tokens) :
    ∃ before lines after, visibleText source = before ++ (endedLines lines ++ after) ∧
      lines.length = count ∧ (before = [] ∨ before.getLast? = some '\n') ∧
      AllPassedOver after lines ∧
      (∃ first ∈ lines.head?, span.start = .behind (before ++ first)) ∧
      ((∀ i < count, BlankLine source (span.start.line + i)) ↔
        ∀ line ∈ lines, Text.IsBlank line) := by
  obtain ⟨front, newlines, back, htokens, hcount, hkinds, ⟨first, hfirst, hspan⟩, hlast⟩ :=
    exists_of_mem_blankLines (mem_blankLines_of_mem_check hfound)
  have hlexes := lexes_of_clean .start (visibleText source) hclean
  change Lexes .start (visibleText source) (lex source).tokens at hlexes
  rw [htokens] at hlexes
  obtain ⟨before, rest, hvisible, hbefore, hlexes⟩ : ∃ before rest,
      visibleText source = before ++ rest ∧ (before = [] ∨ before.getLast? = some '\n') ∧
      Lexes (Location.start.afterAll before) rest (newlines ++ back) := by
    rcases hlast with ⟨-, rfl⟩ | ⟨others, last, rfl, hlast⟩
    · exact ⟨[], _, rfl, .inl rfl, hlexes⟩
    · rw [List.append_assoc] at hlexes
      have hback : newlines ++ back ≠ [] := by
        rintro hnil
        simp [(List.append_eq_nil_iff.mp hnil).1] at hfirst
      obtain ⟨before, lexeme, rest, hvisible, hrest, hnewline⟩ := hlexes.exists_behind hback
      exact ⟨before ++ lexeme, rest, hvisible, .inr (by simp [hnewline hlast]), hrest⟩
  obtain ⟨lines, after, rfl, hlength, hpassed, hstart⟩ := hlexes.exists_passedOver hkinds
  obtain ⟨line, hline, hplace⟩ := hstart first hfirst
  rw [← Location.afterAll_append, Location.afterAll_start, hspan] at hplace
  refine ⟨before, lines, after, hvisible, hlength.trans hcount, hbefore, hpassed,
    ⟨line, hline, hplace⟩, ?_⟩
  obtain ⟨hidden, hsource⟩ := isPrefix_visibleText source
  obtain ⟨lines, rfl⟩ := List.head?_eq_some_iff.mp hline
  have hinput : source.toList = before ++ (endedLines (line :: lines) ++ (after ++ hidden)) := by
    rw [← hsource, hvisible]
    simp
  rw [hplace, ← hcount, ← hlength]
  exact blankLines_from_first_iff hinput hbefore hpassed

/-- Blank lines before anything else, with a blank and a carriage return. -/
theorem blank_iff_nothing_passed_start :
    let source := " \n\r\n\t\nmod m"
    ∃ before lines after, visibleText source = before ++ (endedLines lines ++ after) ∧
      lines.length = 3 ∧ (before = [] ∨ before.getLast? = some '\n') ∧
      AllPassedOver after lines ∧
      (∃ first ∈ lines.head?, ⟨1, 2⟩ = Position.behind (before ++ first)) ∧
      ((∀ i < 3, BlankLine source (1 + i)) ↔ ∀ line ∈ lines, Text.IsBlank line) :=
  @blank_iff_nothing_passed _ 3 ⟨⟨1, 2⟩, ⟨2, 1⟩⟩ (by decide +kernel) (by decide +kernel)

/-- Three lines with comments count as three blank lines. -/
theorem comments_counted_as_blank :
    let source := "mod m\n// a\n// b\n// c\nx"
    (lex source).findings = [] ∧
      ⟨.blankLines 3, ⟨⟨2, 5⟩, ⟨3, 1⟩⟩⟩ ∈ Style.check (lex source).tokens ∧
      ¬BlankLine source 2 := by
  intro source
  refine ⟨by decide +kernel, by decide +kernel, ?_⟩
  have hat : source.toList = "mod m\n".toList ++ '/' :: "/ a\n// b\n// c\nx".toList := by
    decide +kernel
  exact not_blankLine hat (by simp [Text.Shows])

end KCompiler
