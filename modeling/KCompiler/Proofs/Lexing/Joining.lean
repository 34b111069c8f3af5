import KCompiler.Proofs.Lexing.Lookahead
import KCompiler.Proofs.Lexing.Tokens

/-! # Sources that meet at a line break

A source is lexed line by line: behind a line break that is a token, the lexer goes on as at the
beginning of a source, only further down. So the tokens and findings of two sources that meet at a
line break are those of the first and, moved to their places, those of the second.
-/

namespace KCompiler

/-- How far a text is moved down by what stands before it. -/
structure Shift where
  bytes : Nat
  lines : Nat

namespace Shift

variable (shift : Shift)

def position (position : Position) : Position :=
  ⟨position.line + shift.lines, position.column⟩

def location (place : Location) : Location :=
  ⟨place.offset + shift.bytes, shift.position place.position⟩

def span (span : Span) : Span :=
  ⟨shift.position span.start, shift.position span.finish⟩

/-- A token with its places moved, and nothing else. -/
def token (token : Token) : Token :=
  { token with
    bytes := ⟨token.bytes.lo + shift.bytes, token.bytes.length⟩
    span := shift.span token.span }

/-- A finding with its span moved. -/
def finding (finding : Finding) : Finding :=
  { finding with span := shift.span finding.span }

/-- What stands behind a text and a line break is moved by their bytes and by their lines. -/
def past (front : String) : Shift where
  bytes := front.utf8ByteSize + 1
  lines := 1 + front.toList.count '\n'

theorem location_after (place : Location) (c : Char) :
    (shift.location place).after c = shift.location (place.after c) := by
  simp only [Location.after, location, position, Position.after]
  split
  · simp only [Location.mk.injEq, Position.mk.injEq, and_true]
    omega
  · simp only [Location.mk.injEq, and_true]
    omega

theorem location_afterAll (place : Location) (text : List Char) :
    (shift.location place).afterAll text = shift.location (place.afterAll text) := by
  induction text generalizing place with
  | nil => rfl
  | cons c text ih => rw [Location.afterAll_cons, location_after, ih, Location.afterAll_cons]

theorem token?_location (piece : Piece) (start finish : Location) :
    piece.token? (shift.location start) (shift.location finish) =
      (piece.token? start finish).map shift.token := by
  obtain ⟨lexeme, _ | ⟨kind, text⟩, issue⟩ := piece
  · rfl
  · simp [Piece.token?, token, location, span, ByteRange.ofBounds, Nat.add_sub_add_right]

theorem finding?_location (piece : Piece) (start finish : Location) :
    piece.finding? (shift.location start) (shift.location finish) =
      (piece.finding? start finish).map shift.finding := by
  obtain ⟨lexeme, token, _ | issue⟩ := piece
  · rfl
  · simp only [Piece.finding?, Option.map_some, finding, span]
    split <;> rfl

/-- Pieces at another place give the same tokens and findings, moved. -/
theorem locate_location (place : Location) (pieces : List Piece) :
    locate (shift.location place) pieces =
      ⟨(locate place pieces).tokens.map shift.token,
        (locate place pieces).findings.map shift.finding⟩ := by
  induction pieces generalizing place with
  | nil => rfl
  | cons piece pieces ih =>
      simp only [locate, location_afterAll, ih, token?_location, finding?_location,
        Option.toList_map, List.map_append]

theorem location_past (front : String) :
    (past front).location .start = Location.start.afterAll (front.toList ++ ['\n']) := by
  have hsize : '\n'.utf8Size = 1 := rfl
  rw [Location.afterAll_start]
  simp only [location, position, past, Location.start, Position.start, Position.behind,
    String.utf8Len_append, String.utf8Len_toList, String.utf8Len_cons, String.utf8Len_nil, hsize,
    List.count_append, List.count_singleton_self, List.reverse_append, List.reverse_singleton]
  simp only [Location.mk.injEq, Position.mk.injEq]
  refine ⟨by omega, by omega, rfl⟩

end Shift

/-! ## Pieces behind each other -/

theorem tokens_locate_ne_nil (place : Location) (pieces : List Piece) :
    (locate place pieces).tokens ≠ [] := by
  induction pieces generalizing place with
  | nil => simp [locate]
  | cons piece pieces ih => simp [locate, ih]

/-- Pieces go on where those before them end. The end of the input is behind them all. -/
theorem locate_append (place : Location) (first second : List Piece) :
    let next := place.afterAll (first.flatMap Piece.lexeme)
    locate place (first ++ second) =
      ⟨(locate place first).tokens.dropLast ++ (locate next second).tokens,
        (locate place first).findings ++ (locate next second).findings⟩ := by
  induction first generalizing place with
  | nil => rfl
  | cons piece first ih =>
      simp only [List.cons_append, locate, ih, List.flatMap_cons, Location.afterAll_append,
        List.dropLast_append_of_ne_nil (tokens_locate_ne_nil _ _), List.append_assoc]

/-! ## Line breaks -/

/-- The piece of a line break. -/
def Piece.newline : Piece := ⟨['\n'], some (.newline, ['\n']), none⟩

theorem pieces_newline (text : List Char) : pieces ('\n' :: text) = .newline :: pieces text := by
  rw [pieces]
  rfl

/-- If a line break is a piece of its own, the pieces before it are the same whatever stands
behind it. -/
theorem pieces_append_newline {front : List Char} {before : List Piece}
    (hpieces : pieces (front ++ ['\n']) = before ++ [.newline]) (back : List Char) :
    pieces (front ++ '\n' :: back) = pieces (front ++ ['\n']) ++ pieces back := by
  have hcover : before.flatMap Piece.lexeme = front := by
    have hcover := pieces_flatMap_lexeme (front ++ ['\n'])
    rw [hpieces, List.flatMap_append] at hcover
    exact List.append_cancel_right hcover
  induction before generalizing front with
  | nil =>
      subst hcover
      rw [List.flatMap_nil, List.nil_append, List.nil_append, pieces_newline, pieces_newline,
        pieces]
      rfl
  | cons piece before ih =>
      cases front with
      | nil =>
          rw [List.nil_append, pieces_newline, pieces] at hpieces
          simp at hpieces
      | cons c front =>
          obtain ⟨body, after, htext, hbody⟩ := Scan.exists_piece c (front ++ ['\n'])
          have hwhole := hbody after (.of_head? rfl)
          rw [← htext, ← List.cons_append, hpieces, List.cons_append] at hwhole
          obtain ⟨hpiece, hbefore⟩ := List.cons.inj hwhole
          have hafter : after = before.flatMap Piece.lexeme ++ ['\n'] := by
            rw [← pieces_flatMap_lexeme after, ← hbefore, List.flatMap_append]
            rfl
          subst hafter
          rw [← List.append_assoc] at htext
          obtain rfl := List.append_cancel_right htext
          have hsame : (before.flatMap Piece.lexeme ++ '\n' :: back).head? =
              (before.flatMap Piece.lexeme ++ ['\n']).head? := by
            simp only [List.head?_append, List.head?_cons]
          rw [hpieces, hpiece, List.cons_append, List.append_assoc, hbody _ (.of_head? hsame),
            ih hbefore.symm rfl, ← hbefore, List.cons_append, List.cons_append]

/-! ## Sources -/

/-- A text begins with only one text of a size. -/
theorem eq_of_utf8Len_eq {first second rest more : List Char}
    (happend : first ++ rest = second ++ more)
    (hsize : String.utf8Len first = String.utf8Len second) : first = second := by
  rcases List.append_eq_append_iff.mp happend with ⟨inner, rfl, -⟩ | ⟨inner, rfl, -⟩
  all_goals
    rw [String.utf8Len_append] at hsize
    obtain rfl : inner = [] := String.utf8Len_eq_zero.mp (by omega)
    simp

theorem visibleText_append {front : String} (hfront : Cursor.sentinel ∉ front.toList)
    (back : String) : visibleText (front ++ back) = front.toList ++ visibleText back := by
  rw [visibleText, String.toList_append, List.takeWhile_append_of_pos, visibleText]
  intro c hc
  simpa using fun hnull : c = Cursor.sentinel => hfront (hnull ▸ hc)

theorem visibleText_append_of_mem {front : String} (hfront : Cursor.sentinel ∈ front.toList)
    (back : String) : visibleText (front ++ back) = visibleText front := by
  rw [visibleText, String.toList_append, List.takeWhile_append, if_neg, visibleText]
  intro hlength
  have hall := (List.takeWhile_prefix _).eq_of_length hlength
  simpa using List.takeWhile_eq_self_iff.mp hall _ hfront

/-- A line break that is a token is a piece of its own, and the lexer sees all that is before it. -/
theorem exists_pieces_of_token {front : String} {token : Token}
    (hmem : token ∈ (lex (front ++ "\n")).tokens) (hkind : token.kind ≠ .eof)
    (hplace : token.bytes.lo = front.utf8ByteSize) :
    Cursor.sentinel ∉ front.toList ∧
      ∃ before, pieces (front.toList ++ ['\n']) = before ++ [.newline] := by
  obtain ⟨start, first, rest, before, htext, hlo, -, hpieces⟩ := exists_split_of_mem_lex hmem hkind
  rw [hplace, ← String.utf8Len_toList] at hlo
  have hvisible : Cursor.sentinel ∉ front.toList := by
    intro hnull
    rw [visibleText_append_of_mem hnull] at htext
    have hsize := utf8Len_visibleText_le front
    rw [htext, String.utf8Len_append, ← String.utf8Len_toList, hlo] at hsize
    cases String.utf8Len_eq_zero.mp (show String.utf8Len (first :: rest) = 0 by omega)
  refine ⟨hvisible, before, ?_⟩
  have hwhole : visibleText (front ++ "\n") = front.toList ++ ['\n'] :=
    visibleText_append hvisible "\n"
  rw [hwhole] at htext hpieces
  obtain rfl := eq_of_utf8Len_eq htext hlo
  rw [hpieces, ← List.append_cancel_left htext, pieces_newline, pieces]

/-- Lexing goes line by line: behind a line break that is a token, a source is lexed as if it stood
alone, and moved to its place. -/
theorem lex_append_line {front : String} {body : List Token} {newline eof : Token}
    (htokens : (lex (front ++ "\n")).tokens = body ++ [newline, eof])
    (hkind : newline.kind = .newline) (hplace : newline.bytes.lo = front.utf8ByteSize)
    (back : String) :
    (lex (front ++ "\n" ++ back)).tokens =
        body ++ [newline] ++ (lex back).tokens.map (Shift.past front).token ∧
      (lex (front ++ "\n" ++ back)).findings =
        (lex (front ++ "\n")).findings ++ (lex back).findings.map (Shift.past front).finding := by
  obtain ⟨hvisible, before, hbefore⟩ :=
    exists_pieces_of_token (htokens ▸ by simp) (by simp [hkind]) hplace
  have hline : visibleText (front ++ "\n") = front.toList ++ ['\n'] :=
    visibleText_append hvisible "\n"
  have hwhole : visibleText (front ++ "\n" ++ back) = front.toList ++ '\n' :: visibleText back := by
    rw [String.append_assoc, visibleText_append hvisible, visibleText_append (by decide)]
    rfl
  have hlex : lex (front ++ "\n" ++ back) =
      ⟨(lex (front ++ "\n")).tokens.dropLast ++ (lex back).tokens.map (Shift.past front).token,
        (lex (front ++ "\n")).findings ++ (lex back).findings.map (Shift.past front).finding⟩ := by
    rw [lex, hwhole, pieces_append_newline hbefore, locate_append, pieces_flatMap_lexeme,
      ← Shift.location_past, Shift.locate_location, lex, hline, lex]
  rw [hlex, htokens]
  refine ⟨?_, rfl⟩
  simp

/-- A string over two lines, a comment and an open literal stand before the line break, an empty
literal and an open comment behind it. -/
theorem lex_append_line_literals :
    let front := "x = \"\u00e9\n\" // c\n'q"
    let back := "'' /*"
    let lexed := lex (front ++ "\n")
    let newline : Token := ⟨.newline, "\n", ⟨17, 1⟩, ⟨⟨3, 3⟩, ⟨4, 1⟩⟩⟩
    lexed.tokens = lexed.tokens.take 5 ++ [newline, .endOfInput 18 ⟨4, 1⟩] ∧
      newline.kind = .newline ∧ newline.bytes.lo = front.utf8ByteSize ∧
      (lex (front ++ "\n" ++ back)).tokens =
        lexed.tokens.take 5 ++ [newline] ++ (lex back).tokens.map (Shift.past front).token ∧
      (lex (front ++ "\n" ++ back)).findings =
        lexed.findings ++ (lex back).findings.map (Shift.past front).finding := by
  intro front back lexed newline
  have htokens : lexed.tokens = lexed.tokens.take 5 ++ [newline, .endOfInput 18 ⟨4, 1⟩] := by
    decide +kernel
  have hplace : newline.bytes.lo = front.utf8ByteSize := by decide +kernel
  exact ⟨htokens, rfl, hplace, lex_append_line htokens rfl hplace back⟩

end KCompiler
