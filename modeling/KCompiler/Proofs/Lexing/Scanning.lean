import KCompiler.Proofs.Lexing.Cursors
import KCompiler.Token.Lexer

/-! # Scanning with a cursor

The tokens of a source can be taken off a cursor: the piece at the cursor is looked up, the cursor is
moved on past it one character at a time, and the places of the cursor before and behind the piece
are those of its token. A cursor over a source gives the tokens and the findings of the source.
-/

namespace KCompiler.Cursor

/-- The characters that a cursor can still pass. -/
def ahead (cursor : Cursor) : List Char :=
  cursor.rest.takeWhile (· ≠ sentinel)

/-- The cursor behind a number of characters, taken one after another. -/
def advanceBy : Nat → Cursor → Cursor
  | 0, cursor => cursor
  | count + 1, cursor => advanceBy count cursor.advance.2

/-! ## Moving on -/

theorem ahead_of_atEnd {cursor : Cursor} (hend : cursor.atEnd) : cursor.ahead = [] := by
  obtain ⟨location, rest⟩ := cursor
  cases rest with
  | nil => rfl
  | cons c rest =>
      have hnull : c = sentinel := by simpa [atEnd, current, peek] using hend
      simp [ahead, hnull]

theorem next_of_atEnd {cursor : Cursor} (hend : cursor.atEnd) : cursor.next = cursor :=
  next_of_null (by simpa [atEnd, sentinel] using hend)

/-- A cursor that is not at the end passes the current character. -/
theorem next_of_not_atEnd {cursor : Cursor} (hend : cursor.atEnd = false) :
    cursor.ahead = cursor.current :: cursor.next.ahead ∧
      cursor.next.location = cursor.location.after cursor.current := by
  obtain ⟨location, rest⟩ := cursor
  cases rest with
  | nil => simp [atEnd, current, peek] at hend
  | cons c rest =>
      have hnull : c ≠ sentinel := by simpa [atEnd, current, peek] using hend
      simp [ahead, next, current, peek, hnull]

/-- A cursor passes the characters ahead, and no more of them than there are. -/
theorem advanceBy_eq (count : Nat) (cursor : Cursor) :
    (cursor.advanceBy count).ahead = cursor.ahead.drop count ∧
      (cursor.advanceBy count).location =
        cursor.location.afterAll (cursor.ahead.take count) := by
  induction count generalizing cursor with
  | zero => exact ⟨rfl, rfl⟩
  | succ count ih =>
      have hmoved := ih cursor.next
      cases hend : cursor.atEnd with
      | true =>
          rw [next_of_atEnd hend, ahead_of_atEnd hend] at hmoved
          simpa [advanceBy, advance, next_of_atEnd hend, ahead_of_atEnd hend] using hmoved
      | false =>
          obtain ⟨hahead, hlocation⟩ := next_of_not_atEnd hend
          rw [hlocation] at hmoved
          rw [hahead]
          exact hmoved

/-! ## Taking tokens -/

/-- The piece that begins at a cursor. -/
def piece (cursor : Cursor) : Piece :=
  let scan := Scan.piece cursor.current cursor.next.ahead
  ⟨cursor.current :: cursor.next.ahead.take scan.width, scan.token, scan.issue⟩

/-- The cursor behind the piece that begins at it. -/
def behindPiece (cursor : Cursor) : Cursor :=
  cursor.advanceBy cursor.piece.lexeme.length

theorem length_ahead_behindPiece_lt {cursor : Cursor} (hend : cursor.atEnd = false) :
    cursor.behindPiece.ahead.length < cursor.ahead.length := by
  obtain ⟨hahead, -⟩ := next_of_not_atEnd hend
  rw [behindPiece, (advanceBy_eq _ cursor).1, hahead]
  simp only [piece, List.length_cons, List.drop_succ_cons, List.length_drop]
  omega

/-- Takes the tokens and findings off a cursor, one piece after another, up to its end. -/
def scan (cursor : Cursor) : Lexed :=
  if _hend : cursor.atEnd then
    ⟨[.endOfInput cursor.location.offset cursor.location.position], []⟩
  else
    let behind := cursor.behindPiece
    let lexed := behind.scan
    ⟨(cursor.piece.token? cursor.location behind.location).toList ++ lexed.tokens,
      (cursor.piece.finding? cursor.location behind.location).toList ++ lexed.findings⟩
termination_by cursor.ahead.length
decreasing_by exact length_ahead_behindPiece_lt (by simpa using _hend)

/-- The first piece of what is ahead of a cursor is the piece at the cursor, and the others are those
ahead of the cursor behind it. -/
theorem pieces_ahead {cursor : Cursor} (hend : cursor.atEnd = false) :
    pieces cursor.ahead = cursor.piece :: pieces cursor.behindPiece.ahead := by
  obtain ⟨hahead, -⟩ := next_of_not_atEnd hend
  rw [behindPiece, (advanceBy_eq _ cursor).1, hahead, pieces]
  congr 2
  simp [piece, List.drop_eq_drop_iff]

theorem location_behindPiece {cursor : Cursor} (hend : cursor.atEnd = false) :
    cursor.behindPiece.location = cursor.location.afterAll cursor.piece.lexeme := by
  obtain ⟨hahead, -⟩ := next_of_not_atEnd hend
  rw [behindPiece, (advanceBy_eq _ cursor).2, hahead]
  simp only [piece, List.length_cons, List.take_succ_cons, List.length_take,
    ← List.take_eq_take_min]

theorem scan_eq_locate (cursor : Cursor) :
    cursor.scan = locate cursor.location (pieces cursor.ahead) := by
  rw [scan]
  split
  next hend =>
    rw [ahead_of_atEnd hend, pieces]
    rfl
  next hend =>
    have hend : cursor.atEnd = false := by simpa using hend
    have hless := length_ahead_behindPiece_lt hend
    rw [pieces_ahead hend, locate, ← location_behindPiece hend,
      ← scan_eq_locate cursor.behindPiece]
termination_by cursor.ahead.length

/-- A cursor over a source gives what the lexer makes of the source. -/
theorem scan_ofText (source : String) : (ofText source).scan = lex source :=
  scan_eq_locate (ofText source)

end KCompiler.Cursor
