import KCompiler.Source.Cursor
import KCompiler.Token.Basic
import KCompiler.Token.Lexeme

/-! # From a source to its tokens

The pieces of a source are put at their places. Lexing never fails: a broken piece
becomes a token all the same, and a finding beside it.
-/

namespace KCompiler

/-- The tokens of a source, and what was wrong with it. -/
structure Lexed where
  tokens : List Token
  findings : List Finding

namespace Piece

/-- The token of a piece between two places. -/
def token? (piece : Piece) (start finish : Location) : Option Token :=
  piece.token.map fun (kind, text) =>
    ⟨kind, String.ofList text, .ofBounds start.offset finish.offset,
      ⟨start.position, finish.position⟩⟩

/-- The finding of a piece between two places. Of an open comment only the two characters
that open it are marked. -/
def finding? (piece : Piece) (start finish : Location) : Option Finding :=
  piece.issue.map fun issue =>
    let marked := if issue = .openComment then
        ⟨start.position.line, start.position.column + 2⟩
      else finish.position
    ⟨issue, ⟨start.position, marked⟩⟩

end Piece

/-- The tokens and findings of pieces that begin at a place, and the end of the input
behind them. -/
def locate (place : Location) : List Piece → Lexed
  | [] => ⟨[.endOfInput place.offset place.position], []⟩
  | piece :: rest =>
    let finish := place.afterAll piece.lexeme
    let lexed := locate finish rest
    ⟨(piece.token? place finish).toList ++ lexed.tokens,
      (piece.finding? place finish).toList ++ lexed.findings⟩

/-- The text that a lexer sees: everything before the first null character. -/
def visibleText (source : String) : List Char :=
  source.toList.takeWhile (· ≠ Cursor.sentinel)

/-- The tokens of a source, the last of which is the end of the input. -/
def lex (source : String) : Lexed :=
  locate .start (pieces (visibleText source))

end KCompiler
