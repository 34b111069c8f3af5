import KCompiler.Proofs.Lexing.Rules
import KCompiler.Token.Lexer
import Mathlib.Data.String.Basic

/-! # A source is tiled by tokens and fillers

The tokens of a source stand behind each other at their places, with nothing but fillers between
them. A tile is a stretch of text with what it is; tiles are laid from the front, each one behind
the text that the others before it cover.
-/

namespace KCompiler

/-- The position behind a text. Lines are counted by line breaks, columns by the characters since
the last of them. -/
def Position.behind (text : List Char) : Position :=
  ⟨1 + text.count '\n', 1 + (text.reverse.takeWhile (· ≠ '\n')).length⟩

theorem Position.behind_concat (text : List Char) (c : Char) :
    behind (text ++ [c]) = (behind text).after c := by
  by_cases hc : c = '\n'
  · simp [behind, after, hc]
    omega
  · simp [behind, after, hc]
    omega

theorem Location.afterAll_start (text : List Char) :
    start.afterAll text = ⟨String.utf8Len text, .behind text⟩ := by
  induction text using List.reverseRecOn with
  | nil => rfl
  | append_singleton text c ih =>
      rw [afterAll_append, ih, Position.behind_concat]
      simp [after]

/-- A token stands behind the text `front` and covers the characters of its lexeme. -/
structure Token.Covers (front lexeme : List Char) (token : Token) : Prop where
  lo_eq : token.bytes.lo = String.utf8Len front
  hi_eq : token.bytes.hi = String.utf8Len (front ++ lexeme)
  start_eq : token.span.start = .behind front
  finish_eq : token.span.finish = .behind (front ++ lexeme)

/-- The characters by which the source spells a token. Those of a quoted literal are not its
text, and only they may go over several lines. -/
inductive Token.HasLexeme (token : Token) : List Char → Prop
  | newline (hkind : token.kind = .newline) (htext : token.text = "\n") : HasLexeme token ['\n']
  | spelt {lexeme : List Char} (hkind : token.kind.isSpelt) (hline : '\n' ∉ lexeme)
      (htext : token.text = String.ofList lexeme) : HasLexeme token lexeme
  | quoted {lexeme : List Char} (hkind : token.kind = .string ∨ token.kind = .char) :
      HasLexeme token lexeme

/-- A stretch of source that is a token or a filler. -/
inductive Tile where
  | token (lexeme : List Char) (content : Token)
  | filler (lexeme : List Char) (kind : Filler)

namespace Tile

def text : Tile → List Char
  | .token lexeme _ => lexeme
  | .filler lexeme _ => lexeme

def token? : Tile → Option Token
  | .token _ content => some content
  | .filler _ _ => none

/-- The text that some tiles cover. -/
def cover (tiles : List Tile) : List Char :=
  tiles.flatMap text

@[simp] theorem cover_nil : cover [] = [] := rfl

@[simp] theorem cover_cons (tile : Tile) (tiles : List Tile) :
    cover (tile :: tiles) = tile.text ++ cover tiles := rfl

/-- A tile is what it claims to be between the texts before and behind it. -/
def Fits (front after : List Char) : Tile → Prop
  | .token lexeme content => lexeme ≠ [] ∧ content.Covers front lexeme ∧ content.HasLexeme lexeme
  | .filler lexeme kind => kind.Spells lexeme after

/-- Tiles that fit behind a text and each other. -/
def AllFit (front : List Char) : List Tile → Prop
  | [] => True
  | tile :: tiles => tile.Fits front (cover tiles) ∧ AllFit (front ++ tile.text) tiles

/-- What there is to say about an open comment behind a text: its first two columns are marked. -/
def openCommentAt (front : List Char) : Finding :=
  let start := Position.behind front
  ⟨.openComment, ⟨start, ⟨start.line, start.column + 2⟩⟩⟩

/-- The finding of a tile behind a text, if it is an open comment. -/
def opening (front : List Char) : Tile → List Finding
  | .filler _ .openComment => [openCommentAt front]
  | _ => []

/-- The findings of the open comments among tiles that stand behind a text. -/
def openings (front : List Char) : List Tile → List Finding
  | [] => []
  | tile :: tiles => tile.opening front ++ openings (front ++ tile.text) tiles

end Tile

open Tile

/-- The token of a kind that covers a lexeme behind a text. -/
def Token.covering (kind : Kind) (text front lexeme : List Char) : Token :=
  ⟨kind, String.ofList text, .ofBounds (String.utf8Len front) (String.utf8Len (front ++ lexeme)),
    ⟨.behind front, .behind (front ++ lexeme)⟩⟩

theorem Token.covers_covering {kind : Kind} {text front lexeme : List Char}
    (hsize : String.utf8Len (front ++ lexeme) ≤ ByteRange.maxLength) :
    (covering kind text front lexeme).Covers front lexeme := by
  refine ⟨rfl, ?_, rfl, rfl⟩
  simp only [covering, ByteRange.hi, ByteRange.ofBounds, String.utf8Len_append] at hsize ⊢
  omega

section Pieces

variable {first : Char} {rest front : List Char}

/-- The token of a piece that stands behind a text. -/
theorem Piece.token?_eq (piece : Piece) (front : List Char) :
    piece.token? (Location.start.afterAll front) (Location.start.afterAll (front ++ piece.lexeme)) =
      piece.token.map fun (kind, text) => .covering kind text front piece.lexeme := by
  simp only [Piece.token?, Location.afterAll_start]
  rfl

theorem Piece.finding?_eq_none {piece : Piece} {start finish : Location}
    (hissue : piece.issue ≠ some .openComment) :
    (piece.finding? start finish).toList.filter (·.issue = .openComment) = [] := by
  obtain ⟨lexeme, token, _ | issue⟩ := piece
  · rfl
  · simpa [Piece.finding?] using hissue

theorem Piece.finding?_openComment {piece : Piece} {finish : Location}
    (hissue : piece.issue = some .openComment) :
    piece.finding? (Location.start.afterAll front) finish = some (openCommentAt front) := by
  simp [Piece.finding?, hissue, openCommentAt, Location.afterAll_start]

/-- A piece behind a text is a tile. -/
theorem exists_tile {scan : Scan} (hmakes : scan.Makes first rest)
    (hsize : String.utf8Len (front ++ first :: rest.take scan.width) ≤ ByteRange.maxLength) :
    let piece : Piece := ⟨first :: rest.take scan.width, scan.token, scan.issue⟩
    let start := Location.start.afterAll front
    let finish := Location.start.afterAll (front ++ piece.lexeme)
    ∃ tile : Tile, tile.text = piece.lexeme ∧ tile.Fits front (rest.drop scan.width) ∧
      tile.token? = piece.token? start finish ∧
      tile.opening front =
        (piece.finding? start finish).toList.filter (·.issue = .openComment) := by
  intro piece start finish
  have htoken := (piece.token?_eq front).symm
  cases hmakes with
  | newline hfirst =>
      subst hfirst
      refine ⟨.token ['\n'] _, rfl, ⟨by simp, Token.covers_covering hsize, .newline rfl rfl⟩,
        htoken, ?_⟩
      exact (Piece.finding?_eq_none (by simp [piece, Scan.spelled])).symm
  | spelt hkind hline hissue =>
      refine ⟨.token piece.lexeme _, rfl,
        ⟨by simp [piece], Token.covers_covering hsize, .spelt hkind hline rfl⟩, htoken, ?_⟩
      exact (Piece.finding?_eq_none hissue).symm
  | literal hkind hissue =>
      refine ⟨.token piece.lexeme _, rfl,
        ⟨by simp [piece], Token.covers_covering hsize, .quoted hkind⟩, htoken, ?_⟩
      exact (Piece.finding?_eq_none hissue).symm
  | @filler kind width hspells =>
      refine ⟨.filler piece.lexeme kind, rfl, hspells, htoken, ?_⟩
      by_cases hopen : kind = .openComment
      · subst hopen
        rw [Piece.finding?_openComment rfl]
        simp [opening, openCommentAt]
      · rw [Piece.finding?_eq_none (by simp [piece, hopen])]
        cases kind with
        | openComment => exact absurd rfl hopen
        | _ => rfl

end Pieces

theorem tokens_locate_cons (front : List Char) (piece : Piece) (more : List Piece) :
    (locate (Location.start.afterAll front) (piece :: more)).tokens =
      (piece.token? (Location.start.afterAll front)
        (Location.start.afterAll (front ++ piece.lexeme))).toList ++
      (locate (Location.start.afterAll (front ++ piece.lexeme)) more).tokens := by
  rw [locate, Location.afterAll_append]

theorem findings_locate_cons (front : List Char) (piece : Piece) (more : List Piece) :
    (locate (Location.start.afterAll front) (piece :: more)).findings =
      (piece.finding? (Location.start.afterAll front)
        (Location.start.afterAll (front ++ piece.lexeme))).toList ++
      (locate (Location.start.afterAll (front ++ piece.lexeme)) more).findings := by
  rw [locate, Location.afterAll_append]

/-- The tokens of some tiles, in order. -/
def Tile.tokens (tiles : List Tile) : List Token :=
  tiles.filterMap token?

theorem Tile.tokens_cons (tile : Tile) (tiles : List Tile) :
    tokens (tile :: tiles) = tile.token?.toList ++ tokens tiles := by
  cases tile <;> rfl

/-- A text that stands behind another is covered by tiles, and its tokens are theirs. -/
theorem exists_tiles (front text : List Char)
    (hsize : String.utf8Len (front ++ text) ≤ ByteRange.maxLength) :
    let lexed := locate (Location.start.afterAll front) (pieces text)
    ∃ tiles, cover tiles = text ∧ AllFit front tiles ∧
      lexed.tokens = tokens tiles ++
        [.endOfInput (String.utf8Len (front ++ text)) (.behind (front ++ text))] ∧
      lexed.findings.filter (·.issue = .openComment) = openings front tiles := by
  fun_induction pieces text generalizing front with
  | case1 => exact ⟨[], rfl, trivial, by simp [locate, tokens, Location.afterAll_start], rfl⟩
  | case2 first rest scan ih =>
      have hsplit : front ++ first :: rest =
          (front ++ first :: rest.take scan.width) ++ rest.drop scan.width := by simp
      have hfirst : String.utf8Len (front ++ first :: rest.take scan.width) ≤
          ByteRange.maxLength := by
        rw [hsplit, String.utf8Len_append] at hsize
        omega
      obtain ⟨tile, htext, hfits, htoken, hopening⟩ :=
        exists_tile (Scan.piece_makes first rest) hfirst
      obtain ⟨tiles, hcover, hall, htokens, hopenings⟩ := ih _ (hsplit ▸ hsize)
      rw [← hsplit] at htokens
      refine ⟨tile :: tiles, ?_, ⟨?_, ?_⟩, ?_, ?_⟩
      · rw [cover_cons, htext, hcover]
        simp [scan]
      · rwa [hcover]
      · rwa [htext]
      · rw [tokens_locate_cons, htokens, tokens_cons, htoken, List.append_assoc]
      · rw [findings_locate_cons, List.filter_append, hopenings, openings, hopening, htext]

end KCompiler
