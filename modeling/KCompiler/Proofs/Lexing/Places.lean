import KCompiler.Proofs.Lexing.Tiling

/-! # Tokens know where they stand

Every token of a source carries the bytes, the lines and the columns of the characters that it
covers. Tokens follow each other without overlap, and one that ends the input stands behind them.
-/

namespace KCompiler

open Tile

namespace Tile.AllFit

variable {front : List Char} {tiles : List Tile}

/-- A tile fits between the tiles before and behind it. -/
theorem fits (hall : AllFit front tiles) {before after : List Tile} {tile : Tile}
    (htiles : tiles = before ++ tile :: after) :
    tile.Fits (front ++ cover before) (cover after) := by
  induction before generalizing front tiles with
  | nil =>
      subst htiles
      simpa using hall.1
  | cons first before ih =>
      subst htiles
      simpa using ih hall.2 rfl

theorem exists_of_mem (hall : AllFit front tiles) {token : Token} (hmem : token ∈ tokens tiles) :
    ∃ before lexeme after, cover tiles = before ++ (lexeme ++ after) ∧ lexeme ≠ [] ∧
      token.Covers (front ++ before) lexeme ∧ token.HasLexeme lexeme := by
  obtain ⟨tile, htile, htoken⟩ := List.mem_filterMap.mp hmem
  obtain ⟨before, after, rfl⟩ := List.append_of_mem htile
  cases tile with
  | filler lexeme kind => cases htoken
  | token lexeme content =>
      cases htoken
      have hfits := hall.fits rfl
      exact ⟨cover before, lexeme, cover after, by simp [cover, text], hfits⟩

/-- The tokens of tiles stand behind each other, none of them before the tiles. -/
theorem ordered (hall : AllFit front tiles) :
    (tokens tiles).Pairwise (fun first second => first.bytes.hi ≤ second.bytes.lo) ∧
      ∀ token ∈ tokens tiles, String.utf8Len front ≤ token.bytes.lo := by
  induction tiles generalizing front with
  | nil => exact ⟨.nil, by simp [tokens]⟩
  | cons tile tiles ih =>
      obtain ⟨hpairwise, hbehind⟩ := ih hall.2
      have hlater (token : Token) (hmem : token ∈ tokens tiles) :
          String.utf8Len front ≤ token.bytes.lo := by
        have := hbehind token hmem
        rw [String.utf8Len_append] at this
        omega
      cases tile with
      | filler lexeme kind => exact ⟨hpairwise, hlater⟩
      | token lexeme content =>
          obtain ⟨⟨-, hcovers, -⟩, -⟩ := hall
          refine ⟨List.pairwise_cons.mpr ⟨?_, hpairwise⟩, List.forall_mem_cons.mpr ⟨?_, hlater⟩⟩
          · intro token hmem
            rw [hcovers.hi_eq]
            exact hbehind token hmem
          · rw [hcovers.lo_eq]

end Tile.AllFit

theorem isPrefix_visibleText (source : String) : visibleText source <+: source.toList :=
  List.takeWhile_prefix _

theorem utf8Len_visibleText_le (source : String) :
    String.utf8Len (visibleText source) ≤ source.utf8ByteSize := by
  rw [← String.utf8Len_toList]
  exact String.utf8Len_le_of_prefix (isPrefix_visibleText source)

/-- The bytes of a stretch of what the lexer sees are those of the source. -/
theorem extract_visibleText {source : String} {front lexeme back : List Char}
    (hsplit : visibleText source = front ++ (lexeme ++ back)) :
    String.Pos.Raw.extract source ⟨String.utf8Len front⟩ ⟨String.utf8Len (front ++ lexeme)⟩ =
      String.ofList lexeme := by
  obtain ⟨hidden, hsource⟩ := isPrefix_visibleText source
  have hchars : source = String.ofList (front ++ lexeme ++ (back ++ hidden)) := by
    rw [← String.ofList_toList (s := source), ← hsource, hsplit]
    simp
  rw [hchars, String.utf8Len_append]
  exact String.extract_of_valid front lexeme (back ++ hidden)

namespace Token.HasLexeme

variable {token : Token} {lexeme : List Char}

theorem kind_ne_eof (hspelt : token.HasLexeme lexeme) : token.kind ≠ .eof := by
  intro hkind
  cases hspelt with
  | newline h => simp [hkind] at h
  | spelt h => simp [hkind, Kind.isSpelt] at h
  | quoted h => simp [hkind] at h

theorem text_eq (hspelt : token.HasLexeme lexeme) (hstring : token.kind ≠ .string)
    (hchar : token.kind ≠ .char) : token.text = String.ofList lexeme := by
  cases hspelt with
  | newline _ htext => exact htext
  | spelt _ _ htext => exact htext
  | quoted hkind => exact (hkind.elim hstring hchar).elim

end Token.HasLexeme

/-- The tiles of a source. -/
theorem exists_tiles_of_lex {source : String} (hsize : source.utf8ByteSize < UInt32.size - 1) :
    let text := visibleText source
    ∃ tiles, cover tiles = text ∧ AllFit [] tiles ∧
      (lex source).tokens =
        tokens tiles ++ [.endOfInput (String.utf8Len text) (Position.behind text)] ∧
      (lex source).findings.filter (·.issue = .openComment) = openings [] tiles := by
  intro text
  have hfits : String.utf8Len ([] ++ text) ≤ ByteRange.maxLength := by
    have hle := utf8Len_visibleText_le source
    simp only [List.nil_append, text, ByteRange.maxLength]
    omega
  exact exists_tiles [] text hfits

/-- A token is where it says it is in a source. The characters that it covers are a stretch of
what the lexer sees, and unless it is a quoted literal they are its text. -/
structure Token.StandsIn (source : String) (token : Token) : Prop where
  nonempty : token.bytes.lo < token.bytes.hi
  covers : ∃ front lexeme back,
    visibleText source = front ++ (lexeme ++ back) ∧ token.Covers front lexeme
  text_eq : token.kind ≠ .string → token.kind ≠ .char →
    token.text = String.Pos.Raw.extract source ⟨token.bytes.lo⟩ ⟨token.bytes.hi⟩

theorem Token.standsIn {source : String} {token : Token} {front lexeme back : List Char}
    (hsplit : visibleText source = front ++ (lexeme ++ back)) (hlexeme : lexeme ≠ [])
    (hcovers : token.Covers front lexeme) (hspelt : token.HasLexeme lexeme) :
    token.StandsIn source := by
  refine ⟨?_, ⟨front, lexeme, back, hsplit, hcovers⟩, ?_⟩
  · have hpos : String.utf8Len lexeme ≠ 0 := by simpa using hlexeme
    rw [hcovers.lo_eq, hcovers.hi_eq, String.utf8Len_append]
    omega
  · intro hstring hchar
    rw [hspelt.text_eq hstring hchar, hcovers.lo_eq, hcovers.hi_eq]
    exact (extract_visibleText hsplit).symm

/-- Every token stands in the source where it says, in order, and the one that ends the input
stands behind all that the lexer sees. -/
theorem lex_tokens_covered {source : String} (hsize : source.utf8ByteSize < UInt32.size - 1) :
    ∃ body eof, (lex source).tokens = body ++ [eof] ∧
      (eof.kind = .eof ∧ eof.text = "" ∧ eof.Covers (visibleText source) []) ∧
      (∀ token ∈ body, token.kind ≠ .eof ∧ token.StandsIn source) ∧
      (lex source).tokens.Pairwise fun first second => first.bytes.hi ≤ second.bytes.lo := by
  obtain ⟨tiles, hcover, hall, htokens, -⟩ := exists_tiles_of_lex hsize
  refine ⟨tokens tiles, _, htokens, ⟨rfl, rfl, rfl, ?_, rfl, ?_⟩, ?_, ?_⟩
  · simp [Token.endOfInput, ByteRange.hi]
  · simp [Token.endOfInput, Span.point]
  · intro token hmem
    obtain ⟨front, lexeme, back, hsplit, hlexeme, hcovers, hspelt⟩ := hall.exists_of_mem hmem
    rw [hcover] at hsplit
    exact ⟨hspelt.kind_ne_eof, Token.standsIn hsplit hlexeme hcovers hspelt⟩
  · rw [htokens, List.pairwise_append]
    refine ⟨hall.ordered.1, List.pairwise_singleton _ _, ?_⟩
    rintro token hmem eof heof
    rw [List.mem_singleton.mp heof]
    obtain ⟨front, lexeme, back, hsplit, -, hcovers, -⟩ := hall.exists_of_mem hmem
    rw [hcovers.hi_eq, Token.endOfInput, ← hcover, hsplit]
    simp only [List.nil_append, String.utf8Len_append]
    omega

/-- A string over two lines with a character of two bytes, a comment, and a text behind the end. -/
theorem lex_tokens_covered_two_lines :
    let source := "x = \"\u00e9\n\" // c\n\u00e9++\x00y"
    source.utf8ByteSize < UInt32.size - 1 ∧
    ∃ body eof, (lex source).tokens = body ++ [eof] ∧
      (eof.kind = .eof ∧ eof.text = "" ∧ eof.Covers (visibleText source) []) ∧
      (∀ token ∈ body, token.kind ≠ .eof ∧ token.StandsIn source) ∧
      (lex source).tokens.Pairwise fun first second => first.bytes.hi ≤ second.bytes.lo :=
  ⟨by decide +kernel, lex_tokens_covered (by decide +kernel)⟩

end KCompiler
