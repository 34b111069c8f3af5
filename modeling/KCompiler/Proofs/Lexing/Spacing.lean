import KCompiler.Proofs.Lexing.Joining

/-! # Tokens with blanks between them

The tokens of a source in order can be written again with a single blank between each two of them.
What stood between them before does not matter: the blank ends every token, and where a token ends
does not depend on what came before it.
-/

namespace KCompiler

/-- What a token says, apart from where it stands. -/
def Token.content (token : Token) : Kind × String :=
  (token.kind, token.text)

/-- The characters by which a source spells a token. -/
def Token.lexeme (source : String) (token : Token) : String :=
  String.Pos.Raw.extract source ⟨token.bytes.lo⟩ ⟨token.bytes.hi⟩

/-- The lexemes of the tokens of a source, with a blank between each two of them. -/
def respaced (source : String) : String :=
  " ".intercalate ((lex source).tokens.dropLast.map (Token.lexeme source))

/-! ## Pieces -/

namespace Piece

def isToken (piece : Piece) : Bool :=
  piece.token.isSome

/-- The characters of some pieces, with a blank between each two of them. -/
def spaced (pieces : List Piece) : List Char :=
  [' '].intercalate (pieces.map lexeme)

theorem spaced_singleton (piece : Piece) : spaced [piece] = piece.lexeme := by
  simp [spaced, List.intercalate]

theorem spaced_cons_cons (first second : Piece) (more : List Piece) :
    spaced (first :: second :: more) = first.lexeme ++ ' ' :: spaced (second :: more) := by
  simp [spaced, List.intercalate]

theorem mem_spaced {pieces : List Piece} {c : Char} (hmem : c ∈ spaced pieces) :
    c = ' ' ∨ ∃ piece ∈ pieces, c ∈ piece.lexeme := by
  induction pieces with
  | nil => cases hmem
  | cons piece pieces ih =>
      cases pieces with
      | nil => exact .inr ⟨piece, by simp, by rwa [spaced_singleton] at hmem⟩
      | cons second more =>
          rw [spaced_cons_cons, List.mem_append, List.mem_cons] at hmem
          rcases hmem with hmem | hmem | hmem
          · exact .inr ⟨piece, by simp, hmem⟩
          · exact .inl hmem
          · rcases ih hmem with hblank | ⟨holder, hholder, hc⟩
            · exact .inl hblank
            · exact .inr ⟨holder, List.mem_cons_of_mem piece hholder, hc⟩

end Piece

open Piece

theorem pieces_blank (text : List Char) :
    pieces (' ' :: text) = ⟨[' '], none, none⟩ :: pieces text := by
  rw [pieces]
  rfl

/-- A token without a finding is ended by a blank as well as by what ended it. -/
theorem exists_blank_ends {text : List Char} {piece : Piece} {more : List Piece}
    (hpieces : pieces text = piece :: more) (htoken : piece.isToken) (hissue : piece.issue = none) :
    ∃ after, pieces after = more ∧
      ∀ rest, (after = [] → rest = []) → (∀ c ∈ rest.head?, c = ' ') →
        pieces (piece.lexeme ++ rest) = piece :: pieces rest := by
  cases text with
  | nil => simp [pieces] at hpieces
  | cons first text =>
      obtain ⟨body, after, rfl, hbody⟩ := Scan.exists_piece first text
      rw [hbody after (.of_head? rfl)] at hpieces
      obtain ⟨rfl, hmore⟩ := List.cons.inj hpieces
      refine ⟨after, hmore, fun rest hended hblank => ?_⟩
      exact hbody rest ⟨hended, .inr ⟨htoken, hissue, hblank⟩⟩

/-- Where there are no findings, the tokens of a text are found again if they are written with
blanks between them. -/
theorem pieces_spaced {text : List Char} {found : List Piece} (hfound : pieces text = found)
    (hclean : ∀ piece ∈ found, piece.issue = none) :
    let again := pieces (spaced (found.filter isToken))
    again.filter isToken = found.filter isToken ∧ ∀ piece ∈ again, piece.issue = none := by
  intro again
  induction found generalizing text with
  | nil => simp [again, spaced, pieces]
  | cons piece found ih =>
      rw [List.forall_mem_cons] at hclean
      have hmore := ih (@pieces_flatMap_of_suffix _ [piece] found hfound) hclean.2
      by_cases htoken : piece.isToken
      case neg =>
        simp only [again, List.filter_cons_of_neg htoken]
        exact hmore
      obtain ⟨after, hafter, hends⟩ := exists_blank_ends hfound htoken hclean.1
      simp only [again, List.filter_cons_of_pos htoken]
      cases htokens : found.filter isToken with
      | nil =>
          have hlast := hends [] (fun _ => rfl) (by simp)
          rw [List.append_nil, pieces] at hlast
          simp [spaced_singleton, hlast, htoken, hclean.1]
      | cons second others =>
          -- The token is not the last one, so there was something behind it.
          have hended : after = [] → ' ' :: spaced (second :: others) = [] := by
            rintro rfl
            rw [pieces] at hafter
            simp [← hafter] at htokens
          rw [htokens] at hmore
          rw [spaced_cons_cons, hends _ hended (by simp), pieces_blank,
            List.filter_cons_of_pos htoken, List.filter_cons_of_neg (by simp [isToken]), hmore.1]
          simpa [hclean.1] using hmore.2

/-! ## Tokens and findings of pieces -/

theorem content_tokens_locate (place : Location) (pieces : List Piece) :
    (locate place pieces).tokens.map Token.content =
      ((pieces.filter isToken).filterMap Piece.token).map (Prod.map id String.ofList) ++
        [(.eof, "")] := by
  induction pieces generalizing place with
  | nil => rfl
  | cons piece pieces ih =>
      cases htoken : piece.token with
      | none => simpa [locate, Piece.token?, isToken, htoken] using ih _
      | some content =>
          simpa [locate, Piece.token?, isToken, htoken, Token.content, Prod.map] using ih _

theorem findings_locate_eq_nil {place : Location} {pieces : List Piece} :
    (locate place pieces).findings = [] ↔ ∀ piece ∈ pieces, piece.issue = none := by
  induction pieces generalizing place with
  | nil => simp [locate]
  | cons piece pieces ih => simp [locate, ih, Piece.finding?]

section Lexemes

variable {source : String} (hsize : source.utf8ByteSize ≤ ByteRange.maxLength)
include hsize

theorem Token.lexeme_covering {kind : Kind} {text front lexeme back : List Char}
    (htext : visibleText source = front ++ (lexeme ++ back)) :
    (covering kind text front lexeme).lexeme source = String.ofList lexeme := by
  have hfits : String.utf8Len (front ++ lexeme) ≤ ByteRange.maxLength := by
    have hvisible := utf8Len_visibleText_le source
    rw [htext, ← List.append_assoc, String.utf8Len_append] at hvisible
    omega
  have hcovers : (covering kind text front lexeme).Covers front lexeme := covers_covering hfits
  rw [Token.lexeme, hcovers.lo_eq, hcovers.hi_eq, extract_visibleText htext]

/-- The lexemes of tokens are the characters of their pieces. -/
theorem lexeme_tokens_locate {front : List Char} {pieces : List Piece}
    (htext : visibleText source = front ++ pieces.flatMap Piece.lexeme) :
    (locate (Location.start.afterAll front) pieces).tokens.dropLast.map (Token.lexeme source) =
      (pieces.filter isToken).map (String.ofList ·.lexeme) := by
  induction pieces generalizing front with
  | nil => rfl
  | cons piece pieces ih =>
      rw [List.flatMap_cons] at htext
      have hmore := ih (by rw [htext, List.append_assoc])
      rw [tokens_locate_cons, List.dropLast_append_of_ne_nil (tokens_locate_ne_nil _ _),
        List.map_append, hmore, Piece.token?_eq]
      cases htoken : piece.token with
      | none => simp [isToken, htoken]
      | some content => simp [isToken, htoken, Token.lexeme_covering hsize htext]

theorem toList_respaced :
    (respaced source).toList = spaced ((pieces (visibleText source)).filter isToken) := by
  have hlexemes : (lex source).tokens.dropLast.map (Token.lexeme source) =
      ((pieces (visibleText source)).filter isToken).map (String.ofList ·.lexeme) :=
    @lexeme_tokens_locate _ hsize [] _ (pieces_flatMap_lexeme _).symm
  have hblank : " ".toList = [' '] := rfl
  rw [respaced, hlexemes, String.toList_intercalate, hblank]
  simp [spaced, Function.comp_def]

theorem visibleText_respaced :
    visibleText (respaced source) = spaced ((pieces (visibleText source)).filter isToken) := by
  rw [visibleText, toList_respaced hsize, List.takeWhile_eq_self_iff]
  intro c hc
  rcases mem_spaced hc with rfl | ⟨piece, hpiece, hmem⟩
  · decide
  · have hvisible : c ∈ visibleText source := by
      rw [← pieces_flatMap_lexeme (visibleText source)]
      exact List.mem_flatMap.mpr ⟨piece, List.mem_of_mem_filter hpiece, hmem⟩
    simpa using List.mem_takeWhile_imp hvisible

end Lexemes

/-- The tokens of a source without findings can be read from their lexemes with blanks between
them: nothing else is needed to tell them apart. -/
theorem lex_respaced {source : String} (hsize : source.utf8ByteSize < UInt32.size / 2)
    (hclean : (lex source).findings = []) :
    (lex (respaced source)).findings = [] ∧
      (lex (respaced source)).tokens.map Token.content = (lex source).tokens.map Token.content := by
  have hlength : source.utf8ByteSize ≤ ByteRange.maxLength := by
    simp only [ByteRange.maxLength, UInt32.size] at hsize ⊢
    omega
  have hagain := pieces_spaced rfl (findings_locate_eq_nil.mp hclean)
  rw [lex, visibleText_respaced hlength]
  refine ⟨findings_locate_eq_nil.mpr hagain.2, ?_⟩
  rw [content_tokens_locate, hagain.1, lex, content_tokens_locate]

/-- Comments become blanks, and blanks come in where tokens had nothing between them. -/
theorem lex_respaced_dense :
    let source := "+/**/+b//c\n\"\u00e9\\n\"<<<='/'1.2.3..x"
    source.utf8ByteSize < UInt32.size / 2 ∧ (lex source).findings = [] ∧
      respaced source = "+ + b \n \"\u00e9\\n\" << <= '/' 1.2 . 3. . x" ∧
      (lex (respaced source)).findings = [] ∧
      (lex (respaced source)).tokens.map Token.content =
        (lex source).tokens.map Token.content := by
  intro source
  have hsize : source.utf8ByteSize < UInt32.size / 2 := by decide +kernel
  have hclean : (lex source).findings = [] := by decide +kernel
  exact ⟨hsize, hclean, by decide +kernel, lex_respaced hsize hclean⟩

end KCompiler
