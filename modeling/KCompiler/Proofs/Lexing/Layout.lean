import KCompiler.Proofs.Lexing.Places

/-! # Only layout is lost

What the tokens of a source leave uncovered is blanks, comments and stray characters, and an open
comment is reported exactly when the source ends in one. No line break gets lost outside of
literals and comments.
-/

namespace KCompiler

namespace Tile

theorem Fits.text_ne_nil {tile : Tile} {front after : List Char} (hfits : tile.Fits front after) :
    tile.text ≠ [] := by
  cases tile with
  | token lexeme content => exact hfits.1
  | filler lexeme kind =>
      cases kind with
      | blank => obtain ⟨c, -, rfl⟩ := hfits; exact List.cons_ne_nil _ _
      | stray => obtain ⟨c, rfl, -⟩ := hfits; exact List.cons_ne_nil _ _
      | lineComment => obtain ⟨body, rfl, -⟩ := hfits; exact List.cons_ne_nil _ _
      | blockComment => obtain ⟨inner, rfl, -⟩ := hfits; exact List.cons_ne_nil _ _
      | openComment => obtain ⟨inner, rfl, -⟩ := hfits; exact List.cons_ne_nil _ _

theorem AllFit.eq_nil_of_cover {front : List Char} {tiles : List Tile} (hall : AllFit front tiles)
    (hcover : cover tiles = []) : tiles = [] := by
  cases tiles with
  | nil => rfl
  | cons tile tiles => exact absurd (List.append_eq_nil_iff.mp hcover).1 hall.1.text_ne_nil

/-- An open comment is the last tile, and the only one that is reported. -/
theorem AllFit.openings_eq {front comment : List Char} {before after : List Tile}
    (hall : AllFit front (before ++ .filler comment .openComment :: after)) :
    after = [] ∧ openings front (before ++ .filler comment .openComment :: after) =
      [openCommentAt (front ++ cover before)] := by
  induction before generalizing front with
  | nil =>
      obtain ⟨⟨inner, -, -, hend⟩, hafter⟩ := hall
      obtain rfl := hafter.eq_nil_of_cover hend
      simp [openings, opening]
  | cons tile before ih =>
      obtain ⟨hfits, hmore⟩ := hall
      obtain ⟨hafter, hopenings⟩ := ih hmore
      refine ⟨hafter, ?_⟩
      have hother : tile.opening front = [] := by
        cases tile with
        | token lexeme content => rfl
        | filler lexeme kind =>
            cases kind with
            | openComment =>
                -- Tiles stand behind this one, so that it cannot be open.
                obtain ⟨inner, -, -, hend⟩ := hfits
                simpa using hmore.eq_nil_of_cover hend
            | _ => rfl
      rw [List.cons_append, openings, hother, List.nil_append, hopenings]
      simp

theorem openings_eq_nil {front : List Char} {tiles : List Tile}
    (hclosed : ∀ comment, .filler comment .openComment ∉ tiles) : openings front tiles = [] := by
  induction tiles generalizing front with
  | nil => rfl
  | cons tile tiles ih =>
      have hother : tile.opening front = [] := by
        unfold opening
        split
        · exact absurd List.mem_cons_self (hclosed _)
        · rfl
      rw [openings, hother, List.nil_append]
      exact ih fun comment hmem => hclosed comment (List.mem_cons_of_mem _ hmem)

/-- Every character that tiles cover is in one of them. -/
theorem exists_at {tiles : List Tile} {front back : List Char} {c : Char}
    (hcover : cover tiles = front ++ c :: back) :
    ∃ before tile after inner more, tiles = before ++ tile :: after ∧
      cover before ++ inner = front ∧ tile.text = inner ++ c :: more := by
  induction tiles generalizing front with
  | nil => simp at hcover
  | cons tile tiles ih =>
      rw [cover_cons] at hcover
      rcases List.append_eq_append_iff.mp hcover with ⟨inner, hfront, htail⟩ | ⟨inner, htext, htail⟩
      · obtain ⟨before, holder, after, inside, more, rfl, rfl, htext⟩ := ih htail
        exact ⟨tile :: before, holder, after, inside, more, rfl, by simp [hfront], htext⟩
      · cases inner with
        | nil =>
            obtain ⟨before, holder, after, inside, more, rfl, hinside, hholder⟩ :=
              @ih [] htail.symm
            refine ⟨tile :: before, holder, after, inside, more, rfl, ?_, hholder⟩
            simpa [hinside] using htext
        | cons d more =>
            obtain ⟨rfl, -⟩ := List.cons.inj htail
            exact ⟨[], tile, tiles, front, more, rfl, rfl, htext⟩

/-- A tile that may hold line breaks: a quoted literal or a block comment. -/
def isMultiline : Tile → Bool
  | .token _ content => content.kind = .string || content.kind = .char
  | .filler _ kind => kind = .blockComment || kind = .openComment

/-- A line break is a token of its own unless it is in a tile of several lines. -/
theorem Fits.newline_or_multiline {tile : Tile} {front after : List Char}
    (hfits : tile.Fits front after) (hbreak : '\n' ∈ tile.text) :
    (∃ newline, tile = .token ['\n'] newline ∧ newline.kind = .newline) ∨ tile.isMultiline := by
  cases tile with
  | token lexeme content =>
      obtain ⟨-, -, hlexeme⟩ := hfits
      cases hlexeme with
      | newline hkind => exact .inl ⟨content, rfl, hkind⟩
      | spelt hkind hline => exact absurd hbreak hline
      | quoted hkind => exact .inr (by simpa [isMultiline] using hkind)
  | filler lexeme kind =>
      cases kind with
      | blank =>
          obtain ⟨c, hc, rfl⟩ := hfits
          obtain rfl := List.mem_singleton.mp hbreak
          simp at hc
      | stray =>
          obtain ⟨c, rfl, hstray⟩ := hfits
          obtain rfl := List.mem_singleton.mp hbreak
          exact absurd (.inl rfl) hstray
      | lineComment =>
          obtain ⟨body, rfl, hline, -⟩ := hfits
          simp [text, hline] at hbreak
      | blockComment => exact .inr rfl
      | openComment => exact .inr rfl

end Tile

open Tile

theorem Issue.code_eq_openComment_iff (issue : Issue) :
    issue.code = "L001" ↔ issue = .openComment := by
  cases issue <;> simp [Issue.code]

theorem filter_code_openComment (findings : List Finding) :
    findings.filter (·.issue.code = "L001") = findings.filter (·.issue = .openComment) := by
  simp only [Issue.code_eq_openComment_iff]

/-- Tiles that lay out a source. Its tokens are theirs, so that only fillers stand between,
before and behind them; an open comment is the last tile and reported once, and every line break
is a token or in a tile of several lines. -/
structure Layout (source : String) (tiles : List Tile) : Prop where
  cover_eq : cover tiles = visibleText source
  fits : AllFit [] tiles
  tokens_eq : ∃ eof, eof.kind = .eof ∧ (lex source).tokens = tokens tiles ++ [eof]
  opened : ∀ before comment after, tiles = before ++ .filler comment .openComment :: after →
    after = [] ∧
      (lex source).findings.filter (·.issue.code = "L001") = [openCommentAt (cover before)]
  closed : (∀ comment, .filler comment .openComment ∉ tiles) →
    (lex source).findings.filter (·.issue.code = "L001") = []
  breaks : ∀ front back, visibleText source = front ++ '\n' :: back →
    ∃ before tile after inner more, tiles = before ++ tile :: after ∧
      cover before ++ inner = front ∧ tile.text = inner ++ '\n' :: more ∧
      ((∃ newline, tile = .token ['\n'] newline ∧ newline.kind = .newline) ∨ tile.isMultiline)

/-- The lexer loses nothing but layout. -/
theorem exists_layout {source : String} (hsize : source.utf8ByteSize < UInt32.size - 1) :
    ∃ tiles, Layout source tiles := by
  obtain ⟨tiles, hcover, hall, htokens, hopenings⟩ := exists_tiles_of_lex hsize
  rw [← filter_code_openComment] at hopenings
  refine ⟨tiles, hcover, hall, ⟨_, rfl, htokens⟩, ?_, ?_, ?_⟩
  · rintro before comment after rfl
    rw [hopenings]
    exact hall.openings_eq
  · intro hclosed
    rw [hopenings]
    exact openings_eq_nil hclosed
  · intro front back hbreak
    rw [← hcover] at hbreak
    obtain ⟨before, tile, after, inner, more, htiles, hfront, htext⟩ := exists_at hbreak
    refine ⟨before, tile, after, inner, more, htiles, hfront, htext, ?_⟩
    exact (hall.fits htiles).newline_or_multiline (by simp [htext])

/-- Comments whose openings and closings overlap, the last of them open, between stray
characters. -/
theorem exists_layout_overlapping :
    let source := "a /*/ \n*/ $//*\n/***/\r\n'\n' b/*/"
    source.utf8ByteSize < UInt32.size - 1 ∧ ∃ tiles, Layout source tiles :=
  ⟨by decide +kernel, exists_layout (by decide +kernel)⟩

end KCompiler
