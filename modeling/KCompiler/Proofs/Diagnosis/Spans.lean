import KCompiler.Proofs.Diagnosis.Reporting
import KCompiler.Proofs.Lexing.Tiling

/-! # Findings point into the source

A span lies in a text if both of its ends are reached by reading the text from the front. Tokens
have such spans, and so has all that is made of them: the spans that a parser takes over, the spans
that are joined from two others, and the marks of the lexer.
-/

namespace KCompiler

/-! ## Spans in a text -/

namespace Position

theorem le_refl (p : Position) : p ≤ p :=
  .inr ⟨rfl, Nat.le_refl _⟩

theorem le_after (p : Position) (c : Char) : p ≤ p.after c := by
  unfold after
  split
  · exact .inl (Nat.lt_succ_self _)
  · exact .inr ⟨rfl, Nat.le_succ _⟩

theorem le_trans {p q r : Position} (hpq : p ≤ q) (hqr : q ≤ r) : p ≤ r := by
  rcases hpq with hpq | hpq <;> rcases hqr with hqr | hqr
  · exact .inl (Nat.lt_trans hpq hqr)
  · exact .inl (hqr.1 ▸ hpq)
  · exact .inl (hpq.1 ▸ hqr)
  · exact .inr ⟨hpq.1.trans hqr.1, hpq.2.trans hqr.2⟩

theorem le_of_not_le {p q : Position} (h : ¬p ≤ q) : q ≤ p := by
  change ¬(p.line < q.line ∨ p.line = q.line ∧ p.column ≤ q.column) at h
  change q.line < p.line ∨ q.line = p.line ∧ q.column ≤ p.column
  omega

theorem behind_le (front text : List Char) : behind front ≤ behind (front ++ text) := by
  induction text using List.reverseRecOn with
  | nil =>
      rw [List.append_nil]
      exact le_refl _
  | append_singleton text c ih =>
      rw [← List.append_assoc, behind_concat]
      exact le_trans ih (le_after _ _)

/-- A position that is reached by reading a text. -/
def In (text : List Char) (p : Position) : Prop :=
  ∃ front, front <+: text ∧ p = behind front

theorem behind_in {front text : List Char} (hwithin : front <+: text) : (behind front).In text :=
  ⟨front, hwithin, rfl⟩

variable {text : List Char} {p q : Position}

theorem In.min (hp : p.In text) (hq : q.In text) : (min p q).In text := by
  change (if p ≤ q then p else q).In text
  split <;> assumption

theorem In.max (hp : p.In text) (hq : q.In text) : (max p q).In text := by
  change (if p ≤ q then q else p).In text
  split <;> assumption

theorem min_le_left (p q : Position) : min p q ≤ p := by
  change (if p ≤ q then p else q) ≤ p
  split
  · exact le_refl p
  · exact le_of_not_le ‹_›

theorem le_max_left (p q : Position) : p ≤ max p q := by
  change p ≤ if p ≤ q then q else p
  split
  · assumption
  · exact le_refl p

end Position

/-- A span between two positions that are reached by reading a text, one not before the other. -/
structure Span.In (text : List Char) (span : Span) : Prop where
  start : span.start.In text
  finish : span.finish.In text
  ordered : span.start ≤ span.finish

namespace Span.In

variable {text : List Char} {span other : Span}

theorem point {p : Position} (hp : p.In text) : (Span.point p).In text :=
  ⟨hp, hp, p.le_refl⟩

theorem join (hspan : span.In text) (hother : other.In text) : (span.join other).In text where
  start := hspan.start.min hother.start
  finish := hspan.finish.max hother.finish
  ordered := Position.le_trans (Position.min_le_left _ _)
    (Position.le_trans hspan.ordered (Position.le_max_left _ _))

theorem of_append {front lexeme : List Char} (hwithin : front ++ lexeme <+: text) :
    (Span.mk (.behind front) (.behind (front ++ lexeme))).In text where
  start := Position.behind_in ((List.prefix_append front lexeme).trans hwithin)
  finish := Position.behind_in hwithin
  ordered := Position.behind_le front lexeme

end Span.In

/-! ## The lexer -/

theorem Position.behind_comment (front : List Char) :
    behind (front ++ ['/', '*']) = ⟨(behind front).line, (behind front).column + 2⟩ := by
  simp [behind]
  omega

theorem Piece.token_in {piece : Piece} {front text : List Char} {token : Token}
    (hwithin : front ++ piece.lexeme <+: text)
    (htoken : piece.token? (Location.start.afterAll front)
      (Location.start.afterAll (front ++ piece.lexeme)) = some token) :
    token.span.In text := by
  rw [piece.token?_eq] at htoken
  obtain ⟨⟨kind, content⟩, -, rfl⟩ := Option.map_eq_some_iff.mp htoken
  exact .of_append hwithin

/-- The mark of a piece: all of it, or the two characters that open a comment. -/
theorem Piece.finding_in {piece : Piece} {front text : List Char} {finding : Finding}
    (hwithin : front ++ piece.lexeme <+: text)
    (hopen : piece.issue = some .openComment → ['/', '*'] <+: piece.lexeme)
    (hfinding : piece.finding? (Location.start.afterAll front)
      (Location.start.afterAll (front ++ piece.lexeme)) = some finding) :
    finding.span.In text := by
  obtain ⟨issue, hissue, rfl⟩ := Option.map_eq_some_iff.mp hfinding
  simp only [Location.afterAll_start]
  split
  next hcomment =>
    subst hcomment
    rw [← Position.behind_comment]
    refine .of_append (List.IsPrefix.trans ?_ hwithin)
    exact (List.prefix_append_right_inj front).mpr (hopen hissue)
  next => exact .of_append hwithin

theorem openComment_begins {first : Char} {rest : List Char}
    (hissue : (Scan.piece first rest).issue = some .openComment) :
    ['/', '*'] <+: first :: rest.take (Scan.piece first rest).width := by
  have hmakes := Scan.piece_makes first rest
  generalize Scan.piece first rest = scan at hissue hmakes
  cases hmakes with
  | newline => cases hissue
  | spelt _ _ hother => exact absurd hissue hother
  | literal _ hother => exact absurd hissue hother
  | @filler filler width hspells =>
      have hfiller : filler = .openComment := by
        by_contra hother
        simp [hother] at hissue
      subst hfiller
      obtain ⟨inner, htext, -⟩ := hspells
      rw [htext]
      exact ⟨inner, rfl⟩

/-- Tokens and findings of the end of a text lie in the text. -/
theorem locate_in (front rest : List Char) :
    let lexed := locate (Location.start.afterAll front) (pieces rest)
    (∀ token ∈ lexed.tokens, token.span.In (front ++ rest)) ∧
      ∀ finding ∈ lexed.findings, finding.span.In (front ++ rest) := by
  fun_induction pieces rest generalizing front with
  | case1 =>
      refine ⟨List.forall_mem_singleton.mpr ?_, List.forall_mem_nil _⟩
      rw [Location.afterAll_start, List.append_nil]
      exact .point (Position.behind_in List.prefix_rfl)
  | case2 first rest scan ih =>
      let piece : Piece := ⟨first :: rest.take scan.width, scan.token, scan.issue⟩
      have htext : front ++ piece.lexeme ++ rest.drop scan.width = front ++ first :: rest := by
        simp [piece]
      have hwithin : front ++ piece.lexeme <+: front ++ first :: rest := ⟨_, htext⟩
      obtain ⟨htokens, hfindings⟩ := ih (front ++ piece.lexeme)
      rw [htext] at htokens hfindings
      intro lexed
      constructor
      · rw [show lexed.tokens = _ from tokens_locate_cons front piece _]
        refine List.forall_mem_append.mpr ⟨fun token hmem => ?_, htokens⟩
        exact piece.token_in hwithin (Option.mem_toList.mp hmem)
      · rw [show lexed.findings = _ from findings_locate_cons front piece _]
        refine List.forall_mem_append.mpr ⟨fun finding hmem => ?_, hfindings⟩
        exact piece.finding_in hwithin openComment_begins (Option.mem_toList.mp hmem)

theorem lex_in (source : String) :
    (∀ token ∈ (lex source).tokens, token.span.In (visibleText source)) ∧
      ∀ finding ∈ (lex source).findings, finding.span.In (visibleText source) :=
  locate_in [] (visibleText source)

/-! ## The phases behind it -/

/-- The token that ends an input of tokens in a text. -/
theorem endToken_in {text : List Char} {tokens : List Token}
    (htokens : ∀ token ∈ tokens, token.span.In text) : (endToken tokens).span.In text := by
  unfold endToken
  split
  next last hlast =>
    have hin := htokens last (List.mem_of_getLast? hlast)
    split
    · exact hin
    · exact .point hin.finish
  next => exact .point (Position.behind_in List.nil_prefix)

/-- All that is reported on a source lies in what the lexer sees of it. -/
theorem reported_in (options : Options) (source : String) :
    ∀ finding ∈ reported options source, finding.span.In (visibleText source) := by
  obtain ⟨htokens, hlexed⟩ := lex_in source
  have hjoin (start finish : Span) (hstart : start.In (visibleText source))
      (hfinish : finish.In (visibleText source)) : (start.join finish).In (visibleText source) :=
    hstart.join hfinish
  have hstyle : ∀ finding ∈ styleRemarks options (lex source).tokens,
      finding.span.In (visibleText source) := by
    unfold styleRemarks
    split
    · intro finding hmem
      exact (Style.check_findings _ hjoin (.point (Position.behind_in List.nil_prefix)) htokens
        finding hmem).2
    · exact List.forall_mem_nil _
  have hparsed : ∀ finding ∈ (parseModule (lex source).tokens).findings,
      finding.span.In (visibleText source) := by
    intro finding hmem
    exact (parseModule_findings _ hjoin htokens (endToken_in htokens) finding hmem).2
  unfold reported
  dsimp only
  split
  · exact hlexed
  · exact List.forall_mem_append.mpr ⟨List.forall_mem_append.mpr ⟨hlexed, hstyle⟩, hparsed⟩

end KCompiler
