import KCompiler.Proofs.Braces.Parsers
import KCompiler.Proofs.EndOfInput
import KCompiler.Token.Lexer

/-! # Stray braces

In a file whose braces pair up, each opening brace that is taken for an expression leaves a
closing brace without a partner, and there are no other stray braces.
-/

namespace KCompiler

open Outcome

/-- Braces that pair up: nothing is closed before it is opened, and all that is opened is closed. -/
def BracesPair (tokens : List Token) : Prop :=
  (∀ count ≤ tokens.length, closings (tokens.take count) ≤ openings (tokens.take count)) ∧
    openings tokens = closings tokens

instance (tokens : List Token) : Decidable (BracesPair tokens) :=
  inferInstanceAs (Decidable (_ ∧ _))

section Files

variable {eof : Token} {input : List Token}

/-- Every opening brace in the input closes again. -/
def AllClose (input : List Token) : Prop :=
  ∀ rest, rest <:+ input → braceDepth rest ≤ 0

theorem AllClose.of_suffix {inner : List Token} (hclose : AllClose input)
    (hsuffix : inner <:+ input) : AllClose inner :=
  fun rest hrest => hclose rest (hrest.trans hsuffix)

theorem BracesPair.allClose (hpair : BracesPair input) : AllClose input := by
  rintro rest ⟨front, rfl⟩
  have hfront := hpair.1 front.length (by simp)
  rw [List.take_left] at hfront
  have hdepth : braceDepth (front ++ rest) = 0 := by
    rw [braceDepth, hpair.2, Int.sub_self]
  rw [braceDepth_append] at hdepth
  have hopen : 0 ≤ braceDepth front := by
    rw [braceDepth]
    omega
  omega

/-- At the end of the input no brace is left open. -/
theorem Consumes.eq_of_allClose {total : Int} {rest : List Token}
    (hconsumes : Consumes total input rest) (hfree : EofFree input) (hclose : AllClose input)
    (htotal : 0 ≤ total) : braceDepth input - braceDepth rest = total := by
  obtain ⟨hatLeast, hexact⟩ := hconsumes hfree
  by_cases hrest : rest = []
  · -- Nothing of the input stays open, so that the lower bound is met.
    subst hrest
    have hle := hclose input List.suffix_rfl
    rw [braceDepth_nil] at hatLeast ⊢
    omega
  · exact hexact hrest

/-- Outside of blocks a closing brace is stray. It closes nothing in the input, or it belongs to an
opening brace that was taken for an expression. -/
theorem strays_statements (heof : eof.kind = .eof) (scope : Scope) (input : List Token)
    (hfree : EofFree input) (hclose : AllClose input) :
    (strays (statements eof scope false input).findings : Int) =
      leaks (statements eof scope false input).findings - braceDepth input := by
  have hloop := statements_loop eof scope false
  induction input using statementInduction false (statement eof scope) with
  | nil =>
      rw [hloop.nil]
      rfl
  | stop token rest hstop =>
      rcases hstop with hkind | ⟨-, hbraces⟩
      · exact absurd hkind (hfree token List.mem_cons_self)
      · cases hbraces
  | blank token rest hends ih =>
      have hrest : rest <:+ token :: rest := List.suffix_cons token rest
      have hmore := ih (hfree.of_suffix hrest) (hclose.of_suffix hrest)
      have hweight : token.kind.braceWeight = 0 := by
        rcases hends with hkind | hkind <;> rw [hkind] <;> rfl
      rw [hloop.blank hends, findings_behind, braceDepth_cons]
      omega
  | stray token rest hbrace hopen ih =>
      have hrest : rest <:+ token :: rest := List.suffix_cons token rest
      have hmore := ih (hfree.of_suffix hrest) (hclose.of_suffix hrest)
      -- A stray brace, and one more that closes nothing in the input.
      have hweight : token.kind.braceWeight = -1 := by rw [hbrace]; rfl
      have hstray : strays [⟨.strayBrace, token.span⟩] = 1 := rfl
      have hleak : leaks [⟨.strayBrace, token.span⟩] = 0 := rfl
      rw [hloop.stray hbrace hopen, findings_behind, findings_reporting, strays_append,
        leaks_append, braceDepth_cons]
      omega
  | item token rest hinner ih =>
      have hkeeps := finishStatement_keeps
        ((Invariant.keepsBraces heof).statement_holds scope (token :: rest))
      rw [hloop.item hinner]
      simp only [findings_within, findings_reporting, findings_map, strays_append, leaks_append]
      generalize finishStatement (statement eof scope (token :: rest)) = finished at *
      have hsuffix := finished.suffix
      have hmore := ih (hfree.of_suffix hsuffix) (hclose.of_suffix hsuffix)
      -- Each brace that the statement took for an expression closes behind it.
      have hdepth := hkeeps.consumes.eq_of_allClose hfree hclose (by omega)
      have hstray := hkeeps.strays_eq
      omega

theorem sparesBraces_endStatement (input : List Token) :
    ∀ finding ∈ (endStatement input).findings, finding.SparesBraces := by
  unfold endStatement
  split
  · simp
  · split
    · simp
    · split <;> simp [Finding.SparesBraces]

theorem sparesBraces_moduleName (eof : Token) (input : List Token) :
    ∀ finding ∈ (moduleName eof input).findings, finding.SparesBraces := by
  unfold moduleName
  split
  · simp [Finding.SparesBraces]
  next name rest =>
    split
    · exact sparesBraces_endStatement rest
    · simp [Finding.SparesBraces]

theorem sparesBraces_moduleHeader (eof : Token) (input : List Token) :
    ∀ finding ∈ (moduleHeader eof input).findings, finding.SparesBraces := by
  unfold moduleHeader
  split
  · simp [Finding.SparesBraces]
  next token rest =>
    split
    · exact sparesBraces_moduleName eof rest
    · simp [Finding.SparesBraces]

theorem moduleName_keeps (eof : Token) (input : List Token) : (moduleName eof input).Keeps 0 := by
  unfold moduleName
  split
  · exact keeps_failed.reporting (by simp [Finding.SparesBraces])
  next name rest =>
    split
    next hkind => exact keeps_behind ((endStatement_keeps rest).map _) (by rw [hkind]; rfl)
    next => exact keeps_failed.reporting (by simp [Finding.SparesBraces])

theorem moduleHeader_keeps (eof : Token) (input : List Token) :
    (moduleHeader eof input).Keeps 0 := by
  unfold moduleHeader
  split
  · exact keeps_failed.reporting (by simp [Finding.SparesBraces])
  next token rest =>
    split
    next hkind => exact keeps_behind (moduleName_keeps eof rest) (by rw [hkind]; rfl)
    next => exact keeps_failed.reporting (by simp [Finding.SparesBraces])

/-- If the braces of a file pair up, it has as many stray braces as opening braces that stand
where an expression is expected. -/
theorem strays_eq_leaks {body : List Token} {eof : Token}
    (hbody : ∀ token ∈ body, token.kind ≠ .eof) (heof : eof.kind = .eof)
    (hpair : BracesPair body) :
    strays (parseModule (body ++ [eof])).findings =
      leaks (parseModule (body ++ [eof])).findings := by
  have hspares := sparesBraces_moduleHeader eof (skipNewlines body)
  have hstrays := strays_of_spares hspares
  have hleaks := leaks_of_spares hspares
  have hheader : Consumes 0 body (moduleHeader eof (skipNewlines body)).rest := by
    have hkeeps := (moduleHeader_keeps eof (skipNewlines body)).within
      (skipNewlines_suffix body) (passesBy_skipNewlines body)
    exact hkeeps.consumes.of_eq (by simp [hleaks])
  rw [parseModule_eq (splitInput_append hbody heof)]
  generalize moduleHeader eof (skipNewlines body) = header at *
  split
  · exact hstrays.trans hleaks.symm
  next name _ =>
    have hsuffix := header.suffix.trans (skipNewlines_suffix body)
    have hbodyDepth : braceDepth body = 0 := by rw [braceDepth, hpair.2, Int.sub_self]
    have hdepth := hheader.eq_of_allClose hbody hpair.allClose (Int.le_refl 0)
    have hcount := strays_statements heof .topLevel header.rest
      (EofFree.of_suffix hbody hsuffix) (hpair.allClose.of_suffix hsuffix)
    simp only [strays_append, leaks_append]
    omega

/-- The statement `x y` is skipped with the block behind it. The brace that begins a statement is
taken on its own. -/
theorem strays_eq_leaks_skipped :
    let body := (lex "mod m\nx y \x7b\nz\n\x7d\n\x7b\n\x7d\n").tokens.dropLast
    let findings := (parseModule (body ++ [.endOfInput 0 .start])).findings
    BracesPair body ∧ strays findings = leaks findings ∧ leaks findings = 1 := by
  intro body findings
  have hpair : BracesPair body := by decide +kernel
  exact ⟨hpair, strays_eq_leaks (by decide +kernel) rfl hpair, by decide +kernel⟩

/-- Braces that pair up do not keep a file from having a stray one. -/
theorem exists_strays_of_bracesPair :
    let tokens := (lex "mod m\n\x7b\n\x7d\n").tokens
    BracesPair tokens.dropLast ∧ strays (parseModule tokens).findings = 1 := by
  decide +kernel

end Files

end KCompiler
