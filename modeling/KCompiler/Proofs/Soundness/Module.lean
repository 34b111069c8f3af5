import KCompiler.Proofs.EndOfInput
import KCompiler.Proofs.Soundness.Statement
import KCompiler.Token.Lexer

/-! # Accepted files follow the grammar

If parsing a file reports no error, then the tokens of the file follow the grammar and the
module is the tree of its derivation: nothing was skipped, repaired or left out.
-/

namespace KCompiler

open Grammar Outcome

variable {eof : Token}

/-- At the top of a file only the end of the input ends the statements. -/
theorem rest_statements_eq_nil {scope : Scope} (input : List Token)
    (hinput : ∀ token ∈ input, token.kind ≠ .eof) :
    (statements eof scope false input).rest = [] := by
  have hstops := (statements_loop eof scope false).stopsStatements input
  have hsuffix := (statements eof scope false input).suffix
  generalize (statements eof scope false input).rest = rest at hstops hsuffix ⊢
  cases rest with
  | nil => rfl
  | cons token rest =>
      rcases hstops token rfl with heof | ⟨-, hbraces⟩
      · exact absurd heof (hinput token (hsuffix.mem List.mem_cons_self))
      · cases hbraces

theorem moduleHeader_cases {input : List Token}
    (hharmless : ∀ finding ∈ (moduleHeader eof input).findings, finding.Harmless) :
    ∃ keyword name rest, input = keyword :: name :: rest ∧ keyword.kind = .keyword .mod ∧
      name.kind = .identifier ∧ (moduleHeader eof input).value = some name.text ∧
      (moduleHeader eof input).rest = (endStatement rest).rest ∧
      ∀ finding ∈ (endStatement rest).findings, finding.Harmless := by
  cases input with
  | nil => simp [moduleHeader, Finding.Harmless, Finding.isError, Issue.level] at hharmless
  | cons keyword tokens =>
      by_cases hkeyword : keyword.kind = .keyword .mod
      · cases tokens with
        | nil =>
            simp [moduleHeader, moduleName, hkeyword, Finding.Harmless, Finding.isError,
              Issue.level] at hharmless
        | cons name rest =>
            by_cases hname : name.kind = .identifier
            · simp only [moduleHeader, hkeyword, if_true, moduleName, hname, findings_behind,
                findings_map] at hharmless
              refine ⟨keyword, name, rest, rfl, hkeyword, hname, ?_, ?_, hharmless⟩
              · simp [moduleHeader, hkeyword, moduleName, hname, value_endStatement]
              · simp [moduleHeader, hkeyword, moduleName, hname]
            · simp [moduleHeader, moduleName, hkeyword, hname, Finding.Harmless, Finding.isError,
                Issue.level] at hharmless
      · simp [moduleHeader, hkeyword, Finding.Harmless, Finding.isError, Issue.level] at hharmless

/-- A file that is parsed without an error follows the grammar, and the module is the tree of
its derivation. -/
theorem isModule_of_no_errors {body : List Token} {eof : Token}
    (hbody : ∀ token ∈ body, token.kind ≠ .eof) (heof : eof.kind = .eof)
    (hharmless : ∀ finding ∈ (parseModule (body ++ [eof])).findings, finding.isError = false) :
    IsModule body (parseModule (body ++ [eof])).value := by
  obtain ⟨breaks, hbreaks, hinput⟩ := exists_newlines body
  rw [parseModule_eq (splitInput_append hbody heof)] at hharmless ⊢
  have hheader : ∀ finding ∈ (moduleHeader eof (skipNewlines body)).findings,
      finding.Harmless := by
    intro finding hmem
    apply hharmless
    split
    · exact hmem
    · exact List.mem_append_left _ hmem
  obtain ⟨keyword, name, rest, hskip, hkeyword, hname, hvalue, hleft, hended⟩ :=
    moduleHeader_cases hheader
  simp only [hvalue] at hharmless ⊢
  generalize (moduleHeader eof (skipNewlines body)).rest = left at hharmless hleft ⊢
  rw [hskip] at hinput
  subst hinput hleft
  have hstmts (finding : Finding)
      (hmem : finding ∈ (statements eof .topLevel false (endStatement rest).rest).findings) :
      finding.Harmless :=
    hharmless finding (List.mem_append_right _ hmem)
  have hnil : (statements eof .topLevel false (endStatement rest).rest).rest = [] := by
    apply rest_statements_eq_nil
    intro token htoken
    apply hbody token
    simp [(endStatement rest).suffix.mem htoken]
  obtain ⟨stmts, hvalue⟩ := Option.isSome_iff_exists.mp
    (statements_isSome .topLevel false (endStatement rest).rest)
  have hgives : (statements eof .topLevel false (endStatement rest).rest).Gives
      stmts [] := ⟨hvalue, hnil, hstmts⟩
  rw [hvalue]
  -- A header without a token that ends it is all of the file.
  rcases endStatement_cases hended with ⟨last, hlast, hrest⟩ | ⟨hrest, hatEnd⟩
  · obtain ⟨taken, htaken, hitems⟩ := statements_reads .topLevel false _ stmts [] hgives
    rw [htaken, List.append_nil] at hrest
    subst hrest
    exact .body hbreaks hkeyword hname hlast hitems
  · rw [← hrest] at hatEnd
    obtain ⟨taken, htaken, rfl, rfl⟩ := statements_atEnd hatEnd stmts [] hgives
    obtain rfl : rest = [] := hrest.symm.trans htaken
    exact .header hbreaks hkeyword hname

/-- A record with a field, and a method that assigns a cast. -/
theorem isModule_of_no_errors_record :
    let source :=
      "mod m\npub record P \x7b x: T[_Int,]\n fx f(a: T) \x7b b = (1 + c) as T \x7d \x7d"
    IsModule (lex source).tokens.dropLast
      (parseModule ((lex source).tokens.dropLast ++ [.endOfInput 0 .start])).value :=
  isModule_of_no_errors (by decide +kernel) rfl (by decide +kernel)

end KCompiler
