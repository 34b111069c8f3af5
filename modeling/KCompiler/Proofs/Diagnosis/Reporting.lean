import KCompiler.Compilation
import KCompiler.Proofs.Diagnosis.Collecting
import KCompiler.Proofs.Lexing.Tokens
import KCompiler.Proofs.Lockstep.Statement

/-! # What a compilation reports

All that is found in a source is reported in one list, phase by phase, and a compilation follows
from this list: which phase is the last and whether there is an output. Remarks on style come from
the style phase alone and are never errors.
-/

namespace KCompiler

/-! ## Remarks on style -/

/-- The codes of the remarks on style. -/
def styleCodes : List String := ["W001", "W002"]

/-- A diagnostic with the code of a remark on style. -/
def Diagnostic.isStyle (diagnostic : Diagnostic) : Bool :=
  diagnostic.code.any (· ∈ styleCodes)

theorem Finding.isStyle_diagnostic (finding : Finding) :
    finding.diagnostic.isStyle = finding.issue.isStyle := by
  obtain ⟨issue, span⟩ := finding
  cases issue <;>
    simp [Finding.diagnostic, Diagnostic.isStyle, Issue.code, Issue.isStyle, styleCodes]

theorem Finding.not_isError_of_isStyle {finding : Finding} (hstyle : finding.issue.isStyle) :
    finding.isError = false := by
  obtain ⟨issue, span⟩ := finding
  cases issue <;> first | rfl | cases hstyle

namespace Style

variable {Good : Span → Prop} {tokens : List Token}

theorem blankLines_findings (atStart : Bool) (htokens : ∀ token ∈ tokens, Good token.span) :
    ∀ finding ∈ blankLines atStart tokens, finding.issue.isStyle ∧ Good finding.span := by
  fun_induction blankLines atStart tokens with
  | case1 => exact List.forall_mem_nil _
  | case2 atStart token tokens _ blank found ih =>
      have hrun : ∀ line ∈ tokens.takeWhile isNewline, line ∈ token :: tokens := fun line hmem =>
        List.mem_cons_of_mem token ((List.takeWhile_prefix isNewline).mem hmem)
      have hblank : ∀ line ∈ blank, Good line.span := by
        intro line hmem
        refine htokens line ?_
        simp only [blank] at hmem
        split at hmem
        · exact (List.mem_cons.mp hmem).elim (fun heq => heq ▸ List.mem_cons_self) (hrun line)
        · exact hrun line hmem
      have hfound : ∀ finding ∈ found, finding.issue.isStyle ∧ Good finding.span := by
        intro finding hmem
        simp only [found] at hmem
        generalize blank = lines at hblank hmem
        cases lines with
        | nil => cases hmem
        | cons first lines =>
            dsimp only at hmem
            split at hmem
            · rw [List.mem_singleton.mp hmem]
              exact ⟨rfl, hblank first List.mem_cons_self⟩
            · cases hmem
      refine List.forall_mem_append.mpr ⟨hfound, ih fun line hmem => htokens line ?_⟩
      exact List.mem_cons_of_mem token ((List.dropWhile_suffix isNewline).mem hmem)
  | case3 atStart token tokens _ ih => exact ih (List.forall_mem_cons.mp htokens).2

/-- What holds of the spans of all tokens, and of the spans that are joined from them, holds of the
spans of all remarks on style. -/
theorem check_findings (Good : Span → Prop)
    (hjoin : ∀ start finish, Good start → Good finish → Good (start.join finish))
    (hstart : Good (.point .start)) (htokens : ∀ token ∈ tokens, Good token.span) :
    ∀ finding ∈ check tokens, finding.issue.isStyle ∧ Good finding.span := by
  refine List.forall_mem_append.mpr ⟨?_, blankLines_findings true htokens⟩
  have hindex (index : Nat) : Good (tokens[index]?.getD default).span := by
    cases htoken : tokens[index]? with
    | none => exact hstart
    | some token => exact htokens token (List.mem_of_getElem? htoken)
  intro finding hmem
  obtain ⟨⟨closed?, opened⟩, -, hfinding⟩ := List.mem_filterMap.mp hmem
  obtain ⟨closed, -, hfinding⟩ := Option.bind_eq_some_iff.mp hfinding
  obtain ⟨why, -, hfinding⟩ := Option.bind_eq_some_iff.mp hfinding
  cases hfinding
  exact ⟨rfl, hjoin _ _ (hindex opened) (hindex closed)⟩

end Style

/-! ## Findings of the lexer -/

namespace Scan

variable {first : Char} {rest : List Char} {issue : Issue}

theorem piece_issue (hissue : (piece first rest).issue = some issue) :
    issue.isStyle = false := by
  cases raises_of_piece hissue <;> rfl

end Scan

theorem locate_findings (place : Location) (text : List Char) :
    ∀ finding ∈ (locate place (pieces text)).findings, finding.issue.isStyle = false := by
  fun_induction pieces text generalizing place with
  | case1 => exact List.forall_mem_nil _
  | case2 first rest scan ih =>
      rw [locate]
      refine List.forall_mem_append.mpr ⟨?_, ih _⟩
      intro finding hmem
      obtain ⟨issue, hissue, rfl⟩ := Option.map_eq_some_iff.mp (Option.mem_toList.mp hmem)
      exact Scan.piece_issue hissue

theorem lex_findings (source : String) :
    ∀ finding ∈ (lex source).findings, finding.issue.isStyle = false :=
  locate_findings .start (visibleText source)

/-! ## Phases -/

theorem note_append (diagnostics : Diagnostics) (first second : List Finding) :
    diagnostics.note (first ++ second) = (diagnostics.note first).note second := by
  rw [Diagnostics.note, List.map_append, Diagnostics.reportAll_append]
  rfl

theorem hasErrors_note (findings : List Finding) :
    (Diagnostics.empty.note findings).hasErrors = findings.any Finding.isError := by
  rw [Diagnostics.note, (Diagnostics.records_reportAll _).hasErrors_eq, List.any_map]
  rfl

theorem value_emitPhase (options : Options) (compilation : Compilation) (program : Module) :
    (emitPhase options compilation program).value =
      (program.emit options.mangling).map fun output => { compilation with
        program := some program
        output := some output
        lastPhase := .emit } := by
  unfold emitPhase
  cases program.emit options.mangling <;> rfl

theorem value_parsePhase (options : Options) (compilation : Compilation) (tokens : List Token) :
    (parsePhase options compilation tokens).value =
      let parsed := parseModule tokens
      let halted := { compilation with
        diagnostics := compilation.diagnostics.note parsed.findings
        tree := if options.listTree then some parsed.value.outlineText else none
        program := some parsed.value
        lastPhase := .parse }
      if halted.diagnostics.hasErrors then .ok halted
      else (parsed.value.emit options.mangling).map fun output =>
        { halted with output := some output, lastPhase := .emit } := by
  unfold parsePhase
  dsimp only
  split
  · rfl
  · exact value_emitPhase options _ _

/-- The remarks of the style phase, if it is wanted. -/
def styleRemarks (options : Options) (tokens : List Token) : List Finding :=
  if options.lint then Style.check tokens else []

theorem value_lintPhase (options : Options) (compilation : Compilation) (tokens : List Token) :
    (lintPhase options compilation tokens).value =
      { compilation with
        diagnostics := compilation.diagnostics.note (styleRemarks options tokens)
        lastPhase := if options.lint then .lint else compilation.lastPhase } := by
  unfold lintPhase styleRemarks
  split <;> rfl

theorem styleRemarks_isStyle (options : Options) (tokens : List Token) :
    ∀ finding ∈ styleRemarks options tokens, finding.issue.isStyle := by
  unfold styleRemarks
  split
  · intro finding hmem
    exact (Style.check_findings (fun _ => True) (fun _ _ _ _ => trivial) trivial
      (fun _ _ => trivial) finding hmem).1
  · exact List.forall_mem_nil _

theorem any_isError_styleRemarks (options : Options) (tokens : List Token) :
    (styleRemarks options tokens).any Finding.isError = false := by
  rw [List.any_eq_false]
  intro finding hmem
  simp [Finding.not_isError_of_isStyle (styleRemarks_isStyle options tokens finding hmem)]

/-- All that is reported on a source, in order. Errors of the lexer end a compilation. -/
def reported (options : Options) (source : String) : List Finding :=
  let lexed := lex source
  if lexed.findings.any Finding.isError then lexed.findings
  else lexed.findings ++ styleRemarks options lexed.tokens ++ (parseModule lexed.tokens).findings

/-- The diagnostics that are made of what is reported on a source. -/
def reports (options : Options) (source : String) : List Diagnostic :=
  (reported options source).map Finding.diagnostic

/-- All errors come from the lexer or from the parser. -/
theorem any_isError_reported (options : Options) (source : String) :
    (reported options source).any Finding.isError = ((lex source).findings.any Finding.isError ||
      (parseModule (lex source).tokens).findings.any Finding.isError) := by
  cases hlex : (lex source).findings.any Finding.isError with
  | true => simp [reported, hlex]
  | false =>
      simp only [reported, hlex, Bool.false_eq_true, if_false, List.any_append,
        any_isError_styleRemarks, Bool.or_false]

/-- A compilation follows from what is reported. -/
theorem compile_eq (options : Options) (source : String) :
    compile options source =
      let lexed := lex source
      let parsed := parseModule lexed.tokens
      let compilation : Compilation :=
        { diagnostics := Diagnostics.empty.note (reported options source)
          tokens := if options.listTokens then some (Token.listing lexed.tokens) else none
          lastPhase := .lex }
      if lexed.findings.any Finding.isError then .ok compilation
      else
        let compilation := { compilation with
          tree := if options.listTree then some parsed.value.outlineText else none
          program := some parsed.value
          lastPhase := .parse }
        if parsed.findings.any Finding.isError then .ok compilation
        else
          (parsed.value.emit options.mangling).map fun output =>
            { compilation with output := some output, lastPhase := .emit } := by
  unfold compile compileLogged
  simp only [hasErrors_note]
  cases hlex : (lex source).findings.any Finding.isError with
  | true => simp [reported, hlex]
  | false =>
      have hreported : reported options source =
          (lex source).findings ++ styleRemarks options (lex source).tokens ++
            (parseModule (lex source).tokens).findings := by
        simp [reported, hlex]
      simp only [Bool.false_eq_true, if_false, Logged.after, value_lintPhase, value_parsePhase,
        ← note_append, ← hreported, hasErrors_note, any_isError_reported, hlex, Bool.false_or]

/-- What a compilation has reported, where it ended, and when it has an output. -/
theorem of_compile_eq_ok {options : Options} {source : String} {compilation : Compilation}
    (hcompile : compile options source = .ok compilation) :
    compilation.diagnostics = Diagnostics.empty.note (reported options source) ∧
      compilation.lastPhase ≠ .lint ∧
      compilation.output.isSome = !(reported options source).any Finding.isError := by
  rw [compile_eq] at hcompile
  rw [any_isError_reported]
  dsimp only at hcompile
  split at hcompile
  next hlex =>
    cases hcompile
    simp [hlex]
  next hlex =>
    split at hcompile
    next hparse =>
      cases hcompile
      simp [hparse]
    next hparse =>
      cases hemit : (parseModule (lex source).tokens).value.emit options.mangling with
      | error obstacle =>
          rw [hemit] at hcompile
          cases hcompile
      | ok output =>
          rw [hemit] at hcompile
          cases hcompile
          simp [hlex, hparse]

end KCompiler
