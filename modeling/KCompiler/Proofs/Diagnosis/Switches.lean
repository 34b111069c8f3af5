import KCompiler.Proofs.Diagnosis.Reporting

/-! # Switches do not matter to the result

Checking the style of a source and listing its tokens or its tree adds to what a compilation says,
and to nothing else. The style phase reports to the same collector as the lexer and the parser, but
never an error: what is kept and what is dropped of their reports stays as it is.
-/

namespace KCompiler

/-- Not a remark on style. -/
def Finding.isPlain (finding : Finding) : Bool :=
  !finding.issue.isStyle

/-- Not a remark on style, by its code. -/
def Diagnostic.isPlain (diagnostic : Diagnostic) : Bool :=
  !diagnostic.isStyle

/-- What came of a compilation, without what was said and listed. -/
def Compilation.result (compilation : Compilation) : Compilation :=
  { compilation with diagnostics := .empty, tokens := none, tree := none }

variable {first second : Options} {source : String}

/-! ## Reports -/

theorem filter_isPlain_styleRemarks (options : Options) (tokens : List Token) :
    (styleRemarks options tokens).filter Finding.isPlain = [] := by
  rw [List.filter_eq_nil_iff]
  intro finding hmem
  simp [Finding.isPlain, styleRemarks_isStyle options tokens finding hmem]

theorem parseModule_isPlain (tokens : List Token) :
    ∀ finding ∈ (parseModule tokens).findings, finding.issue.isStyle = false := by
  intro finding hmem
  exact (parseModule_findings (fun _ => True) (fun _ _ _ _ => trivial) (fun _ _ => trivial) trivial
    finding hmem).1

/-- The lexer and the parser report the same whether style is checked or not. -/
theorem filter_isPlain_reported (first : Options) (hlint : second.lint = false) (source : String) :
    (reported first source).filter Finding.isPlain = reported second source := by
  have hlexed : (lex source).findings.filter Finding.isPlain = (lex source).findings := by
    rw [List.filter_eq_self]
    intro finding hmem
    simp [Finding.isPlain, lex_findings source finding hmem]
  have hparsed : (parseModule (lex source).tokens).findings.filter Finding.isPlain =
      (parseModule (lex source).tokens).findings := by
    rw [List.filter_eq_self]
    intro finding hmem
    simp [Finding.isPlain, parseModule_isPlain _ finding hmem]
  unfold reported
  dsimp only
  split
  · exact hlexed
  · rw [List.filter_append, List.filter_append, hlexed, hparsed, filter_isPlain_styleRemarks]
    simp [styleRemarks, hlint]

theorem reported_congr (hlint : first.lint = second.lint) (source : String) :
    reported first source = reported second source := by
  simp only [reported, styleRemarks, hlint]

theorem Finding.isPlain_diagnostic (finding : Finding) :
    finding.diagnostic.isPlain = finding.isPlain := by
  rw [Diagnostic.isPlain, Finding.isPlain, Finding.isStyle_diagnostic]

section Findings

variable (findings : List Finding)

theorem filter_isPlain_map :
    (findings.map Finding.diagnostic).filter Diagnostic.isPlain =
      (findings.filter Finding.isPlain).map Finding.diagnostic := by
  rw [List.filter_map]
  congr 2
  funext finding
  exact finding.isPlain_diagnostic

theorem isPlain_of_isError :
    ∀ report ∈ findings.map Finding.diagnostic, report.isError → report.isPlain := by
  intro report hmem herror
  obtain ⟨finding, -, rfl⟩ := List.mem_map.mp hmem
  rw [finding.isPlain_diagnostic, Finding.isPlain]
  cases hstyle : finding.issue.isStyle with
  | false => rfl
  | true =>
      rw [Finding.isError_diagnostic, Finding.not_isError_of_isStyle hstyle] at herror
      cases herror

/-- Of diagnostics that are kept, those that are not on style are kept without the others too. -/
theorem filter_entries_note :
    (Diagnostics.empty.note findings).entries.toList.filter Diagnostic.isPlain =
      (Diagnostics.empty.note (findings.filter Finding.isPlain)).entries.toList := by
  rw [Diagnostics.note, Diagnostics.note, ← filter_isPlain_map,
    (Diagnostics.records_reportAll _).entries_eq, (Diagnostics.records_reportAll _).entries_eq]
  exact Diagnostics.filter_kept (isPlain_of_isError findings)

theorem dropped_filter_isPlain :
    Diagnostics.dropped ((findings.filter Finding.isPlain).map Finding.diagnostic) =
      Diagnostics.dropped (findings.map Finding.diagnostic) := by
  rw [← filter_isPlain_map, Diagnostics.dropped, Diagnostics.dropped,
    errors_filter (isPlain_of_isError findings)]

end Findings

/-! ## Compilations -/

/-- Module, output and last phase of a compilation depend on the source and the mangling alone. -/
theorem map_result_compile (hmangling : first.mangling = second.mangling) (source : String) :
    (compile first source).map Compilation.result =
      (compile second source).map Compilation.result := by
  rw [compile_eq, compile_eq, hmangling]
  dsimp only
  split
  · rfl
  · split
    · rfl
    · cases (parseModule (lex source).tokens).value.emit second.mangling <;> rfl

/-- Two compilations of a source that differ in remarks on style and in listings at most. -/
structure Agreement (source : String) (first second : Options) (a b : Compilation) : Prop where
  program_eq : a.program = b.program
  output_eq : a.output = b.output
  lastPhase_eq : a.lastPhase = b.lastPhase
  lastPhase_ne : a.lastPhase ≠ .lint
  hasErrors_eq : a.diagnostics.hasErrors = b.diagnostics.hasErrors
  diagnostics_eq : first.lint = second.lint → a.diagnostics = b.diagnostics
  /-- Without the remarks on style, all is said that is said where style is not checked. -/
  entries_eq : second.lint = false →
    a.diagnostics.entries.toList.filter Diagnostic.isPlain = b.diagnostics.entries.toList
  /-- The errors that are not kept are the same. -/
  dropped_eq : Diagnostics.dropped (reports first source) =
    Diagnostics.dropped (reports second source)
  errors_eq : errors (reports first source) =
    errors a.diagnostics.entries.toList ++ Diagnostics.dropped (reports first source)
  output_isSome : a.output.isSome ↔ ∀ report ∈ reports first source, report.isError = false

theorem agreement {a b : Compilation} (hresult : a.result = b.result)
    (hfirst : compile first source = .ok a) (hsecond : compile second source = .ok b) :
    Agreement source first second a b := by
  obtain ⟨hfirstDiagnostics, hphase, houtput⟩ := of_compile_eq_ok hfirst
  obtain ⟨hsecondDiagnostics, -, -⟩ := of_compile_eq_ok hsecond
  exact {
    program_eq := (congrArg Compilation.program hresult :)
    output_eq := (congrArg Compilation.output hresult :)
    lastPhase_eq := (congrArg Compilation.lastPhase hresult :)
    lastPhase_ne := hphase
    hasErrors_eq := by
      rw [hfirstDiagnostics, hsecondDiagnostics, hasErrors_note, hasErrors_note,
        any_isError_reported, any_isError_reported]
    diagnostics_eq := fun hlint => by
      rw [hfirstDiagnostics, hsecondDiagnostics, reported_congr hlint]
    entries_eq := fun hlint => by
      rw [hfirstDiagnostics, hsecondDiagnostics, filter_entries_note,
        filter_isPlain_reported first hlint]
    dropped_eq := by
      have hplain (options : Options) :
          (reported options source).filter Finding.isPlain = reported { lint := false } source :=
        filter_isPlain_reported options rfl source
      rw [reports, reports, ← dropped_filter_isPlain (reported first source), hplain,
        ← dropped_filter_isPlain (reported second source), hplain]
    errors_eq := by
      rw [hfirstDiagnostics]
      exact (Diagnostics.errors_append_dropped _).symm
    output_isSome := by
      rw [houtput, Bool.not_eq_true', List.any_eq_false]
      simp [reports] }

/-- Options that agree on mangling give the same result on every source: the same obstacle, or
compilations that differ in what the switches add. -/
theorem compile_agrees (hmangling : first.mangling = second.mangling) (source : String) :
    (∃ obstacle, compile first source = .error obstacle ∧
      compile second source = .error obstacle) ∨
    ∃ a b, compile first source = .ok a ∧ compile second source = .ok b ∧
      Agreement source first second a b := by
  have hresult := map_result_compile hmangling source
  cases hfirst : compile first source with
  | error obstacle =>
      rw [hfirst] at hresult
      cases hsecond : compile second source with
      | error other =>
          rw [hsecond] at hresult
          cases hresult
          exact .inl ⟨obstacle, rfl, rfl⟩
      | ok b =>
          rw [hsecond] at hresult
          cases hresult
  | ok a =>
      rw [hfirst] at hresult
      cases hsecond : compile second source with
      | error obstacle =>
          rw [hsecond] at hresult
          cases hresult
      | ok b =>
          rw [hsecond] at hresult
          exact .inr ⟨a, b, rfl, rfl, agreement (Except.ok.inj hresult) hfirst hsecond⟩

/-- Parentheses that could go are remarked on or not. -/
theorem compile_agrees_parens :
    let source := "mod m\n(x)\n"
    let first : Options := { listTokens := true }
    let second : Options := { lint := false, listTree := true }
    first.mangling = second.mangling ∧
      ∃ a b, compile first source = .ok a ∧ compile second source = .ok b ∧
        Agreement source first second a b ∧ a.diagnostics.size = 1 ∧ b.diagnostics.size = 0 := by
  intro source first second
  have hmangling : first.mangling = second.mangling := rfl
  have hok : (compile first source).toOption.isSome := by decide +kernel
  rcases compile_agrees hmangling source with
    ⟨obstacle, hfirst, -⟩ | ⟨a, b, hfirst, hsecond, hagree⟩
  · rw [hfirst] at hok
    cases hok
  · refine ⟨hmangling, a, b, hfirst, hsecond, hagree, ?_, ?_⟩
    · rw [(of_compile_eq_ok hfirst).1]
      decide +kernel
    · rw [(of_compile_eq_ok hsecond).1]
      decide +kernel

end KCompiler
