import KCompiler.Proofs.Diagnosis.Reporting
import KCompiler.Proofs.Lexing.Spacing

/-! # Where tokens stand

Parsing depends on what tokens say. Where they stand is passed on to the findings and matters to
nothing else, so that sources with the same tokens in other places are compiled to the same text,
and what is said about them differs in the places alone.
-/

namespace KCompiler

/-! ## Runs on tokens in other places -/

/-- Tokens that say the same, wherever they stand. -/
def Likeness.anywhere : Likeness where
  Same input₁ input₂ := input₁.map Token.content = input₂.map Token.content
  Marks _ _ := True

theorem Token.alike_of_content {first second : Token} (hcontent : first.content = second.content) :
    first.Alike .anywhere second :=
  ⟨congrArg Prod.fst hcontent, congrArg Prod.snd hcontent, trivial⟩

theorem parallel_anywhere {eof₁ eof₂ : Token} (heof : eof₁.content = eof₂.content) :
    Parallel .anywhere eof₁ eof₂ where
  nil hsame := by
    obtain rfl := List.map_eq_nil_iff.mp hsame.symm
    exact ⟨.nil, Token.alike_of_content heof⟩
  cons hsame := by
    obtain ⟨token₂, rest₂, rfl, htoken, hrest⟩ := List.map_eq_cons_iff.mp hsame.symm
    exact ⟨token₂, rest₂, rfl, Token.alike_of_content htoken.symm, hrest.symm⟩
  join _ _ := trivial

theorem content_endToken (tokens : List Token) :
    (endToken tokens).content =
      ((tokens.map Token.content).getLast?.filter (·.1 = .eof)).getD (.eof, "") := by
  unfold endToken
  rw [List.getLast?_map]
  cases tokens.getLast? with
  | none => rfl
  | some last =>
      by_cases hkind : last.kind = .eof
      · simp [hkind, Option.filter, Token.content]
      · simp [hkind, Option.filter, Token.content, Token.endBehind, Token.endOfInput]

theorem map_issue_of_alike {like : Likeness} {findings₁ findings₂ : List Finding}
    (halike : List.Forall₂ (Finding.Alike like) findings₁ findings₂) :
    findings₁.map Finding.issue = findings₂.map Finding.issue := by
  induction halike with
  | nil => rfl
  | cons hfinding _ ih => rw [List.map_cons, List.map_cons, hfinding.issue_eq, ih]

/-! ## Diagnostics without their places -/

/-- A diagnostic that points nowhere. -/
def Diagnostic.unplaced (diagnostic : Diagnostic) : Diagnostic :=
  { diagnostic with span := .point .start }

/-- Diagnostics that point nowhere. -/
def Diagnostics.unplaced (diagnostics : Diagnostics) : Diagnostics :=
  { diagnostics with entries := diagnostics.entries.map Diagnostic.unplaced }

namespace Diagnostics

/-- What is kept does not depend on places. -/
theorem unplaced_report (diagnostics : Diagnostics) (report : Diagnostic) :
    (diagnostics.report report).unplaced = diagnostics.unplaced.report report.unplaced := by
  have hlevel : report.unplaced.isError = report.isError := rfl
  have hcount : diagnostics.unplaced.errorCount = diagnostics.errorCount := rfl
  rw [Diagnostics.report, Diagnostics.report, hcount, hlevel]
  split
  · split
    · rfl
    · simp [unplaced]
  · simp [unplaced]

theorem unplaced_reportAll (diagnostics : Diagnostics) (reports : List Diagnostic) :
    (diagnostics.reportAll reports).unplaced =
      diagnostics.unplaced.reportAll (reports.map Diagnostic.unplaced) := by
  induction reports generalizing diagnostics with
  | nil => rfl
  | cons report reports ih =>
      rw [List.map_cons, reportAll_cons, reportAll_cons, ih, unplaced_report]

end Diagnostics

section Findings

variable {findings₁ findings₂ : List Finding}
  (hissues : findings₁.map Finding.issue = findings₂.map Finding.issue)

include hissues

theorem unplaced_diagnostics :
    (findings₁.map Finding.diagnostic).map Diagnostic.unplaced =
      (findings₂.map Finding.diagnostic).map Diagnostic.unplaced := by
  have hissue (findings : List Finding) :
      (findings.map Finding.diagnostic).map Diagnostic.unplaced =
        (findings.map Finding.issue).map fun issue =>
          Finding.diagnostic ⟨issue, .point .start⟩ := by
    rw [List.map_map, List.map_map]
    rfl
  rw [hissue, hissue, hissues]

theorem unplaced_note :
    (Diagnostics.empty.note findings₁).unplaced = (Diagnostics.empty.note findings₂).unplaced := by
  rw [Diagnostics.note, Diagnostics.note, Diagnostics.unplaced_reportAll,
    Diagnostics.unplaced_reportAll, unplaced_diagnostics hissues]

theorem any_isError_congr : findings₁.any Finding.isError = findings₂.any Finding.isError := by
  have hissue (findings : List Finding) :
      findings.any Finding.isError = (findings.map Finding.issue).any (·.level == .error) := by
    rw [List.any_map]
    rfl
  rw [hissue, hissue, hissues]

end Findings

/-! ## Style -/

namespace Style

/-- What is said on a run of blank lines depends on its length. -/
theorem map_issue_blankLines (atStart : Bool) (token : Token) (tokens : List Token) :
    (blankLines atStart (token :: tokens)).map Finding.issue =
      if isNewline token then
        let run := (tokens.takeWhile isNewline).length + if atStart then 1 else 0
        (if maxBlankLines < run then [.blankLines run] else []) ++
          (blankLines false (tokens.dropWhile isNewline)).map Finding.issue
      else (blankLines false tokens).map Finding.issue := by
  have hlength : (if atStart then token :: tokens.takeWhile isNewline
      else tokens.takeWhile isNewline).length =
      (tokens.takeWhile isNewline).length + if atStart then 1 else 0 := by
    cases atStart <;> rfl
  rw [blankLines, ← hlength]
  split
  · rw [List.map_append]
    congr 1
    generalize (if atStart then token :: tokens.takeWhile isNewline
      else tokens.takeWhile isNewline) = blank
    cases blank with
    | nil => rfl
    | cons first lines =>
        dsimp only
        split <;> rfl
  · rfl

theorem map_kind_takeWhile (tokens : List Token) :
    (tokens.takeWhile isNewline).map Token.kind =
      (tokens.map Token.kind).takeWhile (· == .newline) := by
  rw [List.takeWhile_map]
  rfl

theorem map_kind_dropWhile (tokens : List Token) :
    (tokens.dropWhile isNewline).map Token.kind =
      (tokens.map Token.kind).dropWhile (· == .newline) := by
  rw [List.dropWhile_map]
  rfl

variable {tokens₁ tokens₂ : List Token}
  (hkinds : tokens₁.map Token.kind = tokens₂.map Token.kind)

include hkinds

theorem kindAt_congr : kindAt tokens₁ = kindAt tokens₂ := by
  funext index
  rw [kindAt, kindAt, ← List.getElem?_map, ← List.getElem?_map, hkinds]

theorem redundantParens_congr :
    (redundantParens tokens₁).map Finding.issue = (redundantParens tokens₂).map Finding.issue := by
  have hclosing : matchParens tokens₁ = matchParens tokens₂ := by
    rw [matchParens, matchParens, hkinds]
  have hredundancy : redundancy? tokens₁ = redundancy? tokens₂ := by
    funext closing opened closed
    rw [redundancy?, redundancy?, kindAt_congr hkinds]
  unfold redundantParens
  simp only [List.map_filterMap, hclosing, hredundancy]
  refine List.filterMap_congr ?_
  rintro ⟨closed?, opened⟩ -
  cases closed? with
  | none => rfl
  | some closed =>
      cases hwhy : redundancy? tokens₂ (matchParens tokens₂) opened closed <;> simp [hwhy]

theorem blankLines_congr (atStart : Bool) :
    (blankLines atStart tokens₁).map Finding.issue =
      (blankLines atStart tokens₂).map Finding.issue := by
  induction hlength : tokens₁.length using Nat.strongRecOn generalizing atStart tokens₁ tokens₂ with
  | ind length ih =>
      cases tokens₁ with
      | nil =>
          obtain rfl := List.map_eq_nil_iff.mp hkinds.symm
          rfl
      | cons token tokens₁ =>
          obtain ⟨other, tokens₂, rfl, hkind, hmore⟩ := List.map_eq_cons_iff.mp hkinds.symm
          have hnewline : isNewline other = isNewline token := by rw [isNewline, isNewline, hkind]
          have hrun : (tokens₁.takeWhile isNewline).length = (tokens₂.takeWhile isNewline).length := by
            rw [← List.length_map Token.kind, map_kind_takeWhile, ← hmore, ← map_kind_takeWhile,
              List.length_map]
          have hrest : (tokens₁.dropWhile isNewline).map Token.kind =
              (tokens₂.dropWhile isNewline).map Token.kind := by
            rw [map_kind_dropWhile, map_kind_dropWhile, hmore]
          have hless := (List.dropWhile_suffix isNewline (l := tokens₁)).length_le
          rw [List.length_cons] at hlength
          rw [map_issue_blankLines, map_issue_blankLines, hnewline, hrun,
            ih _ (by omega) hmore.symm _ rfl, ih _ (by omega) hrest _ rfl]

theorem check_congr :
    (check tokens₁).map Finding.issue = (check tokens₂).map Finding.issue := by
  rw [check, check, List.map_append, List.map_append, redundantParens_congr hkinds,
    blankLines_congr hkinds]

end Style

/-! ## Parsing and compiling -/

/-- Results that differ at most in where their findings point. -/
structure Parsed.Agrees {α : Type} (first second : Parsed α) : Prop where
  value_eq : first.value = second.value
  /-- The same diagnostics are reported, one by one. -/
  reports_eq : (first.findings.map Finding.diagnostic).map Diagnostic.unplaced =
    (second.findings.map Finding.diagnostic).map Diagnostic.unplaced
  /-- The same diagnostics are kept. -/
  kept_eq : (Diagnostics.empty.note first.findings).unplaced =
    (Diagnostics.empty.note second.findings).unplaced

theorem Parsed.agrees_of_alike {α : Type} {like : Likeness} {first second : Parsed α}
    (halike : first.Alike like second) : first.Agrees second :=
  have hissues := map_issue_of_alike halike.findings
  ⟨halike.value_eq, unplaced_diagnostics hissues, unplaced_note hissues⟩

/-- Compilations that differ at most in where their diagnostics point. -/
structure Compilation.Agrees (first second : Compilation) : Prop where
  program_eq : first.program = second.program
  output_eq : first.output = second.output
  tree_eq : first.tree = second.tree
  lastPhase_eq : first.lastPhase = second.lastPhase
  diagnostics_eq : first.diagnostics.unplaced = second.diagnostics.unplaced

section Tokens

variable {tokens₁ tokens₂ : List Token}
  (hcontent : tokens₁.map Token.content = tokens₂.map Token.content)

include hcontent

theorem parallel_endToken : Parallel .anywhere (endToken tokens₁) (endToken tokens₂) := by
  refine parallel_anywhere ?_
  rw [content_endToken, content_endToken, hcontent]

theorem map_kind_of_content : tokens₁.map Token.kind = tokens₂.map Token.kind := by
  simpa [Token.content, Function.comp_def] using congrArg (List.map Prod.fst) hcontent

end Tokens

section Sources

variable {source₁ source₂ : String} (hclean₁ : (lex source₁).findings = [])
  (hclean₂ : (lex source₂).findings = [])
  (hcontent : (lex source₁).tokens.map Token.content = (lex source₂).tokens.map Token.content)

include hclean₁ hclean₂ hcontent

theorem reported_of_content (options : Options) :
    (reported options source₁).map Finding.issue = (reported options source₂).map Finding.issue := by
  have hparsed := (parallel_endToken hcontent).readModule_alike hcontent
  have hstyle : (styleRemarks options (lex source₁).tokens).map Finding.issue =
      (styleRemarks options (lex source₂).tokens).map Finding.issue := by
    unfold styleRemarks
    split
    · exact Style.check_congr (map_kind_of_content hcontent)
    · rfl
  simp only [reported, hclean₁, hclean₂, List.any_nil, Bool.false_eq_true, if_false,
    List.nil_append, List.map_append, hstyle]
  rw [parseModule, parseModule, map_issue_of_alike hparsed.findings]

/-- Sources with the same tokens in other places have the same obstacle, or agree. -/
theorem compile_of_content (options : Options) :
    (∃ obstacle, compile options source₁ = .error obstacle ∧
      compile options source₂ = .error obstacle) ∨
    ∃ first second, compile options source₁ = .ok first ∧ compile options source₂ = .ok second ∧
      first.Agrees second := by
  have hparsed := (parallel_endToken hcontent).readModule_alike hcontent
  have hkept := unplaced_note (reported_of_content hclean₁ hclean₂ hcontent options)
  have hvalue : (parseModule (lex source₁).tokens).value = (parseModule (lex source₂).tokens).value :=
    hparsed.value_eq
  have herrors : (parseModule (lex source₁).tokens).findings.any Finding.isError =
      (parseModule (lex source₂).tokens).findings.any Finding.isError :=
    any_isError_congr (map_issue_of_alike hparsed.findings)
  rw [compile_eq options source₁, compile_eq options source₂]
  simp only [hclean₁, hclean₂, List.any_nil, Bool.false_eq_true, if_false, hvalue, herrors]
  split
  · exact .inr ⟨_, _, rfl, rfl, rfl, rfl, rfl, rfl, hkept⟩
  · cases (parseModule (lex source₂).tokens).value.emit options.mangling with
    | error obstacle => exact .inl ⟨obstacle, rfl, rfl⟩
    | ok output => exact .inr ⟨_, _, rfl, rfl, rfl, rfl, rfl, rfl, hkept⟩

end Sources

/-- Where tokens stand matters only to where diagnostics point. -/
theorem parse_agrees_of_content :
    (∀ tokens₁ tokens₂ : List Token, tokens₁.map Token.content = tokens₂.map Token.content →
      (parseModule tokens₁).Agrees (parseModule tokens₂) ∧
        (parseExpression tokens₁).Agrees (parseExpression tokens₂)) ∧
    ∀ (options : Options) (source₁ source₂ : String),
      (lex source₁).findings = [] → (lex source₂).findings = [] →
      (lex source₁).tokens.map Token.content = (lex source₂).tokens.map Token.content →
      (∃ obstacle, compile options source₁ = .error obstacle ∧
        compile options source₂ = .error obstacle) ∨
      ∃ first second, compile options source₁ = .ok first ∧
        compile options source₂ = .ok second ∧ first.Agrees second := by
  constructor
  · intro tokens₁ tokens₂ hcontent
    have parallel := parallel_endToken hcontent
    exact ⟨Parsed.agrees_of_alike (parallel.readModule_alike hcontent),
      Parsed.agrees_of_alike (parallel.readExpression_alike hcontent)⟩
  · intro options source₁ source₂ hclean₁ hclean₂ hcontent
    exact compile_of_content hclean₁ hclean₂ hcontent options

/-- A type that is missing is reported at different places, and spaces and comments do not matter
to a file without errors. -/
theorem parse_agrees_of_content_comment :
    let tokens₁ := (lex "mod m\nx:5").tokens
    let tokens₂ := (lex "mod m // c\n  x : 5").tokens
    let source₁ := "mod m\nx:i32=(1)\n"
    let source₂ := "mod m /* c */\n  x : i32 = ( 1 )\n"
    tokens₁.map Token.content = tokens₂.map Token.content ∧
      (parseModule tokens₁).Agrees (parseModule tokens₂) ∧
      (parseExpression tokens₁).Agrees (parseExpression tokens₂) ∧
      (parseModule tokens₁).findings = [⟨.expectedType .integer, ⟨⟨2, 3⟩, ⟨2, 4⟩⟩⟩] ∧
      (parseModule tokens₂).findings = [⟨.expectedType .integer, ⟨⟨2, 7⟩, ⟨2, 8⟩⟩⟩] ∧
      (lex source₁).findings = [] ∧ (lex source₂).findings = [] ∧
      (lex source₁).tokens.map Token.content = (lex source₂).tokens.map Token.content ∧
      ∃ first second, compile {} source₁ = .ok first ∧ compile {} source₂ = .ok second ∧
        first.Agrees second ∧ first.output.isSome := by
  intro tokens₁ tokens₂ source₁ source₂
  have htokens : tokens₁.map Token.content = tokens₂.map Token.content := by decide +kernel
  have hclean₁ : (lex source₁).findings = [] := by decide +kernel
  have hclean₂ : (lex source₂).findings = [] := by decide +kernel
  have hcontent : (lex source₁).tokens.map Token.content =
      (lex source₂).tokens.map Token.content := by decide +kernel
  have hparsed := parse_agrees_of_content.1 tokens₁ tokens₂ htokens
  refine ⟨htokens, hparsed.1, hparsed.2, by decide +kernel, by decide +kernel, hclean₁, hclean₂,
    hcontent, ?_⟩
  have hok : (compile {} source₁).toOption.any (·.output.isSome) := by decide +kernel
  rcases parse_agrees_of_content.2 {} source₁ source₂ hclean₁ hclean₂ hcontent with
    ⟨obstacle, hfirst, -⟩ | ⟨first, second, hfirst, hsecond, hagrees⟩
  · rw [hfirst] at hok
    cases hok
  · rw [hfirst] at hok
    exact ⟨first, second, hfirst, hsecond, hagrees, hok⟩

end KCompiler
