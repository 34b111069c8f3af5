import KCompiler.Proofs.Braces.Recovery
import KCompiler.Proofs.Invariant.Parsers

/-! # Braces that are taken

Blocks are entered and left through their braces. There is one other way to take an opening
brace: where an expression is expected, a brace is reported and taken on its own. Parsers of
statements keep count of both.
-/

namespace KCompiler

open Outcome

/-- How often a closing brace was reported to have no matching opening brace. -/
def strays (findings : List Finding) : Nat :=
  findings.countP (·.issue = .strayBrace)

/-- How often an expression was expected where an opening brace stood. -/
def leaks (findings : List Finding) : Nat :=
  findings.countP (·.issue = .expectedExpression (.punct .lbrace))

section Findings

variable {first second : List Finding}

@[simp]
theorem strays_append : strays (first ++ second) = strays first + strays second :=
  List.countP_append

@[simp]
theorem leaks_append : leaks (first ++ second) = leaks first + leaks second :=
  List.countP_append

theorem strays_of_spares (hspares : ∀ finding ∈ first, finding.SparesBraces) :
    strays first = 0 := by
  rw [strays, List.countP_eq_zero]
  intro finding hmem
  simpa using (hspares finding hmem).1

theorem leaks_of_spares (hspares : ∀ finding ∈ first, finding.SparesBraces) :
    leaks first = 0 := by
  rw [leaks, List.countP_eq_zero]
  intro finding hmem
  simpa using (hspares finding hmem).2

end Findings

namespace Outcome

variable {input inner : List Token} {α β : Type} {depth more : Int}

/-- An outcome has found no stray brace, and the tokens it took open `depth` more braces than they
close, besides those that were taken for an expression. -/
structure Keeps (depth : Int) (outcome : Outcome input α) : Prop where
  strays_eq : strays outcome.findings = 0
  consumes : Consumes (leaks outcome.findings + depth) input outcome.rest

theorem keeps_done (value : α) : (done value : Outcome input α).Keeps 0 :=
  ⟨rfl, (Consumes.refl input).of_eq rfl⟩

theorem keeps_failed : (failed : Outcome input α).Keeps 0 :=
  ⟨rfl, (Consumes.refl input).of_eq rfl⟩

namespace Keeps

theorem map {outcome : Outcome input α} (hkeeps : outcome.Keeps depth) (f : α → β) :
    (outcome.map f).Keeps depth :=
  ⟨hkeeps.strays_eq, hkeeps.consumes⟩

theorem reporting {outcome : Outcome input α} (hkeeps : outcome.Keeps depth)
    {findings : List Finding} (hspares : ∀ finding ∈ findings, finding.SparesBraces) :
    (outcome.reporting findings).Keeps depth := by
  refine ⟨?_, hkeeps.consumes.of_eq ?_⟩
  · simp [strays_of_spares hspares, hkeeps.strays_eq]
  · simp [leaks_of_spares hspares]

theorem within {outcome : Outcome inner α} (hkeeps : outcome.Keeps depth)
    (hsuffix : inner <:+ input) (hpasses : PassesBy input inner) :
    (outcome.within hsuffix).Keeps depth := by
  refine ⟨hkeeps.strays_eq, ?_⟩
  exact (hpasses.consumes.trans hkeeps.consumes hsuffix outcome.suffix).of_eq (Int.zero_add _)

/-- What goes on behind an outcome takes further braces. -/
theorem follow {outcome : Outcome input α} {next : Outcome outcome.rest β}
    (hkeeps : outcome.Keeps depth) (hnext : next.Keeps more) :
    ((next.reporting outcome.findings).within outcome.suffix).Keeps (depth + more) := by
  refine ⟨?_, (hkeeps.consumes.trans hnext.consumes outcome.suffix next.suffix).of_eq ?_⟩
  · simp [hkeeps.strays_eq, hnext.strays_eq]
  · simp only [findings_within, findings_reporting, leaks_append]
    omega

theorem andThen {outcome : Outcome input α}
    {next : α → (rest : List Token) → rest.length ≤ input.length → Outcome rest β}
    (hkeeps : outcome.Keeps 0) (hnext : ∀ value rest hlength, (next value rest hlength).Keeps 0) :
    (outcome.andThen next).Keeps 0 := by
  obtain ⟨_ | value, rest, findings, hsuffix⟩ := outcome
  · exact ⟨hkeeps.strays_eq, hkeeps.consumes⟩
  · exact hkeeps.follow (hnext value rest hsuffix.length_le)

/-- At the end of the input there may be braces that are still open. -/
theorem weaken {outcome : Outcome input α} (hkeeps : outcome.Keeps depth) (hle : more ≤ depth)
    (hnil : EofFree input → outcome.rest = []) : outcome.Keeps more := by
  refine ⟨hkeeps.strays_eq, fun hfree => ?_⟩
  have hatLeast := (hkeeps.consumes hfree).1
  exact ⟨by omega, fun hne => absurd (hnil hfree) hne⟩

end Keeps
end Outcome

theorem sparesBraces_unexpected (expected found : Kind) (span : Span) :
    ∀ finding ∈ [(⟨.unexpected expected found, span⟩ : Finding)], finding.SparesBraces := by
  simp [Finding.SparesBraces]

theorem findings_seek (kind : Kind) (skips : Nat) (input : List Token) :
    (seek kind skips input).findings = [] := by
  fun_induction seek kind skips input with
  | case1 | case2 | case3 | case4 => rfl
  | case5 _ _ _ _ _ ih => exact ih

theorem expect_keeps (eof : Token) (kind : Kind) (input : List Token) :
    (expect eof kind input).Keeps (soughtWeight kind (expect eof kind input).value) := by
  unfold expect
  split
  · exact keeps_failed.reporting (sparesBraces_unexpected _ _ _)
  · split
    next token rest hkind =>
      refine ⟨rfl, (Consumes.head token rest).of_eq ?_⟩
      rw [hkind]
      exact (Int.zero_add _).symm
    next token rest _ =>
      have hseek := seek_consumes kind maxSkips (token :: rest)
      have hquiet := findings_seek kind maxSkips (token :: rest)
      refine Keeps.reporting ⟨by rw [hquiet]; rfl, hseek.of_eq ?_⟩ (sparesBraces_unexpected _ _ _)
      rw [hquiet]
      exact (Int.zero_add _).symm

section Expecting

variable {eof : Token} {kind : Kind} {input : List Token} {α : Type}
  {next : Token → (rest : List Token) → rest.length < input.length → Outcome rest α}

/-- An expected token is missing for good, or it is taken. -/
theorem expecting_keeps_cases (eof : Token) (kind : Kind) {more : Int}
    (hnext : ∀ token rest hlength, (next token rest hlength).Keeps more) :
    (expect eof kind input).value = none ∧ (expecting eof kind input next).Keeps 0 ∨
      (expecting eof kind input next).Keeps (kind.braceWeight + more) := by
  have hexpect := expect_keeps eof kind input
  rcases expecting_cases eof kind input next with ⟨hmissing, heq⟩ | ⟨token, hlength, hfound, heq⟩
  · rw [hmissing] at hexpect
    rw [heq]
    exact .inl ⟨hmissing, hexpect.strays_eq, hexpect.consumes⟩
  · rw [hfound] at hexpect
    rw [heq]
    exact .inr (hexpect.follow (hnext token _ hlength))

theorem expecting_keeps (hkind : kind.isBrace = false)
    (hnext : ∀ token rest hlength, (next token rest hlength).Keeps 0) :
    (expecting eof kind input next).Keeps 0 := by
  rcases expecting_keeps_cases eof kind hnext with ⟨-, hkeeps⟩ | hkeeps
  · exact hkeeps
  · rwa [Kind.braceWeight_of_isBrace hkind] at hkeeps

end Expecting

section Blocks

variable {eof : Token} {input : List Token} {α β : Type}

theorem rest_expect_of_atBrace (hbrace : AtBrace input)
    (hmissing : (expect eof (.punct .rbrace) input).value = none) : input = [] := by
  cases input with
  | nil => rfl
  | cons token rest =>
      rw [expect_of_kind (hbrace token rfl)] at hmissing
      cases hmissing

/-- What stands in braces is read up to the closing brace, or to the end of the input. -/
theorem inside_keeps (eof : Token) {inside : Outcome input α}
    {next : α → Token → (rest : List Token) → Outcome rest β}
    (hinside : inside.Keeps 0) (hvalue : inside.value.isSome)
    (hbrace : EofFree input → AtBrace inside.rest)
    (hnext : ∀ value brace rest, (next value brace rest).Keeps 0) :
    (inside.andThen fun value rest _ =>
      expecting eof (.punct .rbrace) rest fun brace rest _ =>
        next value brace rest).Keeps (-1) := by
  obtain ⟨_ | value, rest, findings, hsuffix⟩ := inside
  · cases hvalue
  · have hcases := expecting_keeps_cases eof (.punct .rbrace)
      fun brace rest' (_ : rest'.length < rest.length) => hnext value brace rest'
    rcases hcases with ⟨hmissing, hkeeps⟩ | hkeeps
    · -- No closing brace stands where it must, so that the input is at its end.
      refine (hinside.follow hkeeps).weaken (by omega) fun hfree => ?_
      have hrest : rest = [] := rest_expect_of_atBrace (hbrace hfree) hmissing
      exact List.suffix_nil.mp (hrest ▸ (expecting _ _ rest _).suffix)
    · exact hinside.follow hkeeps

theorem braces_keeps {inside : (inner : List Token) → Outcome inner α}
    {next : α → Token → (rest : List Token) → Outcome rest β}
    (hinside : ∀ inner, inner.length < input.length → (inside inner).Keeps 0)
    (hvalue : ∀ inner, (inside inner).value.isSome)
    (hbrace : ∀ inner, EofFree inner → AtBrace (inside inner).rest)
    (hnext : ∀ value brace rest, (next value brace rest).Keeps 0) :
    (expecting eof (.punct .lbrace) input fun _ inner _ =>
      (inside inner).andThen fun value rest _ =>
        expecting eof (.punct .rbrace) rest fun brace rest _ => next value brace rest).Keeps 0 := by
  have hcases := expecting_keeps_cases eof (.punct .lbrace) fun _ inner hlength =>
    inside_keeps eof (hinside inner hlength) (hvalue inner) (hbrace inner) hnext
  rcases hcases with ⟨-, hkeeps⟩ | hkeeps
  · exact hkeeps
  · exact hkeeps

end Blocks

section Statements

variable {input : List Token} {α : Type}

theorem keeps_behind {outcome : Outcome input α} (hkeeps : outcome.Keeps 0) {token : Token}
    (hkind : token.kind.isBrace = false) : (outcome.behind token).Keeps 0 :=
  hkeeps.within _ ⟨[token], rfl, by simpa using hkind⟩

theorem endStatement_keeps (input : List Token) : (endStatement input).Keeps 0 := by
  unfold endStatement
  split
  · exact keeps_done ()
  next token rest =>
    split
    next hend =>
      apply keeps_behind (keeps_done ())
      rcases hend with hkind | hkind <;> rw [hkind] <;> rfl
    next =>
      split
      · exact keeps_done ()
      · exact ⟨rfl, recover_consumes (token :: rest)⟩

theorem finishStatement_keeps {outcome : Outcome input α} (hkeeps : outcome.Keeps 0) :
    (finishStatement outcome).Keeps 0 := by
  unfold finishStatement
  split
  · exact hkeeps.follow ((endStatement_keeps outcome.rest).map _)
  · refine ⟨hkeeps.strays_eq, ?_⟩
    exact hkeeps.consumes.trans (recover_consumes outcome.rest) outcome.suffix (recover_suffix _)

/-- The one way to take an opening brace without its block. -/
theorem unexpected_keeps {rest : List Token} {token : Token} (value : α)
    (hboundary : token.kind.isBoundary = false) :
    (((done value : Outcome rest α).reporting
      [⟨.expectedExpression token.kind, token.span⟩]).behind token).Keeps 0 := by
  refine ⟨rfl, (Consumes.head token rest).of_eq ?_⟩
  have hclose : token.kind ≠ .punct .rbrace := by
    intro hkind
    simp [hkind, Kind.isBoundary] at hboundary
  rw [Kind.braceWeight_eq, if_neg hclose]
  by_cases hkind : token.kind = .punct .lbrace <;> simp [leaks, hkind]

end Statements

/-- No parser finds a stray brace, and each takes as many opening braces as closing ones, besides
those that it takes for an expression. -/
theorem Invariant.keepsBraces {eof : Token} (heof : eof.kind = .eof) :
    Invariant eof (Keeps 0) where
  done := keeps_done
  map f hkeeps := hkeeps.map f
  reporting hfindings hkeeps := hkeeps.reporting hfindings
  error _ hspares := keeps_failed.reporting (by simpa using hspares)
  within hsuffix hpasses hkeeps := hkeeps.within hsuffix hpasses
  andThen hkeeps hnext := hkeeps.andThen hnext
  expecting hkind hnext := expecting_keeps hkind hnext
  missing value := (keeps_done value).reporting (by simp [Finding.SparesBraces, heof])
  unexpected value hboundary := unexpected_keeps value hboundary
  finished hkeeps hmore := (finishStatement_keeps hkeeps).follow hmore
  braces := braces_keeps

end KCompiler
