import KCompiler.Proofs.Invariant.Parsers

/-! # Giving up is an error

A parser that gives up has reported an error on the way. Combinators keep this, so that it
holds of every parser down to the one of a whole statement: no statement is left out of a tree
in silence.
-/

namespace KCompiler

namespace Outcome

variable {input inner : List Token} {α β : Type}

/-- An outcome without a value comes with an error. -/
def Loud (outcome : Outcome input α) : Prop :=
  outcome.value = none → ∃ finding ∈ outcome.findings, finding.isError

theorem loud_done (value : α) : (done value : Outcome input α).Loud := by
  intro hnone
  simp at hnone

theorem loud_of_error {finding : Finding} (herror : finding.isError) (outcome : Outcome input α) :
    (outcome.reporting [finding]).Loud :=
  fun _ => ⟨finding, by simp, herror⟩

namespace Loud

theorem map {outcome : Outcome input α} (hloud : outcome.Loud) (f : α → β) :
    (outcome.map f).Loud := by
  intro hnone
  exact hloud (by simpa using hnone)

theorem reporting {outcome : Outcome input α} (hloud : outcome.Loud) (findings : List Finding) :
    (outcome.reporting findings).Loud := by
  intro hnone
  obtain ⟨finding, hmem, herror⟩ := hloud hnone
  exact ⟨finding, List.mem_append_right findings hmem, herror⟩

theorem within {outcome : Outcome inner α} (hloud : outcome.Loud) (hsuffix : inner <:+ input) :
    (outcome.within hsuffix).Loud := hloud

theorem behind {outcome : Outcome input α} (hloud : outcome.Loud) (token : Token) :
    (outcome.behind token).Loud := hloud

theorem andThen {outcome : Outcome input α}
    {next : α → (rest : List Token) → rest.length ≤ input.length → Outcome rest β}
    (hloud : outcome.Loud) (hnext : ∀ value rest hlength, (next value rest hlength).Loud) :
    (outcome.andThen next).Loud := by
  obtain ⟨_ | value, rest, findings, hsuffix⟩ := outcome
  · exact fun _ => hloud rfl
  · exact ((hnext value rest hsuffix.length_le).reporting findings).within hsuffix

end Loud
end Outcome

open Outcome

variable {eof : Token}

theorem expect_loud (eof : Token) (kind : Kind) (input : List Token) :
    (expect eof kind input).Loud := by
  unfold expect
  split
  · exact loud_of_error rfl _
  · split
    · exact (loud_done _).behind _
    · exact loud_of_error rfl _

theorem expecting_loud {α : Type} {kind : Kind} {input : List Token}
    {next : Token → (rest : List Token) → rest.length < input.length → Outcome rest α}
    (hnext : ∀ token rest hlength, (next token rest hlength).Loud) :
    (expecting eof kind input next).Loud := by
  have hexpect := expect_loud eof kind input
  rcases expecting_cases eof kind input next with ⟨hmissing, heq⟩ | ⟨token, hlength, hfound, heq⟩
  · rw [heq]
    exact fun _ => hexpect hmissing
  · rw [heq]
    exact ((hnext token _ hlength).reporting _).within _

/-- Every combinator keeps an outcome loud. -/
theorem Invariant.loud (eof : Token) : Invariant eof Loud where
  done := loud_done
  map f houtcome := houtcome.map f
  reporting _ houtcome := houtcome.reporting _
  error herror _ := loud_of_error herror _
  within hsuffix _ houtcome := houtcome.within hsuffix
  andThen houtcome hnext := houtcome.andThen hnext
  expecting _ hnext := expecting_loud hnext
  missing value := (loud_done value).reporting _
  unexpected value _ := ((loud_done value).reporting _).behind _
  finished _ hmore := (hmore.reporting _).within _
  braces hinside _ _ hnext := expecting_loud fun _ inner hinner =>
    (hinside inner hinner).andThen fun value _ _ =>
      expecting_loud fun brace rest _ => hnext value brace rest

theorem statement_loud (scope : Scope) (input : List Token) : (statement eof scope input).Loud :=
  (Invariant.loud eof).statement_holds scope input

theorem member_loud (input : List Token) : (member eof input).Loud :=
  (Invariant.loud eof).member_holds input

end KCompiler
