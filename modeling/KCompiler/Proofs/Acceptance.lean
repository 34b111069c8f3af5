import KCompiler.Parse.Program
import KCompiler.Proofs.Outcome

/-! # Accepted inputs

What a parser has done when it gives a value and reports no error. Every combinator of parsers
has one law here, and the parsers themselves are opened by these laws only.
-/

namespace KCompiler

/-- A finding that does not stop a compilation. -/
def Finding.Harmless (finding : Finding) : Prop :=
  finding.isError = false

namespace Outcome

variable {input inner : List Token} {α β : Type}

/-- An outcome gives a value, leaves some tokens, and finds nothing wrong. -/
structure Gives (outcome : Outcome input α) (value : α) (rest : List Token) : Prop where
  value_eq : outcome.value = some value
  rest_eq : outcome.rest = rest
  harmless : ∀ finding ∈ outcome.findings, finding.Harmless

@[simp]
theorem gives_done {value result : α} {rest : List Token} :
    (done value : Outcome input α).Gives result rest ↔ result = value ∧ rest = input := by
  constructor
  · rintro ⟨hvalue, hrest, -⟩
    exact ⟨(Option.some.inj hvalue).symm, hrest.symm⟩
  · rintro ⟨rfl, rfl⟩
    exact ⟨rfl, rfl, by simp⟩

@[simp]
theorem not_gives_failed {value : α} {rest : List Token} :
    ¬(failed : Outcome input α).Gives value rest := by
  rintro ⟨hvalue, -, -⟩
  simp at hvalue

@[simp]
theorem gives_map {f : α → β} {outcome : Outcome input α} {result : β} {rest : List Token} :
    (outcome.map f).Gives result rest ↔
      ∃ value, outcome.Gives value rest ∧ f value = result := by
  constructor
  · rintro ⟨hvalue, hrest, hharmless⟩
    obtain ⟨value, hvalue, hresult⟩ := Option.map_eq_some_iff.mp hvalue
    exact ⟨value, ⟨hvalue, hrest, hharmless⟩, hresult⟩
  · rintro ⟨value, ⟨hvalue, hrest, hharmless⟩, rfl⟩
    exact ⟨by simp [hvalue], hrest, hharmless⟩

@[simp]
theorem gives_reporting {findings : List Finding} {outcome : Outcome input α} {value : α}
    {rest : List Token} :
    (outcome.reporting findings).Gives value rest ↔
      (∀ finding ∈ findings, finding.Harmless) ∧ outcome.Gives value rest := by
  constructor
  · rintro ⟨hvalue, hrest, hharmless⟩
    rw [findings_reporting, List.forall_mem_append] at hharmless
    exact ⟨hharmless.1, hvalue, hrest, hharmless.2⟩
  · rintro ⟨hfindings, hvalue, hrest, hharmless⟩
    exact ⟨hvalue, hrest, List.forall_mem_append.mpr ⟨hfindings, hharmless⟩⟩

@[simp]
theorem gives_within {hsuffix : inner <:+ input} {outcome : Outcome inner α} {value : α}
    {rest : List Token} :
    (outcome.within hsuffix).Gives value rest ↔ outcome.Gives value rest := by
  constructor
  · rintro ⟨hvalue, hrest, hharmless⟩
    exact ⟨hvalue, hrest, hharmless⟩
  · rintro ⟨hvalue, hrest, hharmless⟩
    exact ⟨hvalue, hrest, hharmless⟩

@[simp]
theorem gives_behind {token : Token} {outcome : Outcome input α} {value : α} {rest : List Token} :
    (outcome.behind token).Gives value rest ↔ outcome.Gives value rest :=
  gives_within

theorem gives_andThen {outcome : Outcome input α}
    {next : α → (rest : List Token) → rest.length ≤ input.length → Outcome rest β} {result : β}
    {rest : List Token} :
    (outcome.andThen next).Gives result rest ↔
      ∃ value middle, outcome.Gives value middle ∧
        ∃ hlength, (next value middle hlength).Gives result rest := by
  obtain ⟨_ | value, middle, findings, hsuffix⟩ := outcome
  · constructor
    · rintro ⟨hvalue, -, -⟩
      simp [andThen] at hvalue
    · rintro ⟨value, middle, ⟨hvalue, -, -⟩, -⟩
      simp at hvalue
  · simp only [andThen, gives_within, gives_reporting]
    constructor
    · rintro ⟨hfindings, hnext⟩
      exact ⟨value, middle, ⟨rfl, rfl, hfindings⟩, hsuffix.length_le, hnext⟩
    · rintro ⟨_, _, ⟨⟨⟩, ⟨⟩, hfindings⟩, hlength, hnext⟩
      exact ⟨hfindings, hnext⟩

end Outcome

section Expecting

open Outcome

variable {eof : Token} {kind : Kind} {input : List Token} {α : Type}

theorem gives_expecting
    {next : Token → (rest : List Token) → rest.length < input.length → Outcome rest α} {result : α}
    {rest : List Token} :
    (expecting eof kind input next).Gives result rest ↔
      ∃ token middle, (expect eof kind input).Gives token middle ∧
        ∃ hlength, (next token middle hlength).Gives result rest := by
  rcases expecting_cases eof kind input next with ⟨hmissing, heq⟩ | ⟨token, hlength, hfound, heq⟩
  · rw [heq]
    constructor
    · rintro ⟨hvalue, -, -⟩
      simp at hvalue
    · rintro ⟨token, middle, ⟨hvalue, -, -⟩, -⟩
      simp [hmissing] at hvalue
  · rw [heq, gives_within, gives_reporting]
    constructor
    · rintro ⟨hfindings, hnext⟩
      exact ⟨token, _, ⟨hfound, rfl, hfindings⟩, hlength, hnext⟩
    · rintro ⟨other, _, ⟨hvalue, rfl, hfindings⟩, hlength, hnext⟩
      obtain rfl : token = other := Option.some.inj (hfound.symm.trans hvalue)
      exact ⟨hfindings, hnext⟩

/-- A token that is expected and missing is an error, whether it is found later or not. -/
theorem eq_cons_of_gives_expect {token : Token} {rest : List Token}
    (hgives : (expect eof kind input).Gives token rest) :
    input = token :: rest ∧ token.kind = kind := by
  unfold expect at hgives
  split at hgives
  next => simp at hgives
  next first more =>
    split at hgives
    next hkind =>
      obtain ⟨rfl, rfl⟩ := gives_done.mp (gives_behind.mp hgives)
      exact ⟨rfl, hkind⟩
    next =>
      have hmissing := (gives_reporting.mp hgives).1 _ (List.mem_singleton_self _)
      simp [Finding.Harmless, Finding.isError, Issue.level] at hmissing

/-- An expected token of an accepted input stands at its front. -/
theorem exists_of_expecting_gives
    {next : Token → (rest : List Token) → rest.length < input.length → Outcome rest α} {result : α}
    {rest : List Token} (hgives : (expecting eof kind input next).Gives result rest) :
    ∃ token middle, input = token :: middle ∧ token.kind = kind ∧
      ∃ hlength, (next token middle hlength).Gives result rest := by
  obtain ⟨token, middle, hexpect, hnext⟩ := gives_expecting.mp hgives
  obtain ⟨hinput, hkind⟩ := eq_cons_of_gives_expect hexpect
  exact ⟨token, middle, hinput, hkind, hnext⟩

end Expecting
end KCompiler
