import KCompiler.Parse.Sequence

/-! # Laws of outcomes

Outcomes are equal when they agree on value, rest and findings. Going on behind an outcome
is associative, and it passes over a token that has been taken.
-/

namespace KCompiler

namespace Outcome

variable {input inner : List Token} {α β γ : Type}

@[ext]
theorem ext {first second : Outcome input α} (hvalue : first.value = second.value)
    (hrest : first.rest = second.rest) (hfindings : first.findings = second.findings) :
    first = second := by
  cases first
  cases second
  cases hvalue
  cases hrest
  cases hfindings
  rfl

@[simp]
theorem andThen_done (value : α)
    (next : α → (rest : List Token) → rest.length ≤ input.length → Outcome rest β) :
    (done value : Outcome input α).andThen next = next value input (Nat.le_refl _) := rfl

theorem andThen_within (hsuffix : inner <:+ input) (outcome : Outcome inner α)
    (next : α → (rest : List Token) → Outcome rest β) :
    ((outcome.within hsuffix).andThen fun value rest _ => next value rest) =
      (outcome.andThen fun value rest _ => next value rest).within hsuffix := by
  obtain ⟨_ | value, rest, findings, hrest⟩ := outcome <;> rfl

theorem andThen_reporting (findings : List Finding) (outcome : Outcome input α)
    (next : α → (rest : List Token) → Outcome rest β) :
    ((outcome.reporting findings).andThen fun value rest _ => next value rest) =
      (outcome.andThen fun value rest _ => next value rest).reporting findings := by
  obtain ⟨_ | value, rest, more, hrest⟩ := outcome
  · rfl
  · apply ext
    · rfl
    · rfl
    · exact List.append_assoc findings more _

theorem andThen_behind (token : Token) (outcome : Outcome input α)
    (next : α → (rest : List Token) → Outcome rest β) :
    ((outcome.behind token).andThen fun value rest _ => next value rest) =
      (outcome.andThen fun value rest _ => next value rest).behind token :=
  andThen_within _ outcome next

theorem andThen_assoc (outcome : Outcome input α) (next : α → (rest : List Token) → Outcome rest β)
    (last : β → (rest : List Token) → Outcome rest γ) :
    ((outcome.andThen fun value rest _ => next value rest).andThen fun value rest _ =>
      last value rest) =
      outcome.andThen fun value rest _ =>
        (next value rest).andThen fun value rest _ => last value rest := by
  obtain ⟨_ | value, rest, findings, hsuffix⟩ := outcome
  · rfl
  · calc
      _ = (((next value rest).reporting findings).within hsuffix).andThen fun value rest _ =>
            last value rest := rfl
      _ = (((next value rest).andThen fun value rest _ => last value rest).reporting
            findings).within hsuffix := by rw [andThen_within, andThen_reporting]

theorem map_andThen (f : α → β) (outcome : Outcome input α)
    (next : β → (rest : List Token) → Outcome rest γ) :
    ((outcome.map f).andThen fun value rest _ => next value rest) =
      outcome.andThen fun value rest _ => next (f value) rest := by
  obtain ⟨_ | value, rest, findings, hsuffix⟩ := outcome <;> rfl

/-- What went on behind an outcome and gave a value had a value to go on from. -/
theorem exists_of_value_andThen {outcome : Outcome input α}
    {next : α → (rest : List Token) → rest.length ≤ input.length → Outcome rest β} {result : β}
    (hvalue : (outcome.andThen next).value = some result) :
    ∃ value, outcome.value = some value ∧
      (next value outcome.rest outcome.length_rest_le).value = some result ∧
      (outcome.andThen next).rest = (next value outcome.rest outcome.length_rest_le).rest := by
  obtain ⟨_ | value, rest, findings, hsuffix⟩ := outcome
  · simp [andThen] at hvalue
  · exact ⟨value, rfl, hvalue, rfl⟩

theorem andThen_congr (outcome : Outcome input α)
    {first second : α → (rest : List Token) → rest.length ≤ input.length → Outcome rest β}
    (hsame : ∀ value, outcome.value = some value → ∀ hlength,
      first value outcome.rest hlength = second value outcome.rest hlength) :
    outcome.andThen first = outcome.andThen second := by
  obtain ⟨_ | value, rest, findings, hsuffix⟩ := outcome
  · rfl
  · simp only [andThen]
    rw [hsame value rfl]

theorem andThen_eq_map (outcome : Outcome input α) (f : α → β)
    (next : α → (rest : List Token) → Outcome rest β)
    (hnext : ∀ value, outcome.value = some value → next value outcome.rest = done (f value)) :
    (outcome.andThen fun value rest _ => next value rest) = outcome.map f := by
  obtain ⟨_ | value, rest, findings, hsuffix⟩ := outcome
  · rfl
  · have hdone : next value rest = done (f value) := hnext value rfl
    simp only [andThen, hdone]
    ext <;> simp

end Outcome

/-- An expected token is missing for good, or it has been found and the parser goes on. -/
theorem expecting_cases (eof : Token) (kind : Kind) (input : List Token) {α : Type}
    (next : Token → (rest : List Token) → rest.length < input.length → Outcome rest α) :
    ((expect eof kind input).value = none ∧ expecting eof kind input next =
      ⟨none, (expect eof kind input).rest, (expect eof kind input).findings,
        (expect eof kind input).suffix⟩) ∨
      ∃ token hlength, (expect eof kind input).value = some token ∧
        expecting eof kind input next =
          ((next token (expect eof kind input).rest hlength).reporting
            (expect eof kind input).findings).within (expect eof kind input).suffix := by
  cases hvalue : (expect eof kind input).value with
  | none => exact .inl ⟨rfl, expecting_of_none hvalue⟩
  | some token => exact .inr ⟨token, length_expect_lt hvalue, rfl, expecting_of_some hvalue⟩

theorem exists_of_value_expecting {eof : Token} {kind : Kind} {input : List Token} {α : Type}
    {next : Token → (rest : List Token) → rest.length < input.length → Outcome rest α} {result : α}
    (hvalue : (expecting eof kind input next).value = some result) :
    ∃ token rest hlength, (next token rest hlength).value = some result := by
  rcases expecting_cases eof kind input next with ⟨-, heq⟩ | ⟨token, hlength, -, heq⟩
  · rw [heq] at hvalue
    cases hvalue
  · rw [heq] at hvalue
    exact ⟨token, _, hlength, hvalue⟩

theorem expecting_done (eof : Token) (kind : Kind) (input : List Token) :
    (expecting eof kind input fun token _ _ => .done token) = expect eof kind input := by
  rcases expecting_cases eof kind input fun token _ _ => .done token with
    ⟨hmissing, heq⟩ | ⟨token, hlength, hfound, heq⟩
  · rw [heq]
    ext <;> simp [hmissing]
  · rw [heq]
    ext <;> simp [hfound]

theorem expect_of_kind {eof token : Token} {kind : Kind} {rest : List Token}
    (hkind : token.kind = kind) :
    expect eof kind (token :: rest) = (Outcome.done token).behind token := by
  rw [expect, if_pos hkind]

/-- A parser goes on behind an expected token at the front of its input. -/
theorem expecting_of_kind {eof token : Token} {kind : Kind} {rest : List Token} {α : Type}
    {next : Token → (inner : List Token) → inner.length < (token :: rest).length → Outcome inner α}
    (hkind : token.kind = kind) :
    expecting eof kind (token :: rest) next =
      (next token rest (Nat.lt_succ_self rest.length)).behind token := by
  have hexpect : expect eof kind (token :: rest) = (Outcome.done token).behind token :=
    expect_of_kind hkind
  rcases expecting_cases eof kind (token :: rest) next with
    ⟨hmissing, -⟩ | ⟨found, hlength, hfound, heq⟩
  · simp [hexpect] at hmissing
  · rw [heq]
    generalize expect eof kind (token :: rest) = outcome at *
    subst hexpect
    cases hfound
    rfl

end KCompiler
