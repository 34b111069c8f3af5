import KCompiler.Diagnostic.Issue
import KCompiler.Token.Basic

/-! # Outcomes of parsers

A parser takes tokens from the front of its input. Its outcome is a value, or none if
it gave up; the tokens it left, which are always the end of its input; and what it
found on the way, in order. Outcomes are put together one behind the other: the first
parser that gives up ends the rest.
-/

namespace KCompiler

/-- What a parser made of its input. -/
structure Outcome (input : List Token) (α : Type) where
  value : Option α
  rest : List Token
  findings : List Finding
  suffix : rest <:+ input

namespace Outcome

variable {input inner : List Token} {α β : Type}

/-- A value without taking a token. -/
def done (value : α) : Outcome input α :=
  ⟨some value, input, [], List.suffix_rfl⟩

/-- Giving up without taking a token. -/
def failed : Outcome input α :=
  ⟨none, input, [], List.suffix_rfl⟩

def map (f : α → β) (outcome : Outcome input α) : Outcome input β :=
  ⟨outcome.value.map f, outcome.rest, outcome.findings, outcome.suffix⟩

/-- Puts findings before those of an outcome. -/
def reporting (findings : List Finding) (outcome : Outcome input α) : Outcome input α :=
  ⟨outcome.value, outcome.rest, findings ++ outcome.findings, outcome.suffix⟩

/-- An outcome on the end of a longer input. -/
def within (hsuffix : inner <:+ input) (outcome : Outcome inner α) : Outcome input α :=
  ⟨outcome.value, outcome.rest, outcome.findings, outcome.suffix.trans hsuffix⟩

/-- An outcome on the input behind a token that has been taken. -/
def behind (token : Token) (outcome : Outcome input α) : Outcome (token :: input) α :=
  outcome.within (List.suffix_cons token input)

/-- Goes on behind an outcome, unless it gave up. -/
def andThen (outcome : Outcome input α)
    (next : α → (rest : List Token) → rest.length ≤ input.length → Outcome rest β) :
    Outcome input β :=
  match outcome.value with
  | none => ⟨none, outcome.rest, outcome.findings, outcome.suffix⟩
  | some value =>
    ((next value outcome.rest outcome.suffix.length_le).reporting outcome.findings).within
      outcome.suffix

@[simp] theorem value_done (value : α) : (done value : Outcome input α).value = some value := rfl

@[simp] theorem rest_done (value : α) : (done value : Outcome input α).rest = input := rfl

@[simp] theorem findings_done (value : α) : (done value : Outcome input α).findings = [] := rfl

@[simp] theorem value_failed : (failed : Outcome input α).value = none := rfl

@[simp] theorem rest_failed : (failed : Outcome input α).rest = input := rfl

@[simp] theorem findings_failed : (failed : Outcome input α).findings = [] := rfl

@[simp] theorem value_map (f : α → β) (outcome : Outcome input α) :
    (outcome.map f).value = outcome.value.map f := rfl

@[simp] theorem rest_map (f : α → β) (outcome : Outcome input α) :
    (outcome.map f).rest = outcome.rest := rfl

@[simp] theorem findings_map (f : α → β) (outcome : Outcome input α) :
    (outcome.map f).findings = outcome.findings := rfl

@[simp] theorem value_reporting (findings : List Finding) (outcome : Outcome input α) :
    (outcome.reporting findings).value = outcome.value := rfl

@[simp] theorem rest_reporting (findings : List Finding) (outcome : Outcome input α) :
    (outcome.reporting findings).rest = outcome.rest := rfl

@[simp] theorem findings_reporting (findings : List Finding) (outcome : Outcome input α) :
    (outcome.reporting findings).findings = findings ++ outcome.findings := rfl

@[simp] theorem value_within (hsuffix : inner <:+ input) (outcome : Outcome inner α) :
    (outcome.within hsuffix).value = outcome.value := rfl

@[simp] theorem rest_within (hsuffix : inner <:+ input) (outcome : Outcome inner α) :
    (outcome.within hsuffix).rest = outcome.rest := rfl

@[simp] theorem findings_within (hsuffix : inner <:+ input) (outcome : Outcome inner α) :
    (outcome.within hsuffix).findings = outcome.findings := rfl

@[simp] theorem value_behind (token : Token) (outcome : Outcome input α) :
    (outcome.behind token).value = outcome.value := rfl

@[simp] theorem rest_behind (token : Token) (outcome : Outcome input α) :
    (outcome.behind token).rest = outcome.rest := rfl

@[simp] theorem findings_behind (token : Token) (outcome : Outcome input α) :
    (outcome.behind token).findings = outcome.findings := rfl

theorem length_rest_le (outcome : Outcome input α) : outcome.rest.length ≤ input.length :=
  outcome.suffix.length_le

end Outcome

/-- The token at the front of an input, and the end of the input behind the last one. -/
def peek (eof : Token) (input : List Token) : Token :=
  input.headD eof

def skipNewlines (input : List Token) : List Token :=
  input.dropWhile (·.kind = .newline)

theorem skipNewlines_suffix (input : List Token) : skipNewlines input <:+ input :=
  List.dropWhile_suffix _

theorem length_skipNewlines_le (input : List Token) : (skipNewlines input).length ≤ input.length :=
  (skipNewlines_suffix input).length_le

end KCompiler
