import KCompiler.Parse.Recovery

/-! # Runs of parsers

A parser keeps a record of its run beside its outcome: which routines it entered and left, with the
tokens ahead at both times, and every turn of a loop that was followed by another. The record is
made by the combinators that parsers are put together from, and changes nothing in the outcome.
-/

namespace KCompiler

/-- The routines whose activations are recorded. -/
inductive Routine where
  | type
  | operand
  | expression
  | list
  | block
  | branch
  | record
  | function
  | statement
  deriving DecidableEq, Repr

/-- The loops whose turns are recorded. -/
inductive Loop where
  | operators
  | items
  | statements
  | members
  deriving DecidableEq, Repr

/-- A step of a recorded run. -/
inductive Run where
  /-- An activation of a routine: the tokens ahead when it is entered and when it is left, and the
  steps inside. -/
  | call (routine : Routine) (start finish : List Token) (inside : List Run)
  /-- A turn of a loop that goes on: the tokens ahead when it begins and when the next one does. -/
  | turn (loop : Loop) (start finish : List Token)

/-- An outcome with the run that led to it. -/
structure Traced (input : List Token) (α : Type) where
  outcome : Outcome input α
  runs : List Run

namespace Traced

variable {input inner : List Token} {α β : Type}

/-- An outcome in which no routine is entered. -/
def silent (outcome : Outcome input α) : Traced input α :=
  ⟨outcome, []⟩

def map (f : α → β) (traced : Traced input α) : Traced input β :=
  ⟨traced.outcome.map f, traced.runs⟩

def reporting (findings : List Finding) (traced : Traced input α) : Traced input α :=
  ⟨traced.outcome.reporting findings, traced.runs⟩

def within (hsuffix : inner <:+ input) (traced : Traced inner α) : Traced input α :=
  ⟨traced.outcome.within hsuffix, traced.runs⟩

def behind (token : Token) (traced : Traced input α) : Traced (token :: input) α :=
  ⟨traced.outcome.behind token, traced.runs⟩

/-- Goes on behind an outcome, unless it gave up. -/
def andThen (traced : Traced input α)
    (next : α → (rest : List Token) → rest.length ≤ input.length → Traced rest β) :
    Traced input β :=
  let outcome := traced.outcome
  match outcome.value with
  | none => ⟨⟨none, outcome.rest, outcome.findings, outcome.suffix⟩, traced.runs⟩
  | some value =>
    let followed := next value outcome.rest outcome.suffix.length_le
    ⟨(followed.outcome.reporting outcome.findings).within outcome.suffix,
      traced.runs ++ followed.runs⟩

/-- Goes on behind an expected token. -/
def expecting (eof : Token) (kind : Kind) (input : List Token)
    (next : Token → (rest : List Token) → rest.length < input.length → Traced rest α) :
    Traced input α :=
  let outcome := expect eof kind input
  match hfound : outcome.value with
  | none => ⟨⟨none, outcome.rest, outcome.findings, outcome.suffix⟩, []⟩
  | some token =>
    let followed := next token outcome.rest (length_expect_lt hfound)
    ⟨(followed.outcome.reporting outcome.findings).within outcome.suffix, followed.runs⟩

/-- Records the activation of a routine. -/
def entering (routine : Routine) (traced : Traced input α) : Traced input α :=
  ⟨traced.outcome, [.call routine input traced.outcome.rest traced.runs]⟩

/-- Records a turn of a loop before the turns behind it. -/
def turning (loop : Loop) (start : List Token) (traced : Traced input α) : Traced input α :=
  ⟨traced.outcome, .turn loop start input :: traced.runs⟩

section Equations

variable (outcome : Outcome input α) (traced : Traced input α)

@[simp] theorem outcome_silent : (silent outcome).outcome = outcome := rfl

@[simp] theorem outcome_map (f : α → β) : (traced.map f).outcome = traced.outcome.map f := rfl

@[simp] theorem outcome_reporting (findings : List Finding) :
    (traced.reporting findings).outcome = traced.outcome.reporting findings := rfl

@[simp] theorem outcome_within (hsuffix : inner <:+ input) (traced : Traced inner α) :
    (traced.within hsuffix).outcome = traced.outcome.within hsuffix := rfl

@[simp] theorem outcome_behind (token : Token) :
    (traced.behind token).outcome = traced.outcome.behind token := rfl

@[simp] theorem outcome_andThen
    (next : α → (rest : List Token) → rest.length ≤ input.length → Traced rest β) :
    (traced.andThen next).outcome =
      traced.outcome.andThen fun value rest hlength => (next value rest hlength).outcome := by
  dsimp only [andThen, Outcome.andThen]
  cases traced.outcome.value <;> rfl

@[simp] theorem outcome_entering (routine : Routine) :
    (traced.entering routine).outcome = traced.outcome := rfl

@[simp] theorem outcome_turning (loop : Loop) (start : List Token) :
    (traced.turning loop start).outcome = traced.outcome := rfl

end Equations

section Expecting

variable {eof token : Token} {kind : Kind}
  (next : Token → (rest : List Token) → rest.length < input.length → Traced rest α)

theorem expecting_of_none (hmissing : (expect eof kind input).value = none) :
    expecting eof kind input next =
      ⟨⟨none, (expect eof kind input).rest, (expect eof kind input).findings,
        (expect eof kind input).suffix⟩, []⟩ := by
  dsimp only [expecting]
  split
  next => rfl
  next hfound => cases hmissing.symm.trans hfound

theorem expecting_of_some (hfound : (expect eof kind input).value = some token) :
    expecting eof kind input next =
      ((next token (expect eof kind input).rest (length_expect_lt hfound)).reporting
        (expect eof kind input).findings).within (expect eof kind input).suffix := by
  dsimp only [expecting]
  split
  next hmissing => cases hmissing.symm.trans hfound
  next other hother =>
    obtain rfl : token = other := Option.some.inj (hfound.symm.trans hother)
    rfl

@[simp] theorem outcome_expecting :
    (expecting eof kind input next).outcome =
      KCompiler.expecting eof kind input fun token rest hlength =>
        (next token rest hlength).outcome := by
  cases hvalue : (expect eof kind input).value with
  | none => rw [expecting_of_none next hvalue, KCompiler.expecting_of_none hvalue]
  | some token =>
      rw [expecting_of_some next hvalue, KCompiler.expecting_of_some hvalue]
      rfl

end Expecting

end Traced

end KCompiler
