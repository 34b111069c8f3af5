import KCompiler.Parse.Run

/-! # Runs that go forward

What is known of a recorded run is put together by one rule for every combinator: the run goes
forward, every turn takes a token, and a routine is entered again inside of itself only when tokens
have been taken.
-/

namespace KCompiler

/-- How far a routine is from the tokens: with the same tokens ahead it only enters lower ones. -/
def Routine.rank : Routine → Nat
  | .type => 0
  | .operand => 1
  | .expression => 2
  | .list => 3
  | .block => 4
  | .branch | .record | .function => 5
  | .statement => 6

/-- What an activation has before it. It goes down from an activation to those inside: either tokens
have been taken, or the routine is a lower one. -/
def Routine.measure (routine : Routine) (start : List Token) : Nat :=
  7 * start.length + routine.rank

/-- A run that goes forward from the tokens `before` to the tokens `after`, below a bound; its loops
begin their turns at ends of `whole`. -/
inductive Forward (whole : List Token) : Nat → List Token → List Run → List Token → Prop
  | nil {bound : Nat} {before after : List Token} (hsuffix : after <:+ before) :
      Forward whole bound before [] after
  | call {bound : Nat} {before start finish after : List Token} {routine : Routine}
      {inside runs : List Run} (hstart : start <:+ before) (hless : routine.measure start < bound)
      (hinside : Forward whole (routine.measure start) start inside finish)
      (hruns : Forward whole bound finish runs after) :
      Forward whole bound before (.call routine start finish inside :: runs) after
  | turn {bound : Nat} {before start finish after : List Token} {loop : Loop} {runs : List Run}
      (hstart : start <:+ whole) (hfinish : finish <:+ before)
      (hless : finish.length < start.length) (hruns : Forward whole bound finish runs after) :
      Forward whole bound before (.turn loop start finish :: runs) after

namespace Forward

variable {whole before middle after : List Token} {bound : Nat} {runs more : List Run}

theorem suffix (hforward : Forward whole bound before runs after) : after <:+ before := by
  induction hforward with
  | nil hsuffix => exact hsuffix
  | call hstart _ _ _ hinside hruns => exact (hruns.trans hinside).trans hstart
  | turn _ hfinish _ _ hruns => exact hruns.trans hfinish

/-- A run may begin with tokens that no step takes. -/
theorem behind (hforward : Forward whole bound middle runs after) (hsuffix : middle <:+ before) :
    Forward whole bound before runs after := by
  cases hforward with
  | nil hafter => exact .nil (hafter.trans hsuffix)
  | call hstart hless hinside hruns => exact .call (hstart.trans hsuffix) hless hinside hruns
  | turn hstart hfinish hless hruns => exact .turn hstart (hfinish.trans hsuffix) hless hruns

theorem append (hfirst : Forward whole bound before runs middle)
    (hsecond : Forward whole bound middle more after) :
    Forward whole bound before (runs ++ more) after := by
  induction hfirst with
  | nil hsuffix => exact hsecond.behind hsuffix
  | call hstart hless hinside _ _ hruns => exact .call hstart hless hinside (hruns hsecond)
  | turn hstart hfinish hless _ hruns => exact .turn hstart hfinish hless (hruns hsecond)

end Forward

/-! ## Parsers that advance -/

namespace Traced

variable {input inner : List Token} {α β : Type}

/-- The run of a parser with an end of `whole` ahead goes forward to the tokens that it leaves. -/
def Advances (whole : List Token) (bound : Nat) (traced : Traced input α) : Prop :=
  input <:+ whole → Forward whole bound input traced.runs traced.outcome.rest

variable {whole : List Token} {bound : Nat} {traced : Traced input α}

theorem advances_silent (outcome : Outcome input α) : (silent outcome).Advances whole bound :=
  fun _ => .nil outcome.suffix

namespace Advances

/-- What a parser has ahead is an end of the whole input. -/
theorem given (hadvances : input <:+ whole → traced.Advances whole bound) :
    traced.Advances whole bound :=
  fun hinput => hadvances hinput hinput

theorem map (hadvances : traced.Advances whole bound) (f : α → β) :
    (traced.map f).Advances whole bound :=
  hadvances

theorem reporting (hadvances : traced.Advances whole bound) (findings : List Finding) :
    (traced.reporting findings).Advances whole bound :=
  hadvances

theorem within {traced : Traced inner α} (hadvances : traced.Advances whole bound)
    (hsuffix : inner <:+ input) : (traced.within hsuffix).Advances whole bound :=
  fun hinput => (hadvances (hsuffix.trans hinput)).behind hsuffix

theorem behind (hadvances : traced.Advances whole bound) (token : Token) :
    (traced.behind token).Advances whole bound :=
  hadvances.within (List.suffix_cons token input)

theorem andThen (hadvances : traced.Advances whole bound)
    {next : α → (rest : List Token) → rest.length ≤ input.length → Traced rest β}
    (hnext : ∀ value rest hlength, (next value rest hlength).Advances whole bound) :
    (traced.andThen next).Advances whole bound := by
  intro hinput
  have hforward := hadvances hinput
  unfold Traced.andThen
  dsimp only
  split
  next => exact hforward
  next value _ =>
    exact hforward.append (hnext value _ _ (traced.outcome.suffix.trans hinput))

/-- A routine is entered below any bound that its activation is below. -/
theorem entering {routine : Routine} (hadvances : traced.Advances whole (routine.measure input))
    (hless : routine.measure input < bound) : (traced.entering routine).Advances whole bound :=
  fun hinput => .call List.suffix_rfl hless (hadvances hinput) (.nil List.suffix_rfl)

/-- A turn takes its first token, if the next one begins behind it. -/
theorem turning (hadvances : traced.Advances whole bound) {token : Token} {rest : List Token}
    (hstart : token :: rest <:+ whole) (hbehind : input.length ≤ rest.length) (loop : Loop) :
    (traced.turning loop (token :: rest)).Advances whole bound :=
  fun hinput => .turn hstart List.suffix_rfl (Nat.lt_succ_of_le hbehind) (hadvances hinput)

end Advances

theorem advances_expecting {eof : Token} {kind : Kind}
    {next : Token → (rest : List Token) → rest.length < input.length → Traced rest α}
    (hnext : ∀ token rest hlength, (next token rest hlength).Advances whole bound) :
    (expecting eof kind input next).Advances whole bound := by
  intro hinput
  have hsuffix := (expect eof kind input).suffix
  cases hvalue : (expect eof kind input).value with
  | none =>
      rw [expecting_of_none next hvalue]
      exact .nil hsuffix
  | some token =>
      rw [expecting_of_some next hvalue]
      exact (hnext token _ _ (hsuffix.trans hinput)).behind hsuffix

end Traced

end KCompiler
