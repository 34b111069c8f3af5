import KCompiler.Parse.Outcome

/-! # Going on after an error

A parser that misses a token skips a bounded number of tokens to find it, and a broken
statement is skipped to its end. Neither goes past the boundary of a statement, and a
brace is only skipped together with all that it encloses.
-/

namespace KCompiler

/-- Skips the inside of open braces, up to and with the one that closes the last. -/
def skipBlock : Nat → List Token → List Token
  | 0, input => input
  | _ + 1, [] => []
  | depth + 1, token :: rest =>
    match token.kind with
    | .eof => token :: rest
    | .punct .lbrace => skipBlock (depth + 2) rest
    | .punct .rbrace => skipBlock depth rest
    | _ => skipBlock (depth + 1) rest

/-- Skips a token, or a brace and its block. -/
def skipToken : List Token → List Token
  | [] => []
  | token :: rest => if token.kind = .punct .lbrace then skipBlock 1 rest else rest

theorem skipBlock_suffix (depth : Nat) (input : List Token) : skipBlock depth input <:+ input := by
  fun_induction skipBlock depth input with
  | case1 | case2 | case3 => exact List.suffix_rfl
  | case4 _ token rest _ ih | case5 _ token rest _ ih | case6 _ token rest _ _ _ ih =>
      exact ih.trans (List.suffix_cons token rest)

theorem skipToken_cons_suffix (token : Token) (rest : List Token) :
    skipToken (token :: rest) <:+ rest := by
  rw [skipToken]
  split
  · exact skipBlock_suffix 1 rest
  · exact List.suffix_rfl

/-- The most tokens that are skipped to find a missing one. -/
def maxSkips : Nat := 20

/-- Looks for a token of a kind, skipping at most `skips` others. -/
def seek (kind : Kind) : Nat → (input : List Token) → Outcome input Token
  | 0, _ => .failed
  | _ + 1, [] => .failed
  | skips + 1, token :: rest =>
    if token.kind = kind then (Outcome.done token).behind token
    else if token.kind.isBoundary then .failed
    else ((seek kind skips (skipToken (token :: rest))).within
      (skipToken_cons_suffix token rest)).behind token

/-- Takes a token of a kind. A missing one is reported and looked for. -/
def expect (eof : Token) (kind : Kind) (input : List Token) : Outcome input Token :=
  match input with
  | [] => Outcome.failed.reporting [⟨.unexpected kind eof.kind, eof.span⟩]
  | token :: rest =>
    if token.kind = kind then (Outcome.done token).behind token
    else (seek kind maxSkips (token :: rest)).reporting [⟨.unexpected kind token.kind, token.span⟩]

theorem length_seek_lt {kind : Kind} {skips : Nat} {input : List Token} {found : Token}
    (hfound : (seek kind skips input).value = some found) :
    (seek kind skips input).rest.length < input.length := by
  fun_induction seek kind skips input with
  | case1 | case2 | case4 => simp at hfound
  | case3 => simp
  | case5 skips token rest _ _ _ =>
      have hle := ((seek kind skips (skipToken (token :: rest))).within
        (skipToken_cons_suffix token rest)).length_rest_le
      simpa using Nat.lt_succ_of_le hle

theorem length_expect_lt {eof : Token} {kind : Kind} {input : List Token} {found : Token}
    (hfound : (expect eof kind input).value = some found) :
    (expect eof kind input).rest.length < input.length := by
  cases input with
  | nil => simp [expect] at hfound
  | cons token rest =>
      by_cases hkind : token.kind = kind
      · simp [expect, hkind]
      · simp only [expect, hkind, if_false, Outcome.value_reporting] at hfound
        simpa only [expect, hkind, if_false, Outcome.rest_reporting] using length_seek_lt hfound

/-- Goes on behind an expected token. -/
def expecting {α : Type} (eof : Token) (kind : Kind) (input : List Token)
    (next : Token → (rest : List Token) → rest.length < input.length → Outcome rest α) :
    Outcome input α :=
  let outcome := expect eof kind input
  match hfound : outcome.value with
  | none => ⟨none, outcome.rest, outcome.findings, outcome.suffix⟩
  | some token =>
    ((next token outcome.rest (length_expect_lt hfound)).reporting outcome.findings).within
      outcome.suffix

section Expecting

variable {α : Type} {eof token : Token} {kind : Kind} {input : List Token}
  {next : Token → (rest : List Token) → rest.length < input.length → Outcome rest α}

theorem expecting_of_none (hmissing : (expect eof kind input).value = none) :
    expecting eof kind input next =
      ⟨none, (expect eof kind input).rest, (expect eof kind input).findings,
        (expect eof kind input).suffix⟩ := by
  dsimp only [expecting]
  split
  next => rfl
  next hfound => cases hmissing.symm.trans hfound

theorem expecting_of_some (hfound : (expect eof kind input).value = some token) :
    expecting eof kind input next =
      ((next token (expect eof kind input).rest (length_expect_lt hfound)).reporting
        (expect eof kind input).findings).within (expect eof kind input).suffix := by
  dsimp only [expecting]
  split
  next hmissing => cases hmissing.symm.trans hfound
  next other hother =>
    obtain rfl : token = other := Option.some.inj (hfound.symm.trans hother)
    rfl

end Expecting

/-- Skips to the boundary of a statement. -/
def recover (input : List Token) : List Token :=
  match input with
  | [] => []
  | token :: rest =>
    if token.kind.isBoundary then token :: rest else recover (skipToken (token :: rest))
termination_by input.length
decreasing_by
  have hlength := (skipToken_cons_suffix token rest).length_le
  simp only [List.length_cons]
  omega

theorem recover_suffix (input : List Token) : recover input <:+ input := by
  fun_induction recover input with
  | case1 | case2 => exact List.suffix_rfl
  | case3 token rest _ ih =>
      exact (ih.trans (skipToken_cons_suffix token rest)).trans (List.suffix_cons token rest)

theorem length_recover_lt {token : Token} (rest : List Token)
    (hinner : token.kind.isBoundary = false) :
    (recover (token :: rest)).length < (token :: rest).length := by
  rw [recover]
  simp only [hinner, Bool.false_eq_true, if_false]
  have hle := ((recover_suffix _).trans (skipToken_cons_suffix token rest)).length_le
  simp only [List.length_cons]
  omega

/-- Ends a statement. A newline or a semicolon belongs to it; a closing brace or the end of
the input ends it and belongs to what encloses it. Anything else is reported and skipped. -/
def endStatement (input : List Token) : Outcome input Unit :=
  match input with
  | [] => .done ()
  | token :: rest =>
    if token.kind = .newline ∨ token.kind = .punct .semicolon then (Outcome.done ()).behind token
    else if token.kind.isBoundary then .done ()
    else ⟨some (), recover (token :: rest), [⟨.unendedStatement token.kind, token.span⟩],
      recover_suffix _⟩

/-- Finishes a statement that has been parsed: ends it, or skips what is left of a broken
one. The value tells the two apart. -/
def finishStatement {input : List Token} {α : Type} (outcome : Outcome input α) :
    Outcome input (Option α) :=
  match outcome.value with
  | some value =>
    (((endStatement outcome.rest).map fun _ => some value).reporting outcome.findings).within
      outcome.suffix
  | none =>
    ⟨some none, recover outcome.rest, outcome.findings, (recover_suffix _).trans outcome.suffix⟩

theorem length_endStatement_lt {token : Token} (rest : List Token)
    (hinner : token.kind.isBoundary = false) :
    (endStatement (token :: rest)).rest.length < (token :: rest).length := by
  have hnewline : ¬(token.kind = .newline ∨ token.kind = .punct .semicolon) := by
    rintro (hkind | hkind) <;> simp [hkind, Kind.isBoundary] at hinner
  simpa [endStatement, hinner, hnewline] using length_recover_lt rest hinner

theorem rest_finishStatement {input : List Token} {α : Type} (outcome : Outcome input α) :
    (finishStatement outcome).rest =
      if outcome.value.isSome then (endStatement outcome.rest).rest else recover outcome.rest := by
  unfold finishStatement
  split <;> simp_all

/-- A statement that begins with a token that bounds none takes at least that token. -/
theorem length_finishStatement_lt {token : Token} {rest : List Token} {α : Type}
    (hinner : token.kind.isBoundary = false) (outcome : Outcome (token :: rest) α) :
    (finishStatement outcome).rest.length < (token :: rest).length := by
  rw [rest_finishStatement]
  by_cases hlength : outcome.rest.length = (token :: rest).length
  · rw [outcome.suffix.eq_of_length hlength]
    split
    · exact length_endStatement_lt rest hinner
    · exact length_recover_lt rest hinner
  · have hle := outcome.length_rest_le
    have hend := (endStatement outcome.rest).length_rest_le
    have hskip := (recover_suffix outcome.rest).length_le
    split <;> omega

end KCompiler
