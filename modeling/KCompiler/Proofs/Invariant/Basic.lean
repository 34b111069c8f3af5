import KCompiler.Proofs.Equations
import KCompiler.Proofs.StatementLoop

/-! # What every parser keeps

A property of outcomes that every combinator keeps holds of every parser. The rules that a
property has to meet say what the parsers are made of: they report, pass over tokens other than
braces, expect tokens, finish statements, and enter and leave a block only through its braces.
-/

namespace KCompiler

open Grammar Outcome

def Kind.isBrace : Kind → Bool
  | .punct .lbrace | .punct .rbrace => true
  | _ => false

/-- A finding that is not about a brace out of place. -/
def Finding.SparesBraces (finding : Finding) : Prop :=
  finding.issue ≠ .strayBrace ∧ finding.issue ≠ .expectedExpression (.punct .lbrace)

/-- Tokens without one that ends an input. -/
def EofFree (tokens : List Token) : Prop :=
  ∀ token ∈ tokens, token.kind ≠ .eof

/-- Nothing, or tokens that begin with a closing brace. -/
def AtBrace (tokens : List Token) : Prop :=
  ∀ token ∈ tokens.head?, token.kind = .punct .rbrace

/-- The rest of an input behind tokens other than braces. -/
def PassesBy (input inner : List Token) : Prop :=
  ∃ front, input = front ++ inner ∧ ∀ token ∈ front, token.kind.isBrace = false

/-- A property of outcomes that the combinators of parsers keep. -/
structure Invariant (eof : Token)
    (Holds : {input : List Token} → {α : Type} → Outcome input α → Prop) : Prop where
  done {input : List Token} {α : Type} (value : α) : Holds (.done value : Outcome input α)
  map {input : List Token} {α β : Type} {outcome : Outcome input α} (f : α → β)
    (houtcome : Holds outcome) : Holds (outcome.map f)
  reporting {input : List Token} {α : Type} {outcome : Outcome input α} {findings : List Finding}
    (hfindings : ∀ finding ∈ findings, finding.SparesBraces) (houtcome : Holds outcome) :
    Holds (outcome.reporting findings)
  error {input : List Token} {α : Type} {finding : Finding} (herror : finding.isError)
    (hspares : finding.SparesBraces) :
    Holds ((Outcome.failed : Outcome input α).reporting [finding])
  within {input inner : List Token} {α : Type} {outcome : Outcome inner α}
    (hsuffix : inner <:+ input) (hpasses : PassesBy input inner) (houtcome : Holds outcome) :
    Holds (outcome.within hsuffix)
  andThen {input : List Token} {α β : Type} {outcome : Outcome input α}
    {next : α → (rest : List Token) → rest.length ≤ input.length → Outcome rest β}
    (houtcome : Holds outcome) (hnext : ∀ value rest hlength, Holds (next value rest hlength)) :
    Holds (outcome.andThen next)
  expecting {kind : Kind} {input : List Token} {α : Type}
    {next : Token → (rest : List Token) → rest.length < input.length → Outcome rest α}
    (hkind : kind.isBrace = false) (hnext : ∀ token rest hlength, Holds (next token rest hlength)) :
    Holds (expecting eof kind input next)
  /-- An operand that is missing at the end of the input. -/
  missing {α : Type} (value : α) :
    Holds ((Outcome.done value : Outcome [] α).reporting
      [⟨.expectedExpression eof.kind, eof.span⟩])
  /-- A token that begins no operand is taken unless it bounds the statement. -/
  unexpected {rest : List Token} {α : Type} {token : Token} (value : α)
    (hboundary : token.kind.isBoundary = false) :
    Holds (((Outcome.done value : Outcome rest α).reporting
      [⟨.expectedExpression token.kind, token.span⟩]).behind token)
  /-- A finished statement with what is read behind it. -/
  finished {input : List Token} {α β : Type} {outcome : Outcome input α}
    {more : Outcome (finishStatement outcome).rest β} (houtcome : Holds outcome)
    (hmore : Holds more) :
    Holds ((more.reporting (finishStatement outcome).findings).within
      (finishStatement outcome).suffix)
  /-- What stands in braces. It never gives up, and only the closing brace ends it. -/
  braces {input : List Token} {α β : Type}
    {inside : (inner : List Token) → Outcome inner α}
    {next : α → Token → (rest : List Token) → Outcome rest β}
    (hinside : ∀ inner, inner.length < input.length → Holds (inside inner))
    (hvalue : ∀ inner, (inside inner).value.isSome)
    (hbrace : ∀ inner, EofFree inner → AtBrace (inside inner).rest)
    (hnext : ∀ value brace rest, Holds (next value brace rest)) :
    Holds (KCompiler.expecting eof (.punct .lbrace) input fun _ inner _ =>
      (inside inner).andThen fun value rest _ =>
        KCompiler.expecting eof (.punct .rbrace) rest fun brace rest _ => next value brace rest)

theorem statements_isSome {eof : Token} (scope : Scope) (inBlock : Bool) (input : List Token) :
    (statements eof scope inBlock input).value.isSome :=
  (statements_loop eof scope inBlock).isSome input

/-- Statements in braces end at the closing brace or with the input. -/
theorem StatementLoop.atBrace {α : Type} {loop : (input : List Token) → Outcome input (List α)}
    {parse : (input : List Token) → Outcome input α} (hloop : StatementLoop true loop parse)
    (input : List Token) (hinput : EofFree input) : AtBrace (loop input).rest := by
  intro token htoken
  have hmem := (loop input).suffix.mem (List.mem_of_mem_head? htoken)
  exact ((hloop.stopsStatements input token htoken).resolve_left (hinput token hmem)).1

theorem passesBy_skipNewlines (input : List Token) : PassesBy input (skipNewlines input) := by
  obtain ⟨breaks, hbreaks, hinput⟩ := exists_newlines input
  refine ⟨breaks, hinput, ?_⟩
  intro token htoken
  rw [hbreaks token htoken]
  rfl

theorem passesBy_of_afterElse? {input inner : List Token} (helse : afterElse? input = some inner) :
    PassesBy input inner := by
  obtain ⟨breaks, last, hbreaks, hlast, hinput⟩ := exists_of_afterElse? helse
  refine ⟨breaks ++ [last], by simpa using hinput, ?_⟩
  intro token htoken
  rcases List.mem_append.mp htoken with hbreak | hend
  · rw [hbreaks token hbreak]
    rfl
  · rw [List.mem_singleton.mp hend, hlast]
    rfl

/-! ## Tokens and findings apart from braces -/

section Apart

variable {token : Token} {kind : Kind}

theorem isBrace_of_ofToken? {base : Ty} (htoken : Ty.ofToken? token = some base) :
    token.kind.isBrace = false := by
  unfold Ty.ofToken? at htoken
  split at htoken
  case h_3 => cases htoken
  all_goals simp [*, Kind.isBrace]

theorem isBrace_of_opening {opening : Opening} (htoken : Opening.ofToken? token = some opening) :
    token.kind.isBrace = false := by
  unfold Kind.isBrace
  split
  next hkind => simp [Opening.ofToken?, Literal.ofToken?, hkind] at htoken
  next hkind => simp [Opening.ofToken?, Literal.ofToken?, hkind] at htoken
  next => rfl

theorem sparesBraces_of_literal {value : Literal} {findings : List Finding}
    (hvalue : Literal.ofToken? token = some (value, findings)) :
    ∀ finding ∈ findings, finding.SparesBraces := by
  unfold Literal.ofToken? at hvalue
  split at hvalue
  case h_7 => cases hvalue
  case h_1 | h_2 =>
    split at hvalue <;> cases hvalue <;> simp [Finding.SparesBraces]
  all_goals
    cases hvalue
    simp

theorem sparesBraces_of_opening {value : Literal} {findings : List Finding}
    (htoken : Opening.ofToken? token = some (.literal value findings)) :
    ∀ finding ∈ findings, finding.SparesBraces := by
  unfold Opening.ofToken? at htoken
  split at htoken
  next operator _ => cases hop : UnaryOp.leading? operator <;> simp [hop] at htoken
  next => cases htoken
  next => cases htoken
  next => cases htoken
  next =>
    obtain ⟨⟨literal, remarks⟩, hliteral, heq⟩ := Option.map_eq_some_iff.mp htoken
    cases heq
    exact sparesBraces_of_literal hliteral

theorem isBrace_of_continuation {continuation : Continuation}
    (hkind : Continuation.ofKind? kind = some continuation) : kind.isBrace = false := by
  unfold Kind.isBrace
  split
  next => cases hkind
  next => cases hkind
  next => rfl

theorem sparesBraces_expectedExpression (span : Span) (hkind : kind ≠ .punct .lbrace) :
    ∀ finding ∈ [(⟨.expectedExpression kind, span⟩ : Finding)], finding.SparesBraces := by
  simpa [Finding.SparesBraces] using hkind

theorem isBrace_of_modifier {modifier : Modifier}
    (hkind : Modifier.ofKind? kind = some modifier) : kind.isBrace = false := by
  unfold Kind.isBrace
  split
  next => cases hkind
  next => cases hkind
  next => rfl

theorem sparesBraces_repetition (modifiers : Modifiers) (modifier : Modifier) (token : Token) :
    ∀ finding ∈ repetition modifiers modifier token, finding.SparesBraces := by
  unfold repetition
  split <;> simp [Finding.SparesBraces]

theorem sparesBraces_refusals (modifiers : Modifiers) (scope : Scope) (kind : DeclKind)
    (start : Span) : ∀ finding ∈ refusals modifiers scope kind start, finding.SparesBraces := by
  simp [refusals, Finding.SparesBraces]

theorem sparesBraces_misplaced (modifiers : Modifiers) (kind : Kind) (start : Span) :
    ∀ finding ∈ misplaced modifiers kind start, finding.SparesBraces := by
  unfold misplaced
  split <;> simp [Finding.SparesBraces]

theorem sparesBraces_makeRecord (scope : Scope) (modifiers : Modifiers) (start finish : Span)
    (type : Ty) (members : List Member) :
    ∀ finding ∈ (makeRecord scope modifiers start finish type members).2,
      finding.SparesBraces := by
  unfold makeRecord
  rw [List.forall_mem_append]
  refine ⟨?_, sparesBraces_refusals _ _ _ _⟩
  split <;> simp [Finding.SparesBraces]

end Apart

end KCompiler
