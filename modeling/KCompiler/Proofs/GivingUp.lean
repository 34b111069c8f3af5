import KCompiler.Proofs.Completeness.Expression
import KCompiler.Proofs.Diagnosis.Reporting
import KCompiler.Proofs.Failure

/-! # No parser gives up in silence

Wherever a parser is called in a list of tokens, and whatever has been reported before: if it gives
up, it has reported an error itself. An operand is the one thing that is never given up; where a
token begins none, something stands in for it, and that is reported exactly once.
-/

namespace KCompiler

open Outcome

/-! ## Calls -/

/-- Goes on behind the keyword that a parser begins with. -/
def fromKeyword {α : Type} (eof : Token) (keyword : Kind) (input : List Token)
    (parser : (rest : List Token) → Outcome rest α) : Outcome input α :=
  expecting eof keyword input fun _ rest _ => parser rest

/-- What lists are made of. -/
inductive Item where
  | type
  | name
  | parameter
  | argument

namespace Item

abbrev Value : Item → Type
  | .type => Ty
  | .name => String
  | .parameter => VariableDecl
  | .argument => Expr

def parse (eof : Token) (input : List Token) : (item : Item) → Outcome input item.Value
  | .type => typeExpr eof input
  | .name => (expect eof .identifier input).map Token.text
  | .parameter => KCompiler.parameter eof input
  | .argument => expression eof 0 input

end Item

/-- The calls of parsers that can give up. Those of declarations take the modifiers read before, and
where these begin. -/
inductive Call where
  | expect (kind : Kind)
  | statement (scope : Scope)
  | variableDecl (scope : Scope) (modifiers : Modifiers) (start : Span)
  | binding (scope : Scope) (modifiers : Modifiers) (start : Span)
  | record (scope : Scope) (modifiers : Modifiers) (start : Span)
  | function (scope : Scope) (modifiers : Modifiers) (start : Span)
  | typeAlias
  | branch
  | loop
  | block
  | typeExpr
  | expression (least : Nat)
  | operand
  /-- What stands behind a name: type arguments and arguments, if there are any. -/
  | application (name : String)
  | list (closing : Kind) (item : Item)

namespace Call

abbrev Value : Call → Type
  | .expect _ => Token
  | .variableDecl _ _ _ | .binding _ _ _ => VariableDecl
  | .function _ _ _ => FunctionDecl
  | .statement _ | .record _ _ _ | .typeAlias | .branch | .loop => Stmt
  | .block => List Stmt
  | .typeExpr => Ty
  | .expression _ | .operand | .application _ => Expr
  | .list _ item => List item.Value

/-- What a call makes of its input. A parser of a statement with a keyword begins at the keyword. -/
def run (eof : Token) (input : List Token) : (call : Call) → Outcome input call.Value
  | .expect kind => KCompiler.expect eof kind input
  | .statement scope => KCompiler.statement eof scope input
  | .variableDecl scope modifiers start => KCompiler.variableDecl eof scope modifiers start input
  | .binding scope modifiers start => KCompiler.binding eof scope modifiers start input
  | .record scope modifiers start =>
    fromKeyword eof (.keyword .record) input (KCompiler.record eof scope modifiers start)
  | .function scope modifiers start =>
    fromKeyword eof (.keyword .fx) input (KCompiler.function eof scope modifiers start)
  | .typeAlias => fromKeyword eof (.keyword .alias) input (KCompiler.typeAlias eof)
  | .branch => fromKeyword eof (.keyword .if) input (KCompiler.branch eof)
  | .loop => fromKeyword eof (.keyword .while) input fun rest =>
    (KCompiler.expression eof 0 rest).andThen fun condition rest _ =>
      (KCompiler.block eof rest).map (Stmt.loop condition)
  | .block => KCompiler.block eof input
  | .typeExpr => KCompiler.typeExpr eof input
  | .expression least => KCompiler.expression eof least input
  | .operand => KCompiler.operand eof input
  | .application name =>
    (typeArguments eof input).andThen fun typeArgs rest _ =>
      (delimited eof (.punct .lparen) (.punct .rparen) rest fun inner _ =>
        KCompiler.expression eof 0 inner).map (Expr.ofName name typeArgs)
  | .list closing item => listOf closing input fun inner _ => item.parse eof inner

end Call

section Calls

variable {eof token : Token} {rest : List Token} {scope : Scope} {modifiers : Modifiers}
  {start : Span}

theorem fromKeyword_of_kind {α : Type} {keyword : Kind} (hkind : token.kind = keyword)
    (parser : (rest : List Token) → Outcome rest α) :
    fromKeyword eof keyword (token :: rest) parser = (parser rest).behind token :=
  expecting_of_kind hkind

/-- A statement that begins with a keyword is read by the call for it. -/
theorem unmodifiedStatement_eq_run :
    (token.kind = .keyword .record → unmodifiedStatement eof scope modifiers start (token :: rest) =
      (Call.record scope modifiers start).run eof (token :: rest)) ∧
    (token.kind = .keyword .alias → unmodifiedStatement eof scope modifiers start (token :: rest) =
      (Call.typeAlias.run eof (token :: rest)).reporting
        (misplaced modifiers (.keyword .alias) start)) ∧
    (token.kind = .keyword .if → unmodifiedStatement eof scope modifiers start (token :: rest) =
      (Call.branch.run eof (token :: rest)).reporting (misplaced modifiers (.keyword .if) start)) ∧
    (token.kind = .keyword .while → unmodifiedStatement eof scope modifiers start (token :: rest) =
      (Call.loop.run eof (token :: rest)).reporting (misplaced modifiers (.keyword .while) start)) ∧
    (token.kind = .keyword .fx → unmodifiedStatement eof scope modifiers start (token :: rest) =
      ((Call.function scope modifiers start).run eof (token :: rest)).map Stmt.function) := by
  refine ⟨?_, ?_, ?_, ?_, ?_⟩
  all_goals
    intro hkind
    rw [unmodifiedStatement_cons, Call.run, fromKeyword_of_kind hkind]
    simp only [hkind]
  -- Only the function is made a statement behind its call.
  rfl

/-- An operand that begins with a name is read by the call for what stands behind the name. -/
theorem operand_eq_run {name : String} (hname : Opening.ofToken? token = some (.name name)) :
    operand eof (token :: rest) = ((Call.application name).run eof rest).behind token := by
  rw [operand_cons, hname]
  rfl

end Calls

/-! ## Giving up -/

theorem fromKeyword_loud {α : Type} {eof : Token} {keyword : Kind} {input : List Token}
    {parser : (rest : List Token) → Outcome rest α} (hparser : ∀ rest, (parser rest).Loud) :
    (fromKeyword eof keyword input parser).Loud :=
  expecting_loud fun _ rest _ => hparser rest

theorem Item.parse_loud (eof : Token) (input : List Token) (item : Item) :
    (item.parse eof input).Loud := by
  have invariant := Invariant.loud eof
  cases item with
  | type => exact invariant.typeExpr_holds input
  | name => exact (expect_loud eof .identifier input).map _
  | parameter => exact invariant.parameter_holds input
  | argument => exact invariant.expression_holds 0 input

theorem Call.run_loud (eof : Token) (input : List Token) (call : Call) :
    (call.run eof input).Loud := by
  have invariant := Invariant.loud eof
  -- A call adds no more to the parsers of the invariant than a keyword, reported if it is missing.
  cases call with
  | expect kind => exact expect_loud eof kind input
  | statement scope => exact invariant.statement_holds scope input
  | variableDecl scope modifiers start =>
      exact invariant.variableDecl_holds scope modifiers start input
  | binding scope modifiers start => exact invariant.binding_holds scope modifiers start input
  | record scope modifiers start =>
      exact fromKeyword_loud (invariant.record_holds scope modifiers start)
  | function scope modifiers start =>
      exact fromKeyword_loud (invariant.function_holds scope modifiers start)
  | typeAlias => exact fromKeyword_loud invariant.typeAlias_holds
  | branch => exact fromKeyword_loud invariant.branch_holds
  | loop =>
      refine fromKeyword_loud fun rest => (invariant.expression_holds 0 rest).andThen ?_
      intro condition rest _
      exact (invariant.block_holds rest).map _
  | block => exact invariant.block_holds input
  | typeExpr => exact invariant.typeExpr_holds input
  | expression least => exact invariant.expression_holds least input
  | operand => exact invariant.operand_holds input
  | application name =>
      refine (invariant.typeArguments_holds input).andThen ?_
      intro typeArgs rest _
      refine Loud.map (invariant.delimited_holds rfl rfl ?_) _
      exact fun inner _ => invariant.expression_holds 0 inner
  | list closing item => exact invariant.listOf_holds fun inner _ => item.parse_loud eof inner

/-! ## Missing operands -/

section Missing

variable {eof token : Token} {input : List Token}

theorem ofToken?_of_not_startsOperand (hkind : token.kind.startsOperand = false) :
    Opening.ofToken? token = none := by
  simp only [Kind.startsOperand, Kind.startsPrimary, Bool.or_eq_false_iff] at hkind
  obtain ⟨⟨hexpression, hbuiltin⟩, hleading⟩ := hkind
  unfold Opening.ofToken?
  split
  next operator hop => simpa [hop, Ladder.leadingOf?] using hleading
  next hname => simp [hname, Kind.startsExpression] at hexpression
  next hname => simp [hname, Kind.isBuiltin] at hbuiltin
  next hgroup => simp [hgroup, Kind.startsExpression] at hexpression
  next =>
    rw [Option.map_eq_none_iff]
    cases hliteral : Literal.ofToken? token with
    | none => rfl
    | some found =>
        rw [Literal.startsExpression_of_ofToken? hliteral] at hexpression
        cases hexpression

/-- Where no operand begins, nothing but that is reported. -/
theorem operand_of_not_startsOperand
    (hkind : (peek eof input).kind.startsOperand = false) :
    (operand eof input).value = some .placeholder ∧
      (operand eof input).findings =
        [⟨.expectedExpression (peek eof input).kind, (peek eof input).span⟩] := by
  cases input with
  | nil =>
      rw [operand_nil]
      exact ⟨rfl, rfl⟩
  | cons token rest =>
      have hnone : Opening.ofToken? token = none := ofToken?_of_not_startsOperand hkind
      rw [operand_cons, hnone]
      dsimp only
      -- Whether the token is passed over makes no difference to the report.
      split <;> exact ⟨rfl, rfl⟩

end Missing

/-- Wherever in a list of tokens a parser is called, and whatever its collector holds: if it gives
up, it has passed an error to the collector, and where no operand begins exactly one diagnostic is
passed for the one that is missing. -/
theorem gives_up_aloud (tokens : List Token) (cursor : Nat) (diagnostics : Diagnostics) :
    let eof := endToken tokens
    let input := tokens.drop cursor
    (∀ call : Call, (call.run eof input).value = none →
      (∃ finding ∈ (call.run eof input).findings, finding.diagnostic.level = .error) ∧
        (diagnostics.note (call.run eof input).findings).hasErrors) ∧
    ((peek eof input).kind.startsOperand = false →
      (operand eof input).value = some .placeholder ∧
        (operand eof input).findings.map (·.diagnostic.code) = [some "P003"]) := by
  intro eof input
  constructor
  · intro call hnone
    obtain ⟨finding, hmem, herror⟩ := call.run_loud eof input hnone
    refine ⟨⟨finding, hmem, eq_of_beq herror⟩, ?_⟩
    rw [Diagnostics.note, Diagnostics.hasErrors_reportAll, Bool.or_eq_true, List.any_map]
    exact .inr (List.any_eq_true.mpr ⟨finding, hmem, herror⟩)
  · intro hkind
    obtain ⟨hvalue, hfindings⟩ := operand_of_not_startsOperand hkind
    rw [hfindings]
    exact ⟨hvalue, rfl⟩

/-- A parameter without a type: the whole function is given up, and no operand begins where the type
is missing. -/
theorem gives_up_aloud_parameter :
    let tokens := (lex "fx f(x: , y)").tokens
    let eof := endToken tokens
    let outcome := (Call.function .topLevel .empty default).run eof (tokens.drop 0)
    (outcome.value = none ∧ (∃ finding ∈ outcome.findings, finding.diagnostic.level = .error) ∧
      (Diagnostics.empty.note outcome.findings).hasErrors) ∧
    (peek eof (tokens.drop 5)).kind.startsOperand = false ∧
      (operand eof (tokens.drop 5)).value = some .placeholder ∧
      (operand eof (tokens.drop 5)).findings.map (·.diagnostic.code) = [some "P003"] := by
  have hnone : ((Call.function .topLevel .empty default).run
      (endToken (lex "fx f(x: , y)").tokens)
      ((lex "fx f(x: , y)").tokens.drop 0)).value = none := by
    with_unfolding_all rfl
  have hkind : (peek (endToken (lex "fx f(x: , y)").tokens)
      ((lex "fx f(x: , y)").tokens.drop 5)).kind.startsOperand = false := by
    decide +kernel
  intro tokens eof outcome
  exact ⟨⟨hnone, (gives_up_aloud tokens 0 .empty).1 (.function .topLevel .empty default) hnone⟩,
    hkind, (gives_up_aloud tokens 5 .empty).2 hkind⟩

end KCompiler
