import KCompiler.Parse.Program

/-! # Complete records

What is recorded of every parser, one step at a time. Each of the nine routines leaves exactly one
activation, and inside of it what its own steps leave; a turn of one of the four loops that is
followed by another is noted before what the next turn leaves; and what stands between, such as a
parameter or the header of a function, leaves all that is recorded of its parts.
-/

namespace KCompiler

namespace Traced

variable {input inner : List Token} {α β : Type}

theorem length_rest_le (traced : Traced input α) : traced.outcome.rest.length ≤ input.length :=
  traced.outcome.length_rest_le

/-- The run of a parser and, unless it gave up, the run of what goes on behind it. -/
def runsThen (traced : Traced input α)
    (next : α → (rest : List Token) → rest.length ≤ input.length → List Run) : List Run :=
  traced.runs ++
    match traced.outcome.value with
    | none => []
    | some value => next value traced.outcome.rest traced.length_rest_le

/-- The run of what goes on behind an expected token, if there is one. -/
def runsBehind (eof : Token) (kind : Kind) (input : List Token)
    (next : Token → List Token → List Run) : List Run :=
  match (expect eof kind input).value with
  | none => []
  | some token => next token (expect eof kind input).rest

@[simp] theorem runsThen_nil (traced : Traced input α) :
    (traced.runsThen fun _ _ _ => []) = traced.runs := by
  unfold runsThen
  cases traced.outcome.value <;> simp

@[simp] theorem runsBehind_nil (eof : Token) (kind : Kind) :
    (runsBehind eof kind input fun _ _ => []) = [] := by
  unfold runsBehind
  cases (expect eof kind input).value <;> rfl

section Combinators

variable (outcome : Outcome input α) (traced : Traced input α)

@[simp] theorem runs_silent : (silent outcome).runs = [] := rfl

@[simp] theorem runs_map (f : α → β) : (traced.map f).runs = traced.runs := rfl

@[simp] theorem runs_reporting (findings : List Finding) :
    (traced.reporting findings).runs = traced.runs := rfl

@[simp] theorem runs_within (hsuffix : inner <:+ input) (traced : Traced inner α) :
    (traced.within hsuffix).runs = traced.runs := rfl

@[simp] theorem runs_behind (token : Token) : (traced.behind token).runs = traced.runs := rfl

@[simp] theorem runs_andThen
    (next : α → (rest : List Token) → rest.length ≤ input.length → Traced rest β) :
    (traced.andThen next).runs =
      traced.runsThen fun value rest hlength => (next value rest hlength).runs := by
  dsimp only [andThen, runsThen]
  cases traced.outcome.value <;> simp

@[simp] theorem runs_expecting (eof : Token) (kind : Kind)
    (next : Token → (rest : List Token) → Traced rest α) :
    (expecting eof kind input fun token rest _ => next token rest).runs =
      runsBehind eof kind input fun token rest => (next token rest).runs := by
  unfold runsBehind
  cases hvalue : (expect eof kind input).value with
  | none => rw [expecting_of_none _ hvalue]
  | some token =>
      rw [expecting_of_some _ hvalue]
      rfl

@[simp] theorem runs_entering (routine : Routine) :
    (traced.entering routine).runs = [.call routine input traced.outcome.rest traced.runs] := rfl

@[simp] theorem runs_turning (loop : Loop) (start : List Token) :
    (traced.turning loop start).runs = .turn loop start input :: traced.runs := rfl

end Combinators

end Traced

/-- The records leave out no activation and no turn. -/
structure Complete (eof : Token) : Prop where
  runs_list {α : Type} (closing : Kind) (input : List Token)
    (item : (inner : List Token) → inner.length ≤ input.length → Traced inner α) :
    (Traced.listOf closing input item).runs =
      [.call .list input (Traced.listOf closing input item).outcome.rest
        (Traced.itemsOf closing (skipNewlines input) fun inner hinner =>
          item inner (length_le_of_skipNewlines hinner)).runs]
  runs_items {α : Type} (closing : Kind) (token : Token) (tokens : List Token)
    (item : (inner : List Token) → inner.length ≤ (token :: tokens).length → Traced inner α) :
    (Traced.itemsOf closing (token :: tokens) item).runs =
      if token.kind = closing ∨ token.kind = .eof then []
      else
        (item (token :: tokens) (Nat.le_refl _)).runsThen fun _ rest hrest =>
          match rest with
          | [] => []
          | comma :: more =>
            if comma.kind = .punct .comma then
              .turn .items (token :: tokens) (skipNewlines more) ::
                (Traced.itemsOf closing (skipNewlines more) fun inner hinner =>
                  item inner (length_le_behind_comma hrest hinner)).runs
            else []
  runs_delimited {α : Type} (opening closing : Kind) (token : Token) (rest : List Token)
    (item : (inner : List Token) → inner.length < (token :: rest).length → Traced inner α) :
    (Traced.delimited eof opening closing (token :: rest) item).runs =
      if token.kind = opening then
        (Traced.listOf closing rest fun inner hinner => item inner (length_lt_cons hinner)).runs
      else []
  runs_type (input : List Token) :
    (Traced.typeExpr eof input).runs =
      [.call .type input (typeExpr eof input).rest
        (match input with
        | [] => []
        | token :: rest =>
          if (Ty.ofToken? token).isSome then (Traced.typeArguments eof rest).runs else [])]
  runs_typeArguments (input : List Token) :
    (Traced.typeArguments eof input).runs =
      (Traced.delimited eof (.punct .lbracket) (.punct .rbracket) input fun inner _ =>
        Traced.typeExpr eof inner).runs
  runs_expression (least : Nat) (input : List Token) :
    (Traced.expression eof least input).runs =
      [.call .expression input (expression eof least input).rest
        ((Traced.operand eof input).runsThen fun first rest _ =>
          (Traced.operators eof least unboundedPower first rest).runs)]
  runs_operand (input : List Token) :
    (Traced.operand eof input).runs =
      [.call .operand input (operand eof input).rest
        (match input with
        | [] => []
        | token :: rest =>
          match Opening.ofToken? token with
          | some (.leading _) => (Traced.expression eof leadingPower rest).runs
          | some (.name _) =>
            (Traced.typeArguments eof rest).runsThen fun _ rest _ =>
              (Traced.delimited eof (.punct .lparen) (.punct .rparen) rest fun inner _ =>
                Traced.expression eof 0 inner).runs
          | some .group => (Traced.expression eof 0 (skipNewlines rest)).runs
          | some (.literal _ _) | none => [])]
  runs_operators (least most : Nat) (first : Expr) (token : Token) (rest : List Token) :
    (Traced.operators eof least most first (token :: rest)).runs =
      match Continuation.ofKind? token.kind with
      | some (.trailing op) =>
        if least ≤ trailingPower ∧ trailingPower ≤ most then
          .turn .operators (token :: rest) rest ::
            (Traced.operators eof least most (.unary op .behind first) rest).runs
        else []
      | some .cast =>
        if least ≤ castPower then
          (Traced.typeExpr eof rest).runsThen fun target behind _ =>
            .turn .operators (token :: rest) behind ::
              (Traced.operators eof least castPower (.cast first target) behind).runs
        else []
      | some (.binary op) =>
        if least ≤ op.powers.1 ∧ op.powers.1 ≤ most then
          (Traced.expression eof op.powers.2 rest).runsThen fun second behind _ =>
            .turn .operators (token :: rest) behind ::
              (Traced.operators eof least (min most op.powers.1) (.binary op first second)
                behind).runs
        else []
      | none => []
  runs_binding (scope : Scope) (modifiers : Modifiers) (start : Span) (input : List Token) :
    (Traced.binding eof scope modifiers start input).runs =
      Traced.runsBehind eof .identifier input fun _ rest =>
      (Traced.silent (trailingMut modifiers rest)).runsThen fun _ rest _ =>
      Traced.runsBehind eof (.punct .colon) rest fun _ rest => (Traced.typeExpr eof rest).runs
  runs_initialValue (input : List Token) :
    (Traced.initialValue eof input).runs =
      match input with
      | [] => []
      | token :: rest =>
        if token.kind = .op .assign then (Traced.expression eof 0 rest).runs else []
  runs_variableDecl (scope : Scope) (modifiers : Modifiers) (start : Span) (input : List Token) :
    (Traced.variableDecl eof scope modifiers start input).runs =
      (Traced.binding eof scope modifiers start input).runsThen fun _ rest _ =>
        (Traced.initialValue eof rest).runs
  runs_parameter (input : List Token) :
    (Traced.parameter eof input).runs =
      (Traced.silent (modifierList .empty input)).runsThen fun modifiers rest _ =>
        (Traced.binding eof .parameter modifiers (peek eof input).span rest).runs
  runs_parameters (input : List Token) :
    (Traced.parameters eof input).runs =
      Traced.runsBehind eof (.punct .lparen) input fun _ rest =>
        (Traced.listOf (.punct .rparen) rest fun inner _ => Traced.parameter eof inner).runs
  runs_generics (input : List Token) :
    (Traced.generics eof input).runs =
      (Traced.delimited eof (.punct .lbracket) (.punct .rbracket) input fun inner _ =>
        .silent ((expect eof .identifier inner).map Token.text)).runs
  runs_returnType (input : List Token) :
    (Traced.returnType eof input).runs =
      match input with
      | [] => []
      | token :: rest =>
        if token.kind = .punct .colon then (Traced.typeExpr eof rest).runs else []
  runs_signature (scope : Scope) (modifiers : Modifiers) (input : List Token) :
    (Traced.signature eof scope modifiers input).runs =
      Traced.runsBehind eof .identifier input fun _ rest =>
      (Traced.generics eof rest).runsThen fun _ rest _ =>
      (Traced.parameters eof rest).runsThen fun _ rest _ => (Traced.returnType eof rest).runs
  runs_typeAlias (input : List Token) :
    (Traced.typeAlias eof input).runs = (Traced.typeExpr eof input).runs
  runs_statements (scope : Scope) (inBlock : Bool) (token : Token) (rest : List Token) :
    (Traced.statements eof scope inBlock (token :: rest)).runs =
      if token.kind.isBoundary then
        if token.kind = .eof ∨ token.kind = .punct .rbrace ∧ inBlock then []
        else
          .turn .statements (token :: rest) rest :: (Traced.statements eof scope inBlock rest).runs
      else
        let behind := (finishStatement (statement eof scope (token :: rest))).rest
        (Traced.statement eof scope (token :: rest)).runs ++
          .turn .statements (token :: rest) behind ::
            (Traced.statements eof scope inBlock behind).runs
  runs_statement (scope : Scope) (input : List Token) :
    (Traced.statement eof scope input).runs =
      [.call .statement input (statement eof scope input).rest
        ((Traced.silent (modifierList .empty input)).runsThen fun modifiers rest _ =>
          (Traced.unmodifiedStatement eof scope modifiers (peek eof input).span rest).runs)]
  runs_unmodifiedStatement (scope : Scope) (modifiers : Modifiers) (start : Span) (token : Token)
      (rest : List Token) :
    (Traced.unmodifiedStatement eof scope modifiers start (token :: rest)).runs =
      match token.kind with
      | .keyword .record =>
        [.call .record (token :: rest) (record eof scope modifiers start rest).rest
          (Traced.record eof scope modifiers start rest).runs]
      | .keyword .fx =>
        [.call .function (token :: rest) (function eof scope modifiers start rest).rest
          (Traced.function eof scope modifiers start rest).runs]
      | .keyword .alias => (Traced.typeAlias eof rest).runs
      | .keyword .if =>
        [.call .branch (token :: rest) (branch eof rest).rest (Traced.branch eof rest).runs]
      | .keyword .while =>
        (Traced.expression eof 0 rest).runsThen fun _ rest _ => (Traced.block eof rest).runs
      | .keyword .defer => (Traced.block eof rest).runs
      | .keyword .break => []
      | .keyword .continue => []
      | _ =>
        if startsVariable (token :: rest) then
          (Traced.variableDecl eof scope modifiers start (token :: rest)).runs
        else (Traced.expression eof 0 (token :: rest)).runs
  runs_noStatement (scope : Scope) (modifiers : Modifiers) (start : Span) :
    (Traced.unmodifiedStatement eof scope modifiers start []).runs =
      (Traced.expression eof 0 []).runs
  runs_members (token : Token) (rest : List Token) :
    (Traced.members eof (token :: rest)).runs =
      if token.kind.isBoundary then
        if token.kind = .eof ∨ token.kind = .punct .rbrace then []
        else .turn .members (token :: rest) rest :: (Traced.members eof rest).runs
      else
        let behind := (finishStatement (member eof (token :: rest))).rest
        (Traced.member eof (token :: rest)).runs ++
          .turn .members (token :: rest) behind :: (Traced.members eof behind).runs
  runs_member (input : List Token) :
    (Traced.member eof input).runs =
      (Traced.silent (modifierList .empty input)).runsThen fun modifiers rest _ =>
        let start := (peek eof input).span
        match rest with
        | [] => (Traced.variableDecl eof .field modifiers start []).runs
        | token :: tokens =>
          if token.kind = .keyword .fx then
            [.call .function (token :: tokens) (function eof .method modifiers start tokens).rest
              (Traced.function eof .method modifiers start tokens).runs]
          else (Traced.variableDecl eof .field modifiers start (token :: tokens)).runs
  runs_record (scope : Scope) (modifiers : Modifiers) (start : Span) (input : List Token) :
    (Traced.record eof scope modifiers start input).runs =
      (Traced.typeExpr eof input).runsThen fun _ rest _ =>
      Traced.runsBehind eof (.punct .lbrace) (skipNewlines rest) fun _ inner =>
        (Traced.members eof inner).runs
  runs_function (scope : Scope) (modifiers : Modifiers) (start : Span) (input : List Token) :
    (Traced.function eof scope modifiers start input).runs =
      (Traced.signature eof scope modifiers input).runsThen fun _ rest _ =>
        (Traced.block eof rest).runs
  runs_branch (input : List Token) :
    (Traced.branch eof input).runs =
      (Traced.expression eof 0 input).runsThen fun _ rest _ =>
      (Traced.block eof rest).runsThen fun _ rest _ =>
        match afterElse? rest with
        | none => []
        | some inner => (Traced.otherwise eof inner).runs
  runs_otherwise (input : List Token) :
    (Traced.otherwise eof input).runs =
      match input with
      | [] => (Traced.block eof []).runs
      | token :: rest =>
        if token.kind = .keyword .if then
          [.call .branch (token :: rest) (branch eof rest).rest (Traced.branch eof rest).runs]
        else (Traced.block eof (token :: rest)).runs
  runs_block (input : List Token) :
    (Traced.block eof input).runs =
      [.call .block input (block eof input).rest
        (Traced.runsBehind eof (.punct .lbrace) (skipNewlines input) fun _ inner =>
          (Traced.statements eof .block true inner).runs)]
  runs_module (input : List Token) :
    (Recorded.readModule eof input).runs =
      match (moduleHeader eof (skipNewlines input)).value with
      | none => []
      | some _ =>
        (Traced.statements eof .topLevel false (moduleHeader eof (skipNewlines input)).rest).runs
  runs_alone (input : List Token) :
    (Recorded.readExpression eof input).runs =
      (Traced.expression eof 0 (skipNewlines input)).runs

theorem complete (eof : Token) : Complete eof where
  runs_list closing input item := rfl
  runs_items closing token tokens item := by
    rw [Traced.itemsOf]
    split
    · rfl
    · rw [Traced.runs_andThen]
      congr 1
      funext first rest hrest
      cases rest with
      | nil => rfl
      | cons comma more =>
          simp only
          split <;> rfl
  runs_delimited opening closing token rest item := by
    rw [Traced.delimited]
    split <;> simp
  runs_type input := by
    rw [typeExpr, Traced.typeExpr.eq_def]
    cases input with
    | nil => rfl
    | cons token rest =>
        cases htoken : Ty.ofToken? token <;> simp [htoken, Traced.typeArguments]
  runs_typeArguments input := rfl
  runs_expression least input := by
    rw [expression, Traced.expression]
    simp
  runs_operand input := by
    rw [operand, Traced.operand.eq_def]
    cases input with
    | nil => rfl
    | cons token rest =>
        dsimp only
        cases Opening.ofToken? token with
        | none =>
            dsimp only
            split <;> rfl
        | some opening => cases opening <;> simp
  runs_operators least most first token rest := by
    rw [Traced.operators]
    cases Continuation.ofKind? token.kind with
    | none => rfl
    | some continuation => cases continuation <;> simp only <;> split <;> simp
  runs_binding scope modifiers start input := by simp [Traced.binding]
  runs_initialValue input := by
    cases input with
    | nil => rfl
    | cons token rest =>
        rw [Traced.initialValue]
        simp only
        split <;> rfl
  runs_variableDecl scope modifiers start input := by simp [Traced.variableDecl]
  runs_parameter input := by simp [Traced.parameter]
  runs_parameters input := by simp [Traced.parameters]
  runs_generics input := rfl
  runs_returnType input := by
    cases input with
    | nil => rfl
    | cons token rest =>
        rw [Traced.returnType]
        simp only
        split <;> rfl
  runs_signature scope modifiers input := by simp [Traced.signature]
  runs_typeAlias input := by simp [Traced.typeAlias]
  runs_statements scope inBlock token rest := by
    rw [Traced.statements]
    split
    · split <;> rfl
    · rfl
  runs_statement scope input := by
    rw [statement, Traced.statement]
    simp
  runs_unmodifiedStatement scope modifiers start token rest := by
    rw [Traced.unmodifiedStatement]
    cases token.kind with
    | keyword word =>
        cases word with
        | record | fx | «alias» | «if» | defer | «break» | «continue» => rfl
        | «while» => simp
        | _ =>
            dsimp only
            split <;> rfl
    | _ =>
        dsimp only
        split <;> rfl
  runs_noStatement scope modifiers start := by
    rw [Traced.unmodifiedStatement]
    rfl
  runs_members token rest := by
    rw [Traced.members]
    split
    · split <;> rfl
    · rfl
  runs_member input := by
    rw [Traced.member, Traced.runs_andThen]
    congr 1
    funext modifiers rest _
    cases rest with
    | nil => rfl
    | cons token tokens =>
        simp only
        split <;> rfl
  runs_record scope modifiers start input := by
    rw [Traced.record]
    simp
  runs_function scope modifiers start input := by
    rw [Traced.function]
    simp
  runs_branch input := by
    rw [Traced.branch]
    simp only [Traced.runs_andThen]
    congr 1
    funext condition rest _
    congr 1
    funext body rest _
    unfold Traced.onElse
    split
    next hnone => simp [hnone]
    next inner helse => simp [helse]
  runs_otherwise input := by
    cases input with
    | nil => rw [Traced.otherwise]
    | cons token rest =>
        rw [Traced.otherwise]
        simp only
        split <;> rfl
  runs_block input := by
    rw [block, Traced.block]
    simp
  runs_module input := by
    dsimp only [Recorded.readModule]
    cases (moduleHeader eof (skipNewlines input)).value <;> rfl
  runs_alone input := rfl

end KCompiler
