import KCompiler.Parse.Declaration

/-! # Parsing statements

Statements stand behind each other at the top of a file and inside braces. A broken
statement is reported, left out, and skipped to its end; the ones around it are not
affected.
-/

namespace KCompiler

/-- The tokens behind an `else`, which may stand some lines below. -/
def afterElse? (input : List Token) : Option (List Token) :=
  match skipNewlines input with
  | [] => none
  | token :: rest => if token.kind = .keyword .else then some rest else none

theorem afterElse?_suffix {input rest : List Token} (helse : afterElse? input = some rest) :
    rest <:+ input ∧ rest.length < input.length := by
  unfold afterElse? at helse
  have hnewlines := skipNewlines_suffix input
  split at helse
  next => simp at helse
  next token tail heq =>
    split at helse
    next =>
      obtain rfl : tail = rest := by simpa using helse
      rw [heq] at hnewlines
      have hlength := hnewlines.length_le
      simp only [List.length_cons] at hlength
      exact ⟨(List.suffix_cons token tail).trans hnewlines, by omega⟩
    next => simp at helse

/-- What a statement that takes no modifiers is, by the token it begins with. -/
def Unmodified.ofKind : Kind → Unmodified
  | .keyword .alias => .typeAlias
  | .keyword .if => .branch
  | .keyword .while => .loop
  | .keyword .defer => .defer
  | .keyword .break | .keyword .continue => .loopControl
  | _ => .expression

/-- What there is to say about modifiers before a statement that takes none. -/
def misplaced (modifiers : Modifiers) (kind : Kind) (start : Span) : List Finding :=
  if modifiers.isEmpty then []
  else [⟨.misplacedModifiers modifiers (.ofKind kind), start⟩]

/-- A member of a record. -/
inductive Member where
  | field (decl : VariableDecl)
  | method (decl : FunctionDecl)

def Member.field? : Member → Option VariableDecl
  | .field decl => some decl
  | .method _ => none

def Member.method? : Member → Option FunctionDecl
  | .field _ => none
  | .method decl => some decl

/-- A record with its members, and a remark if there are none. -/
def makeRecord (scope : Scope) (modifiers : Modifiers) (start finish : Span) (type : Ty)
    (members : List Member) : Stmt × List Finding :=
  let remark := if members.isEmpty then [⟨.emptyRecord type.text, start.join finish⟩] else []
  (.record
      { type, fields := members.filterMap Member.field?,
        modifiers := modifiers.allowed scope .record, scope }
      (members.filterMap Member.method?),
    remark ++ refusals modifiers scope .record start)

/-- A declaration that has been checked, or an error where it begins. -/
def accepted {input : List Token} {α : Type} (start : Span) (checked : Except ModifierError α) :
    Outcome input α :=
  match checked with
  | .ok decl => .done decl
  | .error error => Outcome.failed.reporting [⟨.refusedModifier error, start⟩]

namespace Traced

variable {α : Type}

/-- Chooses by whether an `else` stands ahead. -/
def onElse {β : Type} (rest : List Token) (without : β)
    (behind : (inner : List Token) → afterElse? rest = some inner → β) : β :=
  match helse : afterElse? rest with
  | none => without
  | some inner => behind inner helse

/-- Takes a statement or a member in a turn of its loop, and goes on behind it. -/
def thenTurn {token : Token} {rest : List Token} (loop : Loop) (parsed : Traced (token :: rest) α)
    (more : (behind : List Token) → behind = (finishStatement parsed.outcome).rest →
      Traced behind (List α)) : Traced (token :: rest) (List α) :=
  let finished := finishStatement parsed.outcome
  let next := (more finished.rest rfl).turning loop (token :: rest)
  ⟨((next.outcome.map fun items => finished.value.join.toList ++ items).reporting
      finished.findings).within finished.suffix, parsed.runs ++ next.runs⟩

mutual
/-- Parses statements to the end of the input or, in a block, to its closing brace, which
is left to the caller. -/
def statements (eof : Token) (scope : Scope) (inBlock : Bool) (input : List Token) :
    Traced input (List Stmt) :=
  match input with
  | [] => silent (.done [])
  | token :: rest =>
    if _hboundary : token.kind.isBoundary then
      if token.kind = .eof ∨ token.kind = .punct .rbrace ∧ inBlock then silent (.done [])
      else
        ((turning .statements (token :: rest) <| statements eof scope inBlock rest).reporting
          (if token.kind = .punct .rbrace then [⟨.strayBrace, token.span⟩] else [])).behind token
    else
      thenTurn .statements (statement eof scope (token :: rest)) fun behind _hbehind =>
        statements eof scope inBlock behind
termination_by 6 * input.length + 5
decreasing_by
  · simp only [List.length_cons]; omega
  · omega
  · have hinner : token.kind.isBoundary = false := by simpa using _hboundary
    rw [_hbehind]
    exact Nat.add_lt_add_right
      (Nat.mul_lt_mul_of_pos_left (length_finishStatement_lt hinner _) (by decide)) 5

/-- Parses a statement with its modifiers. -/
def statement (eof : Token) (scope : Scope) (input : List Token) : Traced input Stmt :=
  entering .statement <|
  (silent (modifierList .empty input)).andThen fun modifiers rest _ =>
  unmodifiedStatement eof scope modifiers (peek eof input).span rest
termination_by 6 * input.length + 4
decreasing_by omega

/-- Parses a statement behind its modifiers, which begin at `start`. -/
def unmodifiedStatement (eof : Token) (scope : Scope) (modifiers : Modifiers) (start : Span)
    (input : List Token) : Traced input Stmt :=
  match input with
  | [] => ((expression eof 0 []).map Stmt.expr).reporting (misplaced modifiers .eof start)
  | token :: rest =>
    match token.kind with
    | .keyword .record => entering .record <| (record eof scope modifiers start rest).behind token
    | .keyword .fx =>
      (entering .function <| (function eof scope modifiers start rest).behind token).map
        Stmt.function
    | .keyword .alias =>
      ((typeAlias eof rest).behind token).reporting (misplaced modifiers token.kind start)
    | .keyword .if =>
      (entering .branch <| (branch eof rest).behind token).reporting
        (misplaced modifiers token.kind start)
    | .keyword .while =>
      (((expression eof 0 rest).andThen fun condition rest _ =>
        (block eof rest).map (Stmt.loop condition)).behind token).reporting
          (misplaced modifiers token.kind start)
    | .keyword .defer =>
      (((block eof rest).map Stmt.defer).behind token).reporting
        (misplaced modifiers token.kind start)
    | .keyword .break =>
      silent (((Outcome.done Stmt.break).behind token).reporting
        (misplaced modifiers token.kind start))
    | .keyword .continue =>
      silent (((Outcome.done Stmt.continue).behind token).reporting
        (misplaced modifiers token.kind start))
    | _ =>
      if startsVariable (token :: rest) then
        (variableDecl eof scope modifiers start (token :: rest)).map Stmt.variable
      else
        ((expression eof 0 (token :: rest)).map Stmt.expr).reporting
          (misplaced modifiers token.kind start)
termination_by 6 * input.length + 3
decreasing_by all_goals simp only [List.length_cons]; omega

/-- Parses the members of a record, up to its closing brace. -/
def members (eof : Token) (input : List Token) : Traced input (List Member) :=
  match input with
  | [] => silent (.done [])
  | token :: rest =>
    if _hboundary : token.kind.isBoundary then
      if token.kind = .eof ∨ token.kind = .punct .rbrace then silent (.done [])
      else (turning .members (token :: rest) <| members eof rest).behind token
    else
      thenTurn .members (member eof (token :: rest)) fun behind _hbehind => members eof behind
termination_by 6 * input.length + 5
decreasing_by
  · simp only [List.length_cons]; omega
  · omega
  · have hinner : token.kind.isBoundary = false := by simpa using _hboundary
    rw [_hbehind]
    exact Nat.add_lt_add_right
      (Nat.mul_lt_mul_of_pos_left (length_finishStatement_lt hinner _) (by decide)) 5

/-- Parses a field or a method with its modifiers. -/
def member (eof : Token) (input : List Token) : Traced input Member :=
  (silent (modifierList .empty input)).andThen fun modifiers rest _ =>
    let start := (peek eof input).span
    match rest with
    | [] => (variableDecl eof .field modifiers start []).map Member.field
    | token :: tokens =>
      if token.kind = .keyword .fx then
        (entering .function <| (function eof .method modifiers start tokens).behind token).map
          Member.method
      else (variableDecl eof .field modifiers start (token :: tokens)).map Member.field
termination_by 6 * input.length + 4
decreasing_by simp only [List.length_cons] at *; omega

/-- Parses a record behind its keyword. -/
def record (eof : Token) (scope : Scope) (modifiers : Modifiers) (start : Span)
    (input : List Token) : Traced input Stmt :=
  (typeExpr eof input).andThen fun type rest _ =>
  within (skipNewlines_suffix rest) <|
  expecting eof (.punct .lbrace) (skipNewlines rest) fun _ inner _ =>
  (members eof inner).andThen fun members rest _ =>
  expecting eof (.punct .rbrace) rest fun brace _ _ =>
    let (stmt, findings) := makeRecord scope modifiers start brace.span type members
    silent ((accepted start stmt.validate).reporting findings)
termination_by 6 * input.length + 2
decreasing_by
  have hnewlines := length_skipNewlines_le rest
  omega

/-- Parses a function behind its keyword. -/
def function (eof : Token) (scope : Scope) (modifiers : Modifiers) (start : Span)
    (input : List Token) : Traced input FunctionDecl :=
  (signature eof scope modifiers input).andThen fun signature rest _ =>
  (block eof rest).andThen fun body _ _ =>
    let decl : FunctionDecl :=
      ⟨{ signature with modifiers := modifiers.allowed scope .function }, body⟩
    silent ((accepted start decl.validate).reporting (refusals modifiers scope .function start))
termination_by 6 * input.length + 2
decreasing_by omega

/-- Parses an `if` statement behind its keyword. -/
def branch (eof : Token) (input : List Token) : Traced input Stmt :=
  (expression eof 0 input).andThen fun condition rest _ =>
  (block eof rest).andThen fun body rest _ =>
    onElse rest (silent (.done (.branch condition body none))) fun inner helse =>
      ((otherwise eof inner).map fun stmts =>
        Stmt.branch condition body (some stmts)).within (afterElse?_suffix helse).1
termination_by 6 * input.length + 2
decreasing_by
  · omega
  · have hless := (afterElse?_suffix helse).2
    omega

/-- Parses what stands behind an `else`: another `if` statement or a block. -/
def otherwise (eof : Token) (input : List Token) : Traced input (List Stmt) :=
  match input with
  | [] => block eof []
  | token :: rest =>
    if token.kind = .keyword .if then
      (entering .branch <| (branch eof rest).behind token).map fun stmt => [stmt]
    else block eof (token :: rest)
termination_by 6 * input.length + 2
decreasing_by all_goals simp only [List.length_cons, List.length_nil]; omega

/-- Parses statements in braces. -/
def block (eof : Token) (input : List Token) : Traced input (List Stmt) :=
  entering .block <|
  within (skipNewlines_suffix input) <|
  expecting eof (.punct .lbrace) (skipNewlines input) fun _ inner _ =>
  (statements eof .block true inner).andThen fun body rest _ =>
  expecting eof (.punct .rbrace) rest fun _ _ _ => silent (.done body)
termination_by 6 * input.length + 1
decreasing_by
  have hnewlines := length_skipNewlines_le input
  omega
end

end Traced

/-! ## Outcomes -/

def statements (eof : Token) (scope : Scope) (inBlock : Bool) (input : List Token) :
    Outcome input (List Stmt) :=
  (Traced.statements eof scope inBlock input).outcome

def statement (eof : Token) (scope : Scope) (input : List Token) : Outcome input Stmt :=
  (Traced.statement eof scope input).outcome

def unmodifiedStatement (eof : Token) (scope : Scope) (modifiers : Modifiers) (start : Span)
    (input : List Token) : Outcome input Stmt :=
  (Traced.unmodifiedStatement eof scope modifiers start input).outcome

def members (eof : Token) (input : List Token) : Outcome input (List Member) :=
  (Traced.members eof input).outcome

def member (eof : Token) (input : List Token) : Outcome input Member :=
  (Traced.member eof input).outcome

def record (eof : Token) (scope : Scope) (modifiers : Modifiers) (start : Span)
    (input : List Token) : Outcome input Stmt :=
  (Traced.record eof scope modifiers start input).outcome

def function (eof : Token) (scope : Scope) (modifiers : Modifiers) (start : Span)
    (input : List Token) : Outcome input FunctionDecl :=
  (Traced.function eof scope modifiers start input).outcome

def branch (eof : Token) (input : List Token) : Outcome input Stmt :=
  (Traced.branch eof input).outcome

def otherwise (eof : Token) (input : List Token) : Outcome input (List Stmt) :=
  (Traced.otherwise eof input).outcome

def block (eof : Token) (input : List Token) : Outcome input (List Stmt) :=
  (Traced.block eof input).outcome

section Equations

variable (eof token : Token) (scope : Scope) (inBlock : Bool) (modifiers : Modifiers)
  (start : Span) (input rest : List Token)

theorem statements_nil : statements eof scope inBlock [] = .done [] := by
  rw [statements, Traced.statements]
  rfl

theorem statements_cons :
    statements eof scope inBlock (token :: rest) =
      if token.kind.isBoundary then
        if token.kind = .eof ∨ token.kind = .punct .rbrace ∧ inBlock then .done []
        else
          ((statements eof scope inBlock rest).reporting
            (if token.kind = .punct .rbrace then [⟨.strayBrace, token.span⟩] else [])).behind token
      else
        let finished := finishStatement (statement eof scope (token :: rest))
        ((((statements eof scope inBlock finished.rest).map fun stmts =>
          finished.value.join.toList ++ stmts).reporting finished.findings).within
            finished.suffix) := by
  rw [statements, Traced.statements]
  split
  · split <;> rfl
  · rfl

theorem statement_def :
    statement eof scope input =
      (modifierList .empty input).andThen fun modifiers rest _ =>
      unmodifiedStatement eof scope modifiers (peek eof input).span rest := by
  rw [statement, Traced.statement, Traced.outcome_entering, Traced.outcome_andThen]
  rfl

theorem unmodifiedStatement_nil :
    unmodifiedStatement eof scope modifiers start [] =
      ((expression eof 0 []).map Stmt.expr).reporting (misplaced modifiers .eof start) := by
  rw [unmodifiedStatement, Traced.unmodifiedStatement]
  rfl

theorem unmodifiedStatement_cons :
    unmodifiedStatement eof scope modifiers start (token :: rest) =
      match token.kind with
      | .keyword .record => (record eof scope modifiers start rest).behind token
      | .keyword .fx => ((function eof scope modifiers start rest).map Stmt.function).behind token
      | .keyword .alias =>
        ((typeAlias eof rest).behind token).reporting (misplaced modifiers token.kind start)
      | .keyword .if => ((branch eof rest).behind token).reporting
        (misplaced modifiers token.kind start)
      | .keyword .while =>
        (((expression eof 0 rest).andThen fun condition rest _ =>
          (block eof rest).map (Stmt.loop condition)).behind token).reporting
            (misplaced modifiers token.kind start)
      | .keyword .defer =>
        (((block eof rest).map Stmt.defer).behind token).reporting
          (misplaced modifiers token.kind start)
      | .keyword .break =>
        ((Outcome.done Stmt.break).behind token).reporting (misplaced modifiers token.kind start)
      | .keyword .continue =>
        ((Outcome.done Stmt.continue).behind token).reporting (misplaced modifiers token.kind start)
      | _ =>
        if startsVariable (token :: rest) then
          (variableDecl eof scope modifiers start (token :: rest)).map Stmt.variable
        else
          ((expression eof 0 (token :: rest)).map Stmt.expr).reporting
            (misplaced modifiers token.kind start) := by
  rw [unmodifiedStatement, Traced.unmodifiedStatement]
  split
  case h_5 =>
    simp only [Traced.outcome_reporting, Traced.outcome_behind, Traced.outcome_andThen]
    rfl
  case h_9 => split <;> rfl
  all_goals rfl

theorem members_nil : members eof [] = .done [] := by
  rw [members, Traced.members]
  rfl

theorem members_cons :
    members eof (token :: rest) =
      if token.kind.isBoundary then
        if token.kind = .eof ∨ token.kind = .punct .rbrace then .done []
        else (members eof rest).behind token
      else
        let finished := finishStatement (member eof (token :: rest))
        ((((members eof finished.rest).map fun rest =>
          finished.value.join.toList ++ rest).reporting finished.findings).within
            finished.suffix) := by
  rw [members, Traced.members]
  split
  · split <;> rfl
  · rfl

theorem member_def :
    member eof input =
      (modifierList .empty input).andThen fun modifiers rest _ =>
        let start := (peek eof input).span
        match rest with
        | [] => (variableDecl eof .field modifiers start []).map Member.field
        | token :: tokens =>
          if token.kind = .keyword .fx then
            ((function eof .method modifiers start tokens).map Member.method).behind token
          else (variableDecl eof .field modifiers start (token :: tokens)).map Member.field := by
  rw [member, Traced.member, Traced.outcome_andThen, Traced.outcome_silent]
  congr 1
  funext modifiers rest _
  cases rest with
  | nil => rfl
  | cons token tokens =>
      simp only
      split <;> rfl

theorem record_def :
    record eof scope modifiers start input =
      (typeExpr eof input).andThen fun type rest _ =>
      Outcome.within (skipNewlines_suffix rest) <|
      expecting eof (.punct .lbrace) (skipNewlines rest) fun _ inner _ =>
      (members eof inner).andThen fun members rest _ =>
      expecting eof (.punct .rbrace) rest fun brace _ _ =>
        let (stmt, findings) := makeRecord scope modifiers start brace.span type members
        (accepted start stmt.validate).reporting findings := by
  rw [record, Traced.record]
  simp only [Traced.outcome_andThen, Traced.outcome_within, Traced.outcome_expecting]
  rfl

theorem function_def :
    function eof scope modifiers start input =
      (signature eof scope modifiers input).andThen fun signature rest _ =>
      (block eof rest).andThen fun body _ _ =>
        let decl : FunctionDecl :=
          ⟨{ signature with modifiers := modifiers.allowed scope .function }, body⟩
        (accepted start decl.validate).reporting (refusals modifiers scope .function start) := by
  rw [function, Traced.function]
  simp only [Traced.outcome_andThen]
  rfl

theorem branch_def :
    branch eof input =
      (expression eof 0 input).andThen fun condition rest _ =>
      (block eof rest).andThen fun body rest _ =>
        match helse : afterElse? rest with
        | none => .done (.branch condition body none)
        | some inner =>
          ((otherwise eof inner).map fun stmts =>
            Stmt.branch condition body (some stmts)).within (afterElse?_suffix helse).1 := by
  rw [branch, Traced.branch]
  simp only [Traced.outcome_andThen]
  congr 1
  funext condition rest _
  congr 1
  funext body rest _
  unfold Traced.onElse
  split <;> rfl

theorem otherwise_nil : otherwise eof [] = block eof [] := by
  rw [otherwise, Traced.otherwise]
  rfl

theorem otherwise_cons :
    otherwise eof (token :: rest) =
      if token.kind = .keyword .if then ((branch eof rest).map fun stmt => [stmt]).behind token
      else block eof (token :: rest) := by
  rw [otherwise, Traced.otherwise]
  split <;> rfl

theorem block_def :
    block eof input =
      (Outcome.within (skipNewlines_suffix input) <|
      expecting eof (.punct .lbrace) (skipNewlines input) fun _ inner _ =>
      (statements eof .block true inner).andThen fun body rest _ =>
      expecting eof (.punct .rbrace) rest fun _ _ _ => .done body) := by
  rw [block, Traced.block]
  simp only [Traced.outcome_entering, Traced.outcome_within, Traced.outcome_expecting,
    Traced.outcome_andThen]
  rfl

end Equations

end KCompiler
