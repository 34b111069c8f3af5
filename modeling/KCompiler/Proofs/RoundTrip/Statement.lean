import KCompiler.Proofs.RoundTrip.Declaration
import KCompiler.Proofs.StatementLoop
import KCompiler.Proofs.Validation

/-! # Printed statements

A statement is printed on lines of its own. What stands on the next line matters to it in one
case only: a branch goes on if that line begins with an `else`.
-/

namespace KCompiler

open Outcome

/-- A parser reads a value back from its words on a line of their own, if the next line does not
begin with an `else`. -/
def RestoresLine {α : Type} (parse : (input : List Token) → Outcome input α) (words : List Word)
    (value : α) (issues : List Issue) : Prop :=
  ∀ ⦃tokens : List Token⦄ (newline : Token) (rest : List Token), Spells tokens words →
    newline.kind = .newline → afterElse? rest = none →
      (parse (tokens ++ newline :: rest)).Yields value (newline :: rest) issues

/-- Where the statements of a file or a block end. -/
def Stops (inBlock : Bool) : List Token → Prop
  | [] => True
  | token :: _ => inBlock ∧ token.kind = .punct .rbrace

/-- Statements that are read back from their lines in a block. -/
def RestoresBlock (eof : Token) (stmts : List Stmt) (issues : List Issue) : Prop :=
  ∀ tokens rest, Spells tokens (Stmt.lines stmts) → Stops true rest →
    (statements eof .block true (tokens ++ rest)).Yields stmts rest issues

section Statements

variable {eof : Token} {scope : Scope} {inBlock : Bool} {tokens rest left : List Token}
  {token newline : Token} {stmt : Stmt} {stmts : List Stmt} {issues found : List Issue}

theorem afterElse?_of_kind (hnewline : token.kind ≠ .newline)
    (helse : token.kind ≠ .keyword .else) :
    afterElse? (token :: rest) = none := by
  rw [afterElse?, skipNewlines_of_kind hnewline]
  exact if_neg helse

theorem afterElse?_newline (hnewline : newline.kind = .newline) :
    afterElse? (newline :: rest) = afterElse? rest := by
  simp [afterElse?, skipNewlines, hnewline]

theorem afterElse?_of_begins {words : List Word} (hbegins : Begins Kind.startsStatement words)
    (htokens : Spells tokens words) : afterElse? (tokens ++ rest) = none := by
  obtain ⟨token, more, rfl, hkind⟩ := hbegins.exists_cons htokens
  simp only [Kind.startsStatement, Bool.and_eq_true, decide_eq_true_eq] at hkind
  refine afterElse?_of_kind ?_ hkind.2
  intro hnewline
  simp [hnewline, Kind.startsItem, Kind.isBoundary] at hkind

theorem afterElse?_of_stops (hstops : Stops inBlock rest) : afterElse? rest = none := by
  cases rest with
  | nil => rfl
  | cons token rest =>
      exact afterElse?_of_kind (by simp [hstops.2]) (by simp [hstops.2])

theorem Kind.not_isBoundary {kind : Kind} (hkind : kind.startsStatement) :
    kind.isBoundary = false := by
  simp only [Kind.startsStatement, Kind.startsItem, Bool.and_eq_true] at hkind
  simpa using hkind.1.1.1

theorem finishStatement_yields {α : Type} {value : α} {outcome : Outcome tokens α}
    (hnewline : newline.kind = .newline) (hyields : outcome.Yields value (newline :: rest) issues) :
    (finishStatement outcome).Yields (some value) rest issues := by
  obtain ⟨_, _, findings, hsuffix⟩ := outcome
  obtain ⟨rfl, rfl, rfl⟩ := hyields
  have hend : (endStatement (newline :: rest)).Yields () rest [] := by
    rw [endStatement, if_pos (.inl hnewline)]
    exact (yields_done ()).behind newline
  have hfinished := ((hend.map fun _ => some value).reporting findings).within hsuffix
  rwa [List.append_nil] at hfinished

namespace StatementLoop

variable {α : Type} {loop : (input : List Token) → Outcome input (List α)}
  {parse : (input : List Token) → Outcome input α} (hloop : StatementLoop inBlock loop parse)
  {value : α} {values : List α}

include hloop

theorem yields_nil (hstops : Stops inBlock rest) : (loop rest).Yields [] rest [] := by
  cases rest with
  | nil =>
      rw [hloop.nil]
      exact yields_done []
  | cons token rest =>
      rw [hloop.stop (.inr hstops.symm)]
      exact yields_done []

theorem yields_newline (hnewline : newline.kind = .newline)
    (hmore : (loop rest).Yields values left issues) :
    (loop (newline :: rest)).Yields values left issues := by
  rw [hloop.blank (.inl hnewline)]
  exact hmore.behind newline

theorem yields_cons (htoken : token.kind.startsStatement) (hnewline : newline.kind = .newline)
    (hvalue : (parse (token :: tokens)).Yields value (newline :: rest) issues)
    (hmore : (loop rest).Yields values left found) :
    (loop (token :: tokens)).Yields (value :: values) left (issues ++ found) := by
  have hfinished := finishStatement_yields hnewline hvalue
  rw [hloop.item (Kind.not_isBoundary htoken)]
  apply Yields.within
  generalize finishStatement (parse (token :: tokens)) = finished at *
  obtain ⟨_, _, findings, _⟩ := finished
  obtain ⟨rfl, rfl, rfl⟩ := hfinished
  exact (hmore.map _).reporting findings

end StatementLoop

theorem block_yields (hstmts : RestoresBlock eof stmts issues)
    (htokens : Spells tokens (braceWords (Stmt.lines stmts))) (rest : List Token) :
    (block eof (tokens ++ rest)).Yields stmts rest issues := by
  obtain ⟨first, _, rfl, hfirst, htokens⟩ := spells_cons.mp htokens
  obtain ⟨newline, _, rfl, hnewline, htokens⟩ := spells_cons.mp htokens
  obtain ⟨lines, _, rfl, hlines, hclose⟩ := spells_append.mp htokens
  obtain ⟨last, rfl, hlast⟩ := spells_singleton.mp hclose
  rw [Word.spelt_punct] at hfirst hlast
  rw [Word.spelt_newline] at hnewline
  have hinside :=
    (statements_loop eof .block true).yields_newline hnewline (hstmts lines (last :: rest) hlines ⟨rfl, hlast⟩)
  rw [List.cons_append, List.cons_append, List.append_assoc, block_def]
  apply Yields.within
  rw [skipNewlines_of_kind (by simp [hfirst]), expecting_of_kind hfirst]
  apply Yields.behind
  rw [← List.append_nil issues]
  refine hinside.andThen fun _ => ?_
  rw [expecting_of_kind hlast]
  exact (yields_done stmts).behind last

/-- What a statement without keyword is, by what lies ahead. -/
theorem unmodifiedStatement_of_startsExpression {modifiers : Modifiers} {start : Span}
    (hkind : token.kind.startsExpression) :
    unmodifiedStatement eof scope modifiers start (token :: rest) =
      if startsVariable (token :: rest) then
        (variableDecl eof scope modifiers start (token :: rest)).map Stmt.variable
      else
        ((expression eof 0 (token :: rest)).map Stmt.expr).reporting
          (misplaced modifiers token.kind start) := by
  rw [unmodifiedStatement_cons]
  split
  case h_9 => rfl
  all_goals simp [*, Kind.startsExpression] at hkind

/-- A statement is read behind its modifiers. -/
theorem statement_restores (modifiers : Modifiers) {words : List Word}
    (hbegins : Begins Kind.endsModifiers words)
    (hstmt : ∀ start,
      RestoresLine (unmodifiedStatement eof scope modifiers start) words stmt issues) :
    RestoresLine (statement eof scope) (modifiers.words ++ words) stmt issues := by
  intro tokens newline rest htokens hnewline helse
  obtain ⟨front, back, rfl, hfront, hback⟩ := spells_append.mp htokens
  rw [List.append_assoc, statement_def]
  refine (modifierList_yields hbegins hfront hback).andThen fun _ => ?_
  exact hstmt _ newline rest hback hnewline helse

theorem begins_keyword {starts : Kind → Bool} {word : Keyword} {words : List Word}
    (hstarts : starts (.keyword word)) : Begins starts (.keyword word :: words) :=
  ⟨_, _, rfl, fun _ hspelt => by rwa [Word.spelt_keyword.mp hspelt]⟩

theorem startsVariable_of_kind (hkind : token.kind ≠ .identifier) :
    startsVariable (token :: rest) = false := by
  cases rest <;> simp [startsVariable, hkind]

theorem startsVariable_group {words : List Word} (htokens : Spells tokens (groupWords words)) :
    startsVariable (tokens ++ rest) = false := by
  obtain ⟨token, more, rfl, hkind, -⟩ := spells_cons.mp htokens
  exact startsVariable_of_kind (by simp [Word.spelt_punct.mp hkind])

/-- Behind a name that begins an expression stands no colon. -/
theorem startsVariable_expression {expr : Expr} (hwell : expr.WellFormed)
    (htokens : Spells tokens expr.words) (hnewline : newline.kind = .newline) (rest : List Token) :
    startsVariable (tokens ++ newline :: rest) = false := by
  match expr, hwell with
  | .ident name, _ =>
      obtain ⟨token, _, rfl, -, hnil⟩ := spells_cons.mp htokens
      obtain rfl := spells_nil.mp hnil
      simp [startsVariable, hnewline]
  | .literal value, _ =>
      obtain ⟨token, more, rfl, hvalue, -⟩ := spells_cons.mp htokens
      apply startsVariable_of_kind
      intro hkind
      simp [Word.Spelt, Literal.ofToken?, hkind] at hvalue
  | .binary _ _ _, _ | .unary _ .before _, _ | .unary _ .behind _, _ | .cast _ _, _ =>
      exact startsVariable_group htokens
  | .call (.ident name) _ _, _ =>
      obtain ⟨token, _, rfl, -, htokens⟩ := spells_cons.mp htokens
      obtain ⟨bracket, more, rfl, hbracket, -⟩ := spells_cons.mp htokens
      simp [startsVariable, Word.spelt_punct.mp hbracket]

theorem exprStmt_restores (eof : Token) (scope : Scope) {expr : Expr} (hwell : expr.WellFormed) :
    RestoresLine (statement eof scope) expr.words (.expr expr) [] := by
  refine statement_restores .empty ?_ ?_
  · exact expr.begins_words.weaken Kind.endsModifiers_of_startsExpression
  · intro start tokens newline rest htokens hnewline _
    have hexpr := expression_restores eof 0 hwell newline rest htokens (by simp [hnewline]; rfl)
    have hvariable := startsVariable_expression hwell htokens hnewline rest
    obtain ⟨token, more, rfl, hkind⟩ := expr.begins_words.exists_cons htokens
    rw [List.cons_append] at hvariable hexpr ⊢
    rw [unmodifiedStatement_of_startsExpression hkind, hvariable]
    exact (hexpr.map _).reporting []

theorem variableStmt_restores (eof : Token) {decl : VariableDecl} (hwell : decl.WellFormed scope) :
    RestoresLine (statement eof scope) decl.words (.variable decl) [] := by
  refine statement_restores _ (decl.begins_bindingWords.append _) ?_
  intro start tokens newline rest htokens hnewline _
  have hdecl := variableDecl_restores eof hwell start newline rest htokens (by simp [hnewline]; rfl)
  obtain ⟨name, _, rfl, ⟨hname, -⟩, htokens⟩ := spells_cons.mp htokens
  obtain ⟨colon, more, rfl, hcolon, -⟩ := spells_cons.mp htokens
  rw [Word.spelt_punct] at hcolon
  have hvariable : startsVariable (name :: colon :: (more ++ newline :: rest)) = true := by
    simp [startsVariable, hname, hcolon]
  rw [List.cons_append, List.cons_append] at hdecl ⊢
  rw [unmodifiedStatement_of_startsExpression (by simp [hname, Kind.startsExpression]), hvariable]
  exact hdecl.map _

/-- What is read behind the keyword of a statement. -/
def keywordStatement (eof : Token) (scope : Scope) (modifiers : Modifiers) (start : Span)
    (word : Keyword) (input : List Token) : Outcome input Stmt :=
  match word with
  | .record => record eof scope modifiers start input
  | .fx => (function eof scope modifiers start input).map Stmt.function
  | .alias => typeAlias eof input
  | .if => branch eof input
  | .while =>
    (expression eof 0 input).andThen fun condition rest _ =>
      (block eof rest).map (Stmt.loop condition)
  | .defer => (block eof input).map Stmt.defer
  | .break => .done .break
  | .continue => .done .continue
  | _ => .failed

/-- Keywords that begin a statement with some modifiers. -/
def takesModifiers (modifiers : Modifiers) : Keyword → Bool
  | .record | .fx => true
  | .alias | .if | .while | .defer | .break | .continue => modifiers.isEmpty
  | _ => false

theorem unmodifiedStatement_of_keyword {word : Keyword} {modifiers : Modifiers} {start : Span}
    (hkind : token.kind = .keyword word) (htakes : takesModifiers modifiers word) :
    unmodifiedStatement eof scope modifiers start (token :: rest) =
      (keywordStatement eof scope modifiers start word rest).behind token := by
  rw [unmodifiedStatement_cons]
  cases word with
  | record | fx =>
      simp only [hkind]
      rfl
  | «alias» | «if» | «while» | defer | «break» | «continue» =>
      have hplain : misplaced modifiers token.kind start = [] := if_pos htakes
      rw [hkind] at hplain
      simp only [hkind, hplain]
      rfl
  | _ => cases htakes

/-- A statement with a keyword is read behind it. -/
theorem keyword_restores (modifiers : Modifiers) {word : Keyword} {words : List Word}
    (htakes : takesModifiers modifiers word)
    (hstmt : ∀ start, RestoresLine (keywordStatement eof scope modifiers start word) words stmt
      issues) :
    RestoresLine (statement eof scope) (modifiers.words ++ .keyword word :: words) stmt issues := by
  have hword : Kind.endsModifiers (.keyword word) := by
    cases word with
    | pub | «mut» => cases htakes
    | _ => rfl
  refine statement_restores modifiers (begins_keyword hword) ?_
  intro start tokens newline rest htokens hnewline helse
  obtain ⟨keyword, more, rfl, hkeyword, hmore⟩ := spells_cons.mp htokens
  rw [List.cons_append, unmodifiedStatement_of_keyword (Word.spelt_keyword.mp hkeyword) htakes]
  exact (hstmt start newline rest hmore hnewline helse).behind keyword

/-- An expression with a block behind it. -/
theorem condition_yields {condition : Expr} (hcondition : condition.WellFormed)
    {lines : List Word} {front back : List Token} (hfront : Spells front condition.words)
    (hback : Spells back (braceWords lines)) :
    (expression eof 0 (front ++ (back ++ rest))).Yields condition (back ++ rest) [] := by
  obtain ⟨brace, more, rfl, hbrace, -⟩ := spells_cons.mp hback
  refine expression_restores eof 0 hcondition brace (more ++ rest) hfront ?_
  rw [Word.spelt_punct.mp hbrace]
  rfl

theorem branch_yields_none {condition : Expr} (hcondition : condition.WellFormed)
    (hstmts : RestoresBlock eof stmts issues) (helse : afterElse? rest = none)
    (htokens : Spells tokens (condition.words ++ braceWords (Stmt.lines stmts))) :
    (branch eof (tokens ++ rest)).Yields (.branch condition stmts none) rest issues := by
  obtain ⟨front, back, rfl, hfront, hback⟩ := spells_append.mp htokens
  rw [List.append_assoc, branch_def, ← List.append_nil issues]
  refine (condition_yields hcondition hfront hback).andThen fun _ => ?_
  refine (block_yields hstmts hback rest).andThen fun _ => ?_
  split
  next => exact yields_done _
  next inner hinner => simp [helse] at hinner

theorem branch_yields_some {condition : Expr} {others : List Stmt}
    (hcondition : condition.WellFormed) (hstmts : RestoresBlock eof stmts issues)
    (hothers : RestoresBlock eof others found)
    (htokens : Spells tokens (condition.words ++ (braceWords (Stmt.lines stmts) ++
      .keyword .else :: braceWords (Stmt.lines others)))) :
    (branch eof (tokens ++ rest)).Yields (.branch condition stmts (some others)) rest
      (issues ++ found) := by
  obtain ⟨front, _, rfl, hfront, htokens⟩ := spells_append.mp htokens
  obtain ⟨body, _, rfl, hbody, htokens⟩ := spells_append.mp htokens
  obtain ⟨keyword, tail, rfl, hkeyword, htail⟩ := spells_cons.mp htokens
  rw [Word.spelt_keyword] at hkeyword
  have hafter : afterElse? (keyword :: (tail ++ rest)) = some (tail ++ rest) := by
    rw [afterElse?, skipNewlines_of_kind (by simp [hkeyword])]
    exact if_pos hkeyword
  have hother : (otherwise eof (tail ++ rest)).Yields others rest found := by
    have hblock := block_yields hothers htail rest
    obtain ⟨brace, more, rfl, hbrace, -⟩ := spells_cons.mp htail
    rw [List.cons_append, otherwise_cons, if_neg (by simp [Word.spelt_punct.mp hbrace])]
    exact hblock
  have hinput : front ++ (body ++ keyword :: tail) ++ rest =
      front ++ (body ++ keyword :: (tail ++ rest)) := by simp
  rw [hinput, branch_def]
  refine (condition_yields hcondition hfront hbody).andThen fun _ => ?_
  refine (block_yields hstmts hbody (keyword :: (tail ++ rest))).andThen fun _ => ?_
  split
  next hinner => simp [hafter] at hinner
  next inner hinner =>
    obtain rfl : tail ++ rest = inner := Option.some.inj (hafter.symm.trans hinner)
    exact (hother.map _).within _

theorem function_yields {declared : Signature} (hwell : declared.WellFormed scope)
    (hstmts : RestoresBlock eof stmts issues) (start : Span)
    (htokens : Spells tokens (declared.words ++ braceWords (Stmt.lines stmts))) :
    (function eof scope declared.modifiers start (tokens ++ rest)).Yields ⟨declared, stmts⟩ rest
      issues := by
  obtain ⟨front, back, rfl, hfront, hback⟩ := spells_append.mp htokens
  have hbody := block_yields hstmts hback rest
  obtain ⟨brace, more, rfl, hbrace, -⟩ := spells_cons.mp hback
  have hsignature := signature_restores eof hwell brace (more ++ rest) hfront
    (by rw [Word.spelt_punct.mp hbrace]; rfl)
  rw [List.append_assoc, List.cons_append, function_eq, ← List.append_nil issues]
  refine hsignature.andThen fun _ => ?_
  refine hbody.andThen fun _ => ?_
  rw [refusals_of_allowed hwell.allowed, Modifiers.allowed_of_allowed hwell.allowed]
  exact (yields_done _).reporting []

theorem field_restores (eof : Token) {field : VariableDecl} (hwell : field.WellFormed .field) :
    Restores (member eof) Kind.endsExpression field.words (.field field) [] := by
  intro tokens last rest htokens hlast
  obtain ⟨front, back, rfl, hfront, hback⟩ := spells_append.mp htokens
  rw [List.append_assoc, member_def]
  refine (modifierList_yields (field.begins_bindingWords.append _) hfront hback).andThen fun _ => ?_
  have hdecl := fun start => variableDecl_restores eof hwell start last rest hback hlast
  obtain ⟨name, more, rfl, ⟨hname, -⟩, -⟩ := spells_cons.mp hback
  simp only [List.cons_append, if_neg (show name.kind ≠ .keyword .fx by simp [hname])]
  exact (hdecl _).map _

theorem method_yields {declared : Signature} (hwell : declared.WellFormed .method)
    (hstmts : RestoresBlock eof stmts issues)
    (htokens : Spells tokens (FunctionDecl.mk declared stmts).words) (rest : List Token) :
    (member eof (tokens ++ rest)).Yields (.method ⟨declared, stmts⟩) rest issues := by
  obtain ⟨front, back, rfl, hfront, hback⟩ := spells_append.mp htokens
  rw [List.append_assoc, member_def]
  refine (modifierList_yields (begins_keyword rfl) hfront hback).andThen fun _ => ?_
  obtain ⟨keyword, more, rfl, hkeyword, hmore⟩ := spells_cons.mp hback
  simp only [List.cons_append, if_pos (Word.spelt_keyword.mp hkeyword)]
  exact ((function_yields hwell hstmts _ hmore).map _).behind keyword

theorem VariableDecl.startsStatement_words (decl : VariableDecl) :
    Begins Kind.startsStatement decl.words :=
  (decl.startsStatement_bindingWords.append _).modifiers _

/-- Fields stand before the other members of a record. -/
theorem members_yields_fields {fields : List VariableDecl} {decls : List Member}
    (hwell : ∀ field ∈ fields, field.WellFormed .field)
    (htokens : Spells tokens (fields.flatMap fun field => field.words ++ [.newline]))
    (hmore : (members eof rest).Yields decls left issues) :
    (members eof (tokens ++ rest)).Yields (fields.map .field ++ decls) left issues := by
  induction fields generalizing tokens with
  | nil =>
      obtain rfl := spells_nil.mp htokens
      exact hmore
  | cons field fields ih =>
      rw [List.forall_mem_cons] at hwell
      obtain ⟨line, lines, rfl, hline, hlines⟩ := spells_append.mp htokens
      obtain ⟨front, _, rfl, hfront, hend⟩ := spells_append.mp hline
      obtain ⟨newline, rfl, hnewline⟩ := spells_singleton.mp hend
      rw [Word.spelt_newline] at hnewline
      have hinput : front ++ [newline] ++ lines ++ rest = front ++ newline :: (lines ++ rest) := by
        simp
      rw [hinput]
      have hfield := field_restores eof hwell.1 newline (lines ++ rest) hfront
        (by rw [hnewline]; rfl)
      obtain ⟨token, more, rfl, hkind⟩ := field.startsStatement_words.exists_cons hfront
      exact (members_loop eof).yields_cons hkind hnewline hfield (ih hwell.2 hlines)

theorem makeRecord_eq {head : RecordHead} (hwell : head.WellFormed scope)
    (methods : List FunctionDecl) (start finish : Span) :
    makeRecord scope head.modifiers start finish head.type
        (head.fields.map .field ++ methods.map .method) =
      (.record head methods,
        if head.fields.isEmpty && methods.isEmpty then
          [⟨.emptyRecord head.type.text, start.join finish⟩]
        else []) := by
  obtain ⟨type, fields, modifiers, place⟩ := head
  obtain rfl : place = scope := hwell.scope_eq
  simp [makeRecord, refusals_of_allowed hwell.allowed, Modifiers.allowed_of_allowed hwell.allowed,
    List.filterMap_map, Function.comp_def, Member.field?, Member.method?]

/-- Methods that are read back from their lines in a record. -/
def RestoresMethods (eof : Token) (methods : List FunctionDecl) (issues : List Issue) : Prop :=
  ∀ tokens token rest, Spells tokens (FunctionDecl.lines methods) → token.kind = .punct .rbrace →
    (members eof (tokens ++ token :: rest)).Yields (methods.map .method) (token :: rest) issues

theorem record_yields {head : RecordHead} {methods : List FunctionDecl}
    (hwell : head.WellFormed scope)
    (hmethods : RestoresMethods eof methods (remarks (FunctionDecl.allEmptyRecords methods)))
    (start : Span)
    (htokens : Spells tokens (head.type.words ++
      braceWords (head.fields.flatMap (fun field => field.words ++ [.newline]) ++
        FunctionDecl.lines methods))) :
    (record eof scope head.modifiers start (tokens ++ rest)).Yields (.record head methods) rest
      (remarks (Stmt.record head methods).emptyRecords) := by
  obtain ⟨type, _, rfl, htype, htokens⟩ := spells_append.mp htokens
  obtain ⟨first, _, rfl, hfirst, htokens⟩ := spells_cons.mp htokens
  obtain ⟨newline, _, rfl, hnewline, htokens⟩ := spells_cons.mp htokens
  obtain ⟨_, _, rfl, hlines, hclose⟩ := spells_append.mp htokens
  obtain ⟨fieldLines, methodLines, rfl, hfields, hlines⟩ := spells_append.mp hlines
  obtain ⟨last, rfl, hlast⟩ := spells_singleton.mp hclose
  rw [Word.spelt_punct] at hfirst hlast
  rw [Word.spelt_newline] at hnewline
  -- Fields and methods stand apart in the tree, and in this order in the body.
  have hmembers := (members_loop eof).yields_newline hnewline
    (members_yields_fields hwell.fields hfields (hmethods methodLines last rest hlines hlast))
  have hinput : type ++ first :: newline :: (fieldLines ++ methodLines ++ [last]) ++ rest =
      type ++ first :: newline :: (fieldLines ++ (methodLines ++ last :: rest)) := by simp
  rw [hinput, record_eq, Stmt.emptyRecords, remarks_append]
  refine (typeExpr_restores eof head.type hwell.type first _ htype
    (by rw [hfirst]; rfl)).andThen fun _ => ?_
  apply Yields.within
  rw [skipNewlines_of_kind (by simp [hfirst]), expecting_of_kind hfirst]
  apply Yields.behind
  refine hmembers.andThen fun _ => ?_
  rw [expecting_of_kind hlast, makeRecord_eq hwell]
  apply Yields.behind
  cases head.fields.isEmpty && methods.isEmpty
  · exact (yields_done _).reporting []
  · exact (yields_done _).reporting [_]

theorem Stmt.startsStatement_words (stmt : Stmt) : Begins Kind.startsStatement stmt.words :=
  match stmt with
  | .expr value => value.begins_words.weaken Kind.startsStatement_of_startsExpression
  | .variable decl => decl.startsStatement_words
  | .record _ _ => (begins_keyword rfl).modifiers _
  | .function ⟨_, _⟩ => (begins_keyword rfl).modifiers _
  | .typeAlias _ _ | .branch _ _ none | .branch _ _ (some _) | .loop _ _ | .defer _ | .break
  | .continue => begins_keyword rfl

end Statements

end KCompiler
