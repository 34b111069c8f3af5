import KCompiler.Proofs.Completeness.Declaration
import KCompiler.Proofs.RoundTrip.Statement
import KCompiler.Proofs.Soundness.Statement

/-! # Statements of the grammar are read

Statements and blocks that follow the grammar are read to their trees, with nothing found but
remarks. A statement is followed by its end, and no `else` stands on the next line.
-/

namespace KCompiler

open Grammar Outcome

/-! ## Statements one behind the other -/

section Loops

variable {eof : Token} {α : Type} {parse : (input : List Token) → Outcome input α}
  {loop : (input : List Token) → Outcome input (List α)} {tokens rest middle input : List Token}
  {value : α} {values : List α}

/-- What stands behind a statement: its end, and no `else` on the next lines. -/
structure Settled (rest : List Token) : Prop where
  ended : Followed Kind.isBoundary rest
  noElse : afterElse? rest = none

/-- A statement that a parser reads. -/
structure ReadStatement (parse : (input : List Token) → Outcome input α) (tokens : List Token)
    (value : α) : Prop where
  headed : Headed Kind.startsStatement tokens
  reads (rest : List Token) : Settled rest → (parse (tokens ++ rest)).Gives value rest

/-- A parser of statements that takes one after the other and passes over what ends them. -/
structure Repeats (loop : (input : List Token) → Outcome input (List α))
    (parse : (input : List Token) → Outcome input α) : Prop where
  blank {token : Token} {tokens rest : List Token} {values : List α} : Ends token →
    (loop tokens).Gives values rest → (loop (token :: tokens)).Gives values rest
  item {token : Token} {tokens middle rest : List Token} {value : α} {values : List α} :
    token.kind.startsStatement →
      (finishStatement (parse (token :: tokens))).Gives (some value) middle →
        (loop middle).Gives values rest → (loop (token :: tokens)).Gives (value :: values) rest

theorem isBoundary_of_ends {token : Token} (hends : Ends token) :
    token.kind.isBoundary ∧ token.kind ≠ .eof ∧ token.kind ≠ .punct .rbrace := by
  rcases hends with hkind | hkind
  · simp [hkind, Kind.isBoundary]
  · simp [hkind, Kind.isBoundary]

theorem endStatement_gives_ends {token : Token} (hends : Ends token) (rest : List Token) :
    (endStatement (token :: rest)).Gives () rest := by
  unfold Ends at hends
  rw [endStatement, if_pos hends]
  exact (gives_done.mpr ⟨rfl, rfl⟩).behind token

theorem Kind.isBoundary_of_atEnd {token : Token} (hatEnd : AtEnd (token :: rest)) :
    token.kind.isBoundary ∧ ¬(token.kind = .newline ∨ token.kind = .punct .semicolon) := by
  rcases hatEnd token rfl with hkind | hkind
  · simp [hkind, Kind.isBoundary]
  · simp [hkind, Kind.isBoundary]

theorem endStatement_gives_atEnd (hatEnd : AtEnd rest) : (endStatement rest).Gives () rest := by
  cases rest with
  | nil => exact gives_done.mpr ⟨rfl, rfl⟩
  | cons token rest =>
      obtain ⟨hboundary, hnot⟩ := Kind.isBoundary_of_atEnd hatEnd
      rw [endStatement, if_neg hnot, if_pos hboundary]
      exact gives_done.mpr ⟨rfl, rfl⟩

theorem finishStatement_gives {outcome : Outcome input α} (hgives : outcome.Gives value middle)
    (hend : (endStatement middle).Gives () rest) :
    (finishStatement outcome).Gives (some value) rest := by
  obtain ⟨_, _, findings, hsuffix⟩ := outcome
  obtain ⟨rfl, rfl, hharmless⟩ := hgives
  exact (gives_reporting.mpr ⟨hharmless, hend.map fun _ => some value⟩).within hsuffix

theorem settled_of_atEnd (hatEnd : AtEnd rest) : Settled rest := by
  cases rest with
  | nil => exact ⟨followed_nil _, rfl⟩
  | cons token rest =>
      refine ⟨followed_cons.mpr (Kind.isBoundary_of_atEnd hatEnd).1, ?_⟩
      rcases hatEnd token rfl with hkind | hkind
      · exact afterElse?_of_kind (by simp [hkind]) (by simp [hkind])
      · exact afterElse?_of_kind (by simp [hkind]) (by simp [hkind])

theorem Headed.afterElse?_eq (hheaded : Headed Kind.startsStatement tokens) :
    afterElse? tokens = none := by
  obtain ⟨token, more, rfl, hstarts⟩ := hheaded
  simp only [Kind.startsStatement, Bool.and_eq_true, decide_eq_true_eq] at hstarts
  refine afterElse?_of_kind ?_ hstarts.2
  intro hkind
  simp [hkind, Kind.startsItem, Kind.isBoundary] at hstarts

/-- No `else` begins the statements that follow. -/
theorem afterElse?_items (hitems : Items (ReadStatement parse) tokens values)
    (hatEnd : AtEnd rest) : afterElse? (tokens ++ rest) = none := by
  induction hitems with
  | nil => exact (settled_of_atEnd hatEnd).noElse
  | blank hends _ ih =>
      rcases hends with hkind | hkind
      · rw [List.cons_append, afterElse?_newline hkind]
        exact ih
      · exact afterElse?_of_kind (by simp [hkind]) (by simp [hkind])
  | last hitem => exact (hitem.headed.append _).afterElse?_eq
  | cons hitem _ _ _ => exact ((hitem.headed.append _).append _).afterElse?_eq

theorem settled_items {token : Token} (hends : Ends token)
    (hitems : Items (ReadStatement parse) tokens values) (hatEnd : AtEnd rest) :
    Settled (token :: (tokens ++ rest)) where
  ended := followed_cons.mpr (isBoundary_of_ends hends).1
  noElse := afterElse?_items (.blank hends hitems) hatEnd

/-- Statements of the grammar are read one after the other, to where they end. -/
theorem Repeats.reads (hloop : Repeats loop parse)
    (hitems : Items (ReadStatement parse) tokens values) (hatEnd : AtEnd rest)
    (hstops : (loop rest).Gives [] rest) : (loop (tokens ++ rest)).Gives values rest := by
  induction hitems with
  | nil => exact hstops
  | blank hends _ ih => exact hloop.blank hends ih
  | last hitem =>
      obtain ⟨⟨token, more, rfl, hstarts⟩, hreads⟩ := hitem
      have hread := hreads rest (settled_of_atEnd hatEnd)
      exact hloop.item hstarts (finishStatement_gives hread (endStatement_gives_atEnd hatEnd)) hstops
  | @cons _ others last _ _ hitem hends hmore ih =>
      obtain ⟨⟨token, more, rfl, hstarts⟩, hreads⟩ := hitem
      have hread := hreads _ (settled_items hends hmore hatEnd)
      rw [List.append_assoc]
      exact hloop.item hstarts
        (finishStatement_gives hread (endStatement_gives_ends hends (others ++ rest))) ih

theorem finished_gives {outcome : Outcome input α} {more : Outcome (finishStatement outcome).rest
      (List α)} (hfinished : (finishStatement outcome).Gives (some value) middle)
    (hmore : more.Gives values rest) :
    (((more.map fun values => (finishStatement outcome).value.join.toList ++ values).reporting
      (finishStatement outcome).findings).within (finishStatement outcome).suffix).Gives
        (value :: values) rest := by
  refine Gives.within (gives_reporting.mpr ⟨hfinished.harmless, ?_⟩) _
  rw [hfinished.value_eq]
  exact hmore.map _

theorem StatementLoop.repeats {inBraces : Bool} (hloop : StatementLoop inBraces loop parse) :
    Repeats loop parse where
  blank hends hgives := by
    rw [hloop.blank hends]
    exact hgives.behind _
  item hstarts hfinished hmore := by
    rw [hloop.item (Kind.not_isBoundary hstarts)]
    refine finished_gives hfinished ?_
    rw [hfinished.rest_eq]
    exact hmore

end Loops

/-! ## Statements -/

/-- Kinds that stand before a block: line breaks and its opening brace. -/
def Kind.startsBlock (kind : Kind) : Bool :=
  kind = .newline || kind = .punct .lbrace

theorem Kind.endsExpression_of_startsBlock (kind : Kind) (hkind : kind.startsBlock) :
    kind.endsExpression := by
  have hcases : kind = .newline ∨ kind = .punct .lbrace := by simpa [Kind.startsBlock] using hkind
  rcases hcases with rfl | rfl <;> rfl

theorem Kind.endsSignature_of_startsBlock (kind : Kind) (hkind : kind.startsBlock) :
    kind.endsSignature := by
  have hcases : kind = .newline ∨ kind = .punct .lbrace := by simpa [Kind.startsBlock] using hkind
  rcases hcases with rfl | rfl <;> rfl

theorem Kind.endsExpression_of_isBoundary (kind : Kind) (hkind : kind.isBoundary) :
    kind.endsExpression := by
  unfold Kind.isBoundary at hkind
  split at hkind
  case h_5 => cases hkind
  all_goals rfl

section Statements

variable {eof : Token} {scope : Scope} {tokens rest : List Token}

theorem followed_braces {breaks : List Token} {first : Token} (hbreaks : Newlines breaks)
    (hfirst : first.kind = .punct .lbrace) (rest : List Token) :
    Followed Kind.startsBlock (breaks ++ first :: rest) := by
  cases breaks with
  | nil => simp [hfirst, Kind.startsBlock]
  | cons token breaks => simp [hbreaks token List.mem_cons_self, Kind.startsBlock]

theorem followed_of_isBlock {stmts : List Stmt} (hblock : IsBlock tokens stmts)
    (rest : List Token) : Followed Kind.startsBlock (tokens ++ rest) := by
  cases hblock with
  | intro hbreaks hfirst _ _ =>
      rw [List.append_assoc]
      exact followed_braces hbreaks hfirst _

theorem skipNewlines_braces {breaks : List Token} {first : Token} (hbreaks : Newlines breaks)
    (hfirst : first.kind = .punct .lbrace) (rest : List Token) :
    skipNewlines (breaks ++ first :: rest) = first :: rest := by
  rw [skipNewlines_append hbreaks, skipNewlines_of_kind (by simp [hfirst])]

theorem startsVariable_of_isAssignment {value : Expr} (hvalue : IsAssignment tokens value)
    (hrest : Followed Kind.isBoundary rest) : startsVariable (tokens ++ rest) = false := by
  -- Neither a colon nor a `mut` stands in an expression, and neither of them ends it.
  have hkinds (token : Token) (htoken : token ∈ tokens) :
      token.kind ≠ .punct .colon ∧ token.kind ≠ .keyword .mut := by
    constructor
    · intro hkind
      simpa [hkind, Kind.inExpression, Kind.isParen] using kinds_of_isAssignment hvalue htoken
    · intro hkind
      simpa [hkind, Kind.inExpression, Kind.isParen] using kinds_of_isAssignment hvalue htoken
  obtain ⟨first, more, rfl, -⟩ := Ladder.headed_of_isAssignment hvalue
  cases more with
  | nil =>
      cases rest with
      | nil => rfl
      | cons last rest =>
          rw [followed_cons] at hrest
          have hlast : last.kind ≠ .punct .colon ∧ last.kind ≠ .keyword .mut := by
            constructor
            · intro hkind
              simp [hkind, Kind.isBoundary] at hrest
            · intro hkind
              simp [hkind, Kind.isBoundary] at hrest
          simp [startsVariable, hlast]
  | cons second more =>
      have hsecond := hkinds second (List.mem_cons_of_mem _ List.mem_cons_self)
      simp [startsVariable, hsecond]

/-- What a statement without keyword is, by what lies ahead. -/
theorem unmodifiedStatement_of_startsOperand {modifiers : Modifiers} {start : Span} {token : Token}
    (hkind : token.kind.startsOperand) :
    unmodifiedStatement eof scope modifiers start (token :: rest) =
      if startsVariable (token :: rest) then
        (variableDecl eof scope modifiers start (token :: rest)).map Stmt.variable
      else
        ((expression eof 0 (token :: rest)).map Stmt.expr).reporting
          (misplaced modifiers token.kind start) := by
  rw [unmodifiedStatement_cons]
  split
  case h_9 => rfl
  all_goals simp [*, Kind.startsOperand, Kind.startsPrimary, Kind.startsExpression,
    Kind.isBuiltin, Ladder.leadingOf?] at hkind

theorem statement_gives_expr {value : Expr} (hvalue : IsAssignment tokens value)
    (hrest : Followed Kind.isBoundary rest) :
    (statement eof scope (tokens ++ rest)).Gives (.expr value) rest := by
  have hread := expression_reads_assignment eof hvalue rest
    (hrest.mono Kind.endsExpression_of_isBoundary)
  have hvariable := startsVariable_of_isAssignment hvalue hrest
  obtain ⟨token, more, rfl, hstarts⟩ := Ladder.headed_of_isAssignment hvalue
  rw [List.cons_append] at hread hvariable ⊢
  have hmodifiers : (modifierList .empty (token :: (more ++ rest))).Yields .empty
      (token :: (more ++ rest)) [] := by
    refine modifierList_reads_modifiers .nil rfl _ (followed_cons.mpr ?_)
    exact Kind.endsModifiers_of_startsOperand _ hstarts
  rw [statement_def]
  refine hmodifiers.gives.andThen fun _ => ?_
  rw [unmodifiedStatement_of_startsOperand hstarts, hvariable]
  exact gives_reporting.mpr ⟨by simp [misplaced, Modifiers.isEmpty, Modifiers.empty],
    (hread.map Stmt.expr).gives⟩

theorem statement_gives_variable {decl : VariableDecl} (hdecl : IsVariable scope tokens decl)
    (hrest : Followed Kind.isBoundary rest) :
    (statement eof scope (tokens ++ rest)).Gives (.variable decl) rest := by
  obtain ⟨front, before, name, more, hdeclares⟩ := exists_declares_variable eof hdecl
  rw [statement_def]
  refine (hdeclares.reads_modifiers rest).gives.andThen fun _ => ?_
  rw [unmodifiedStatement_of_startsOperand (by simp [hdeclares.isName, Kind.startsOperand,
    Kind.startsPrimary, Kind.startsExpression]), hdeclares.starts]
  exact ((hdeclares.reads _ rest (hrest.mono Kind.endsExpression_of_isBoundary)).map _).gives

/-- A statement with a keyword is read behind it. -/
theorem statement_gives_keyword {modifiers : Modifiers} {front more : List Token} {keyword : Token}
    {word : Keyword} {stmt : Stmt} (hfront : IsModifiers front modifiers.toList)
    (hkeyword : keyword.kind = .keyword word) (htakes : takesModifiers modifiers word)
    (hstmt : ∀ start, (keywordStatement eof scope modifiers start word (more ++ rest)).Gives stmt
      rest) :
    (statement eof scope (front ++ keyword :: more ++ rest)).Gives stmt rest := by
  have hends : Followed Kind.endsModifiers (keyword :: (more ++ rest)) := by
    rw [followed_cons, hkeyword]
    cases word with
    | pub | «mut» => cases htakes
    | _ => rfl
  rw [List.append_assoc, statement_def]
  refine (modifierList_reads_modifiers hfront rfl _ hends).gives.andThen fun _ => ?_
  rw [unmodifiedStatement_of_keyword hkeyword htakes]
  exact (hstmt _).behind keyword

theorem statement_gives_unmodified {more : List Token} {keyword : Token} {word : Keyword}
    {stmt : Stmt} (hkeyword : keyword.kind = .keyword word) (htakes : takesModifiers .empty word)
    (hstmt : ∀ start, (keywordStatement eof scope .empty start word (more ++ rest)).Gives stmt
      rest) :
    (statement eof scope (keyword :: more ++ rest)).Gives stmt rest :=
  statement_gives_keyword .nil hkeyword htakes hstmt

theorem typeAlias_gives {type : List Token} {target : Ty} {as name : Token}
    (htype : IsType type target) (has : as.kind = .keyword .as) (hname : name.kind = .identifier) :
    (typeAlias eof (type ++ [as, name] ++ rest)).Gives (.typeAlias target name.text) rest := by
  have hends : Followed Kind.endsType ([as, name] ++ rest) := by
    rw [List.cons_append, followed_cons, has]
    rfl
  rw [List.append_assoc, typeAlias_def]
  refine (typeExpr_reads_type eof htype _ hends).gives.andThen fun _ => ?_
  rw [List.cons_append, expecting_of_kind has]
  apply Gives.behind
  rw [List.cons_append, expecting_of_kind hname]
  exact (gives_done.mpr ⟨rfl, rfl⟩).behind name

theorem block_gives {breaks body : List Token} {first last : Token} {stmts : List Stmt}
    (hbreaks : Newlines breaks) (hfirst : first.kind = .punct .lbrace)
    (hlast : last.kind = .punct .rbrace)
    (hbody : (statements eof .block true (body ++ last :: rest)).Gives stmts (last :: rest)) :
    (block eof (breaks ++ first :: (body ++ [last]) ++ rest)).Gives stmts rest := by
  have hinput : breaks ++ first :: (body ++ [last]) ++ rest =
      breaks ++ first :: (body ++ last :: rest) := by simp
  rw [hinput, block_def]
  apply Gives.within
  rw [skipNewlines_braces hbreaks hfirst, expecting_of_kind hfirst]
  apply Gives.behind
  refine hbody.andThen fun _ => ?_
  rw [expecting_of_kind hlast]
  exact (gives_done.mpr ⟨rfl, rfl⟩).behind last

theorem otherwise_eq_block {input : List Token} (hinput : Followed Kind.startsBlock input) :
    otherwise eof input = block eof input := by
  cases input with
  | nil => rw [otherwise_nil]
  | cons token input =>
      have hif : token.kind ≠ .keyword .if := by
        intro hkind
        simp [hkind, Kind.startsBlock] at hinput
      rw [otherwise_cons, if_neg hif]

theorem record_gives {modifiers : Modifiers} {type breaks body : List Token} {first last : Token}
    {name : Ty} {decls : List Member} (hallowed : Allowed modifiers scope .record) (start : Span)
    (htype : IsType type name) (hbreaks : Newlines breaks) (hfirst : first.kind = .punct .lbrace)
    (hlast : last.kind = .punct .rbrace)
    (hbody : (members eof (body ++ last :: rest)).Gives decls (last :: rest)) :
    (record eof scope modifiers start
      (type ++ (breaks ++ first :: (body ++ [last])) ++ rest)).Gives
      (.record { type := name, fields := decls.filterMap Member.field?, modifiers, scope }
        (decls.filterMap Member.method?)) rest := by
  have hinput : type ++ (breaks ++ first :: (body ++ [last])) ++ rest =
      type ++ (breaks ++ first :: (body ++ last :: rest)) := by simp
  have hends := (followed_braces hbreaks hfirst (body ++ last :: rest)).mono fun kind hkind =>
    Kind.endsType_of_endsExpression _ (Kind.endsExpression_of_startsBlock kind hkind)
  rw [hinput, record_eq]
  refine (typeExpr_reads_type eof htype _ hends).gives.andThen fun _ => ?_
  apply Gives.within
  rw [skipNewlines_braces hbreaks hfirst, expecting_of_kind hfirst]
  apply Gives.behind
  refine hbody.andThen fun _ => ?_
  rw [expecting_of_kind hlast]
  apply Gives.behind
  simp only [makeRecord, refusals_of_allowed hallowed, Modifiers.allowed_of_allowed hallowed]
  refine gives_reporting.mpr ⟨?_, gives_done.mpr ⟨rfl, rfl⟩⟩
  split
  · simp [Finding.Harmless, Finding.isError, Issue.level]
  · simp

end Statements

section Programs

theorem headed_of_isBranch {tokens : List Token} {stmt : Stmt} (hbranch : IsBranch tokens stmt) :
    Headed Kind.startsStatement tokens := by
  cases hbranch with
  | alone hkeyword _ _ => exact headed_cons (by rw [hkeyword]; rfl) _
  | otherwise hkeyword _ _ _ _ _ => exact headed_cons (by rw [hkeyword]; rfl) _

theorem headed_of_isFunction {scope : Scope} {tokens : List Token} {decl : FunctionDecl}
    (hdecl : IsFunction scope tokens decl) : Headed Kind.startsStatement tokens := by
  cases hdecl with
  | intro hsignature _ =>
      cases hsignature with
      | intro hfront _ hkeyword _ _ _ _ =>
          rw [List.append_assoc]
          exact headed_of_isModifiers hfront rfl rfl (headed_cons (by rw [hkeyword]; rfl) _)

theorem headed_of_isVariable {scope : Scope} {tokens : List Token} {decl : VariableDecl}
    (hdecl : IsVariable scope tokens decl) : Headed Kind.startsStatement tokens := by
  obtain ⟨front, before, name, more, hdeclares⟩ := exists_declares_variable default hdecl
  exact hdeclares.headed

theorem headed_of_isStmt {scope : Scope} {tokens : List Token} {stmt : Stmt}
    (hstmt : IsStmt scope tokens stmt) : Headed Kind.startsStatement tokens := by
  cases hstmt with
  | expr hvalue =>
      exact (Ladder.headed_of_isAssignment hvalue).mono Kind.startsStatement_of_startsOperand
  | «variable» hdecl => exact headed_of_isVariable hdecl
  | record hfront _ hkeyword _ _ _ _ _ =>
      exact headed_of_isModifiers hfront rfl rfl (headed_cons (by rw [hkeyword]; rfl) _)
  | branch hbranch => exact headed_of_isBranch hbranch
  | function hdecl => exact headed_of_isFunction hdecl
  | typeAlias hkeyword _ _ _ | loop hkeyword _ _ | defer hkeyword _ | «break» hkeyword
  | «continue» hkeyword => exact headed_cons (by rw [hkeyword]; rfl) _

theorem headed_of_isMember {tokens : List Token} {decl : Member} (hmember : IsMember tokens decl) :
    Headed Kind.startsStatement tokens := by
  cases hmember with
  | field hdecl => exact headed_of_isVariable hdecl
  | method hdecl => exact headed_of_isFunction hdecl

variable (eof : Token)

mutual
theorem statement_reads_stmt : ∀ {scope tokens stmt}, IsStmt scope tokens stmt → ∀ rest,
    Settled rest → (statement eof scope (tokens ++ rest)).Gives stmt rest
  | _, _, _, .expr hvalue => fun _ hrest => statement_gives_expr hvalue hrest.ended
  | _, _, _, .variable hdecl => fun _ hrest => statement_gives_variable hdecl hrest.ended
  | _, _, _, .typeAlias hkeyword htype has hname => fun _ _ =>
      statement_gives_unmodified hkeyword rfl fun _ => typeAlias_gives htype has hname
  | _, _, _, @IsStmt.record _ _ _ _ _ _ _ last _ _ _ hfront hallowed hkeyword htype hbreaks hfirst
      hmembers hlast => by
      intro rest _
      refine statement_gives_keyword hfront hkeyword rfl fun start => ?_
      refine record_gives hallowed start htype hbreaks hfirst hlast ?_
      have hatEnd : AtEnd (last :: rest) := by simp [AtEnd, hlast]
      refine (members_loop eof).repeats.reads (members_read hmembers) hatEnd ?_
      rw [(members_loop eof).stop (.inr ⟨hlast, rfl⟩)]
      exact gives_done.mpr ⟨rfl, rfl⟩
  | _, _, _, .branch hbranch => by
      intro rest hrest
      obtain ⟨keyword, more, rfl, hkeyword, hread⟩ := branch_reads_branch hbranch
      exact statement_gives_unmodified hkeyword rfl fun _ => hread rest hrest.noElse
  | _, _, _, @IsStmt.loop _ keyword tokens body condition stmts hkeyword hcondition hbody => by
      intro rest _
      refine statement_gives_unmodified hkeyword rfl fun _ => ?_
      have hends := (followed_of_isBlock hbody rest).mono Kind.endsExpression_of_startsBlock
      rw [List.append_assoc, keywordStatement]
      refine (expression_reads_assignment eof hcondition _ hends).gives.andThen fun _ => ?_
      exact (block_reads_block hbody rest).map _
  | _, _, _, .defer hkeyword hbody => fun rest _ =>
      statement_gives_unmodified hkeyword rfl fun _ => (block_reads_block hbody rest).map _
  | _, _, _, .break hkeyword => fun _ _ =>
      statement_gives_unmodified hkeyword rfl fun _ => gives_done.mpr ⟨rfl, rfl⟩
  | _, _, _, .continue hkeyword => fun _ _ =>
      statement_gives_unmodified hkeyword rfl fun _ => gives_done.mpr ⟨rfl, rfl⟩
  | _, _, _, .function hdecl => by
      intro rest _
      obtain ⟨front, modifiers, keyword, more, rfl, hfront, hkeyword, hread⟩ :=
        function_reads_function hdecl
      exact statement_gives_keyword hfront hkeyword rfl fun start => (hread start rest).map _

theorem function_reads_function : ∀ {scope tokens decl}, IsFunction scope tokens decl →
    ∃ front modifiers keyword more, tokens = front ++ keyword :: more ∧
      IsModifiers front (Modifiers.toList modifiers) ∧ keyword.kind = .keyword .fx ∧
      ∀ start rest, (function eof scope modifiers start (more ++ rest)).Gives decl rest
  | _, _, _, @IsFunction.intro scope _ body declared stmts hsignature hbody => by
      obtain ⟨front, keyword, more, rfl, hfront, hallowed, hkeyword, hread⟩ :=
        exists_signature eof hsignature
      refine ⟨front, declared.modifiers, keyword, more ++ body, by simp, hfront, hkeyword, ?_⟩
      intro start rest
      have hends := (followed_of_isBlock hbody rest).mono Kind.endsSignature_of_startsBlock
      rw [List.append_assoc, function_eq]
      refine (hread _ hends).gives.andThen fun _ => ?_
      refine (block_reads_block hbody rest).andThen fun _ => ?_
      rw [refusals_of_allowed hallowed, Modifiers.allowed_of_allowed hallowed]
      exact gives_reporting.mpr ⟨by simp, gives_done.mpr ⟨rfl, rfl⟩⟩

theorem member_reads_member : ∀ {tokens decl}, IsMember tokens decl → ∀ rest,
    Settled rest → (member eof (tokens ++ rest)).Gives decl rest
  | _, _, .field hdecl => by
      intro rest hrest
      obtain ⟨front, before, name, more, hdeclares⟩ := exists_declares_variable eof hdecl
      have hread := fun start =>
        hdeclares.reads start rest (hrest.ended.mono Kind.endsExpression_of_isBoundary)
      rw [member_def]
      refine (hdeclares.reads_modifiers rest).gives.andThen fun _ => ?_
      simp only [if_neg (show name.kind ≠ .keyword .fx by simp [hdeclares.isName])]
      exact ((hread _).map _).gives
  | _, _, .method hdecl => by
      intro rest _
      obtain ⟨front, modifiers, keyword, more, rfl, hfront, hkeyword, hread⟩ :=
        function_reads_function hdecl
      have hends : Followed Kind.endsModifiers (keyword :: (more ++ rest)) := by
        rw [followed_cons, hkeyword]
        rfl
      rw [List.append_assoc, member_def]
      refine (modifierList_reads_modifiers hfront rfl _ hends).gives.andThen fun _ => ?_
      simp only [List.cons_append, if_pos hkeyword]
      exact ((hread _ rest).map _).behind keyword

theorem branch_reads_branch : ∀ {tokens stmt}, IsBranch tokens stmt →
    ∃ keyword more, tokens = keyword :: more ∧ keyword.kind = .keyword .if ∧
      ∀ rest, afterElse? rest = none → (branch eof (more ++ rest)).Gives stmt rest
  | _, _, @IsBranch.alone keyword tokens body condition stmts hkeyword hcondition hbody => by
      refine ⟨keyword, tokens ++ body, rfl, hkeyword, fun rest helse => ?_⟩
      have hends := (followed_of_isBlock hbody rest).mono Kind.endsExpression_of_startsBlock
      rw [List.append_assoc, branch_def]
      refine (expression_reads_assignment eof hcondition _ hends).gives.andThen fun _ => ?_
      refine (block_reads_block hbody rest).andThen fun _ => ?_
      split
      next => exact gives_done.mpr ⟨rfl, rfl⟩
      next inner hinner => simp [helse] at hinner
  | _, _, @IsBranch.otherwise keyword last tokens body breaks tail condition stmts other hkeyword
      hcondition hbody hbreaks hlast hother => by
      refine ⟨keyword, _, rfl, hkeyword, fun rest helse => ?_⟩
      have hafter : afterElse? (breaks ++ last :: (tail ++ rest)) = some (tail ++ rest) := by
        rw [afterElse?, skipNewlines_append hbreaks, skipNewlines_of_kind (by simp [hlast])]
        exact if_pos hlast
      have hends := (followed_of_isBlock hbody (breaks ++ last :: (tail ++ rest))).mono
        Kind.endsExpression_of_startsBlock
      have hinput : tokens ++ (body ++ (breaks ++ last :: tail)) ++ rest =
          tokens ++ (body ++ (breaks ++ last :: (tail ++ rest))) := by simp
      rw [hinput, branch_def]
      refine (expression_reads_assignment eof hcondition _ hends).gives.andThen fun _ => ?_
      refine (block_reads_block hbody _).andThen fun _ => ?_
      split
      next hinner => simp [hafter] at hinner
      next inner hinner =>
        obtain rfl : tail ++ rest = inner := Option.some.inj (hafter.symm.trans hinner)
        exact ((otherwise_reads_otherwise hother rest helse).map _).within _

theorem otherwise_reads_otherwise : ∀ {tokens stmts}, IsOtherwise tokens stmts → ∀ rest,
    afterElse? rest = none → (otherwise eof (tokens ++ rest)).Gives stmts rest
  | _, _, .block hblock => by
      intro rest _
      rw [otherwise_eq_block (followed_of_isBlock hblock rest)]
      exact block_reads_block hblock rest
  | _, _, .branch hbranch => by
      intro rest helse
      obtain ⟨keyword, more, rfl, hkeyword, hread⟩ := branch_reads_branch hbranch
      rw [List.cons_append, otherwise_cons, if_pos hkeyword]
      exact ((hread rest helse).map _).behind keyword

theorem block_reads_block : ∀ {tokens stmts}, IsBlock tokens stmts → ∀ rest,
    (block eof (tokens ++ rest)).Gives stmts rest
  | _, _, @IsBlock.intro _ _ _ last _ hbreaks hfirst hbody hlast => by
      intro rest
      have hatEnd : AtEnd (last :: rest) := by simp [AtEnd, hlast]
      refine block_gives hbreaks hfirst hlast ?_
      refine (statements_loop eof .block true).repeats.reads (statements_read hbody) hatEnd ?_
      rw [(statements_loop eof .block true).stop (.inr ⟨hlast, rfl⟩)]
      exact gives_done.mpr ⟨rfl, rfl⟩

theorem statements_read : ∀ {tokens stmts}, Items (IsStmt .block) tokens stmts →
    Items (ReadStatement (statement eof .block)) tokens stmts
  | _, _, .nil => .nil
  | _, _, .blank hends hitems => .blank hends (statements_read hitems)
  | _, _, .last hitem => .last ⟨headed_of_isStmt hitem, statement_reads_stmt hitem⟩
  | _, _, .cons hitem hends hmore =>
      .cons ⟨headed_of_isStmt hitem, statement_reads_stmt hitem⟩ hends (statements_read hmore)

theorem members_read : ∀ {tokens decls}, Items IsMember tokens decls →
    Items (ReadStatement (member eof)) tokens decls
  | _, _, .nil => .nil
  | _, _, .blank hends hitems => .blank hends (members_read hitems)
  | _, _, .last hitem => .last ⟨headed_of_isMember hitem, member_reads_member hitem⟩
  | _, _, .cons hitem hends hmore =>
      .cons ⟨headed_of_isMember hitem, member_reads_member hitem⟩ hends (members_read hmore)
end

end Programs

end KCompiler
