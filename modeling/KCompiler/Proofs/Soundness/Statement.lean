import KCompiler.Proofs.Failure
import KCompiler.Proofs.Soundness.Declaration

/-! # Accepted statements

A statement is left out of a tree only after an error, and only its own end, a closing brace or
the end of the input stands behind one that is accepted.
-/

namespace KCompiler

open Grammar Outcome

variable {eof : Token} {α : Type}

/-- An input at the closing brace of its block or at its end. -/
def AtEnd (input : List Token) : Prop :=
  ∀ token ∈ input.head?, token.kind = .punct .rbrace ∨ token.kind = .eof

theorem endStatement_cases {input : List Token}
    (hharmless : ∀ finding ∈ (endStatement input).findings, finding.Harmless) :
    (∃ last, Ends last ∧ input = last :: (endStatement input).rest) ∨
      (endStatement input).rest = input ∧ AtEnd input := by
  cases input with
  | nil => exact .inr ⟨rfl, by simp [AtEnd]⟩
  | cons token rest =>
      by_cases hends : token.kind = .newline ∨ token.kind = .punct .semicolon
      · exact .inl ⟨token, hends, by simp [endStatement, hends]⟩
      · by_cases hboundary : token.kind.isBoundary
        · refine .inr ⟨by simp [endStatement, hends, hboundary], ?_⟩
          rintro _ ⟨⟩
          rcases Kind.cases_of_isBoundary true hboundary with hstop | hblank | ⟨-, hopen⟩
          · exact hstop.symm.imp_left And.left
          · exact absurd hblank hends
          · cases hopen
        · simp [endStatement, hends, hboundary, Finding.Harmless, Finding.isError, Issue.level]
            at hharmless

/-- A statement that has been finished without an error was read, and it is ended by the token
behind it or by what encloses it. -/
theorem finishStatement_cases {input : List Token} {rule : List Token → α → Prop}
    {outcome : Outcome input α} (hreads : outcome.Reads rule) (hloud : outcome.Loud)
    (hharmless : ∀ finding ∈ (finishStatement outcome).findings, finding.Harmless) :
    ∃ taken value, rule taken value ∧ (finishStatement outcome).value = some (some value) ∧
      ((∃ last, Ends last ∧ input = taken ++ last :: (finishStatement outcome).rest) ∨
        input = taken ++ (finishStatement outcome).rest ∧
          AtEnd (finishStatement outcome).rest) := by
  cases hvalue : outcome.value with
  | none =>
      -- A statement that is left out has been reported.
      obtain ⟨finding, hmem, herror⟩ := hloud hvalue
      have hfinding := hharmless finding (by simpa [finishStatement, hvalue] using hmem)
      rw [Finding.Harmless, herror] at hfinding
      cases hfinding
  | some value =>
      simp only [finishStatement, hvalue, findings_within, findings_reporting, findings_map,
        List.forall_mem_append] at hharmless
      obtain ⟨taken, hinput, htaken⟩ := hreads value outcome.rest ⟨hvalue, rfl, hharmless.1⟩
      have hend := endStatement_cases hharmless.2
      refine ⟨taken, value, htaken, by simp [finishStatement, hvalue, value_endStatement], ?_⟩
      simp only [finishStatement, hvalue, rest_within, rest_reporting, rest_map]
      rcases hend with ⟨last, hlast, hrest⟩ | ⟨hrest, hatEnd⟩
      · exact .inl ⟨last, hlast, by rw [← hrest]; exact hinput⟩
      · rw [hrest]
        exact .inr ⟨hinput, hatEnd⟩

/-- A finished statement before others, or the last one if nothing can follow it. -/
theorem finished_reads {input : List Token} {rule : List Token → α → Prop}
    {outcome : Outcome input α} {more : Outcome (finishStatement outcome).rest (List α)}
    (hreads : outcome.Reads rule) (hloud : outcome.Loud) (hmore : more.Reads (Items rule))
    (hend : AtEnd (finishStatement outcome).rest →
      more.Reads fun taken values => taken = [] ∧ values = []) :
    (((more.map fun values => (finishStatement outcome).value.join.toList ++ values).reporting
      (finishStatement outcome).findings).within (finishStatement outcome).suffix).Reads
        (Items rule) := by
  intro result rest hgives
  obtain ⟨hharmless, hgives⟩ := gives_reporting.mp (gives_within.mp hgives)
  obtain ⟨values, hvalues, rfl⟩ := gives_map.mp hgives
  obtain ⟨tokens, value, htokens, hvalue, hended⟩ := finishStatement_cases hreads hloud hharmless
  rw [hvalue]
  rcases hended with ⟨last, hlast, hinput⟩ | ⟨hinput, hatEnd⟩
  · obtain ⟨taken, hrest, htaken⟩ := hmore values rest hvalues
    refine ⟨tokens ++ last :: taken, ?_, .cons htokens hlast htaken⟩
    rw [hrest] at hinput
    simpa using hinput
  · -- No token of its own ends the statement, so that nothing else stands behind it.
    obtain ⟨taken, hrest, rfl, rfl⟩ := hend hatEnd values rest hvalues
    refine ⟨tokens, ?_, .last htokens⟩
    rw [hrest] at hinput
    exact hinput

namespace StatementLoop

variable {inBraces : Bool} {loop : (input : List Token) → Outcome input (List α)}
  {parse : (input : List Token) → Outcome input α} (hloop : StatementLoop inBraces loop parse)
  {input : List Token}

include hloop

theorem reads_nil (hatEnd : AtEnd input) :
    (loop input).Reads fun taken values => taken = [] ∧ values = [] := by
  cases input with
  | nil =>
      rw [hloop.nil]
      exact reads_done ⟨rfl, rfl⟩
  | cons token rest =>
      rcases hatEnd token rfl with hbrace | heof
      · cases hopen : inBraces with
        | false =>
            rw [hloop.stray hbrace hopen]
            exact Reads.behind (reads_of_error ⟨_, List.mem_singleton_self _, rfl⟩)
        | true =>
            rw [hloop.stop (.inr ⟨hbrace, hopen⟩)]
            exact reads_done ⟨rfl, rfl⟩
      · rw [hloop.stop (.inl heof)]
        exact reads_done ⟨rfl, rfl⟩

/-- Statements that are read one behind the other follow the grammar if each of them does. -/
theorem reads_items {rule : List Token → α → Prop}
    (hreads : ∀ inner, inner.length ≤ input.length → (parse inner).Reads rule)
    (hloud : ∀ inner, (parse inner).Loud) : (loop input).Reads (Items rule) := by
  induction input using statementInduction inBraces parse with
  | nil =>
      rw [hloop.nil]
      exact reads_done .nil
  | stop token rest hstop =>
      rw [hloop.stop hstop]
      exact reads_done .nil
  | blank token rest hends ih =>
      have hrest := ih fun inner hinner => hreads inner (Nat.le_succ_of_le hinner)
      rw [hloop.blank hends]
      exact Reads.behind (hrest.mono fun _ _ => .blank hends)
  | stray token rest hbrace hopen =>
      -- A closing brace that is passed over is an error.
      rw [hloop.stray hbrace hopen]
      exact Reads.behind (reads_of_error ⟨_, List.mem_singleton_self _, rfl⟩)
  | item token rest hinner ih =>
      have hless := length_finishStatement_lt hinner (parse (token :: rest))
      have hmore := ih fun inner hle => hreads inner (by omega)
      rw [hloop.item hinner]
      exact finished_reads (hreads _ (Nat.le_refl _)) (hloud _) hmore hloop.reads_nil

end StatementLoop

theorem statements_atEnd {scope : Scope} {inBlock : Bool} {input : List Token}
    (hatEnd : AtEnd input) :
    (statements eof scope inBlock input).Reads fun taken stmts => taken = [] ∧ stmts = [] :=
  (statements_loop eof scope inBlock).reads_nil hatEnd

theorem nil_of_misplaced {modifiers : Modifiers} {kind : Kind} {start : Span} {front : List Token}
    (hfront : IsModifiers front modifiers.toList)
    (hharmless : ∀ finding ∈ misplaced modifiers kind start, finding.Harmless) : front = [] := by
  unfold misplaced at hharmless
  split at hharmless
  next hempty =>
    rw [Modifiers.isEmpty, List.isEmpty_iff] at hempty
    rw [hempty] at hfront
    cases hfront
    rfl
  next => simp [Finding.Harmless, Finding.isError, Issue.level] at hharmless

mutual
theorem statements_reads (scope : Scope) (inBlock : Bool) (input : List Token) :
    (statements eof scope inBlock input).Reads (Items (IsStmt scope)) :=
  (statements_loop eof scope inBlock).reads_items
    (fun inner _ => statement_reads scope inner) (statement_loud scope)
termination_by 6 * input.length + 5
decreasing_by omega

theorem statement_reads (scope : Scope) (input : List Token) :
    (statement eof scope input).Reads (IsStmt scope) := by
  rw [statement_def]
  apply (modifierList_empty_reads input).andThen
  intro front modifiers hfront rest hrest
  exact unmodifiedStatement_reads hfront rest
termination_by 6 * input.length + 4
decreasing_by omega

theorem unmodifiedStatement_reads {scope : Scope} {modifiers : Modifiers} {start : Span}
    {front : List Token} (hfront : IsModifiers front modifiers.toList) (input : List Token) :
    (unmodifiedStatement eof scope modifiers start input).Reads fun taken =>
      IsStmt scope (front ++ taken) := by
  -- Statements that take no modifiers were read without any.
  have hplain {kind : Kind} {inner : List Token} {outcome : Outcome inner Stmt}
      (hreads : outcome.Reads (IsStmt scope)) :
      (outcome.reporting (misplaced modifiers kind start)).Reads fun taken =>
        IsStmt scope (front ++ taken) := by
    apply Reads.reporting
    intro hharmless
    rw [nil_of_misplaced hfront hharmless]
    exact hreads
  cases input with
  | nil =>
      rw [unmodifiedStatement_nil]
      apply hplain
      apply Reads.map
      exact (expression_reads []).mono fun _ _ => .expr
  | cons token rest =>
      rw [unmodifiedStatement_cons]
      split
      next hkind =>
        apply Reads.behind
        exact record_reads hfront hkind rest
      next hkind =>
        apply Reads.behind
        apply Reads.map
        exact (function_reads hfront hkind rest).mono fun _ _ => .function
      next hkind =>
        apply hplain
        apply Reads.behind
        exact typeAlias_reads hkind rest
      next hkind =>
        apply hplain
        apply Reads.behind
        exact (branch_reads hkind rest).mono fun _ _ => .branch
      next hkind =>
        apply hplain
        apply Reads.behind
        apply (expression_reads rest).andThen
        intro tokens condition hcondition rest' hrest
        apply Reads.map
        exact (block_reads rest').mono fun _ _ => .loop hkind hcondition
      next hkind =>
        apply hplain
        apply Reads.behind
        apply Reads.map
        exact (block_reads rest).mono fun _ _ => .defer hkind
      next hkind =>
        apply hplain
        apply Reads.behind
        exact reads_done (.break hkind)
      next hkind =>
        apply hplain
        apply Reads.behind
        exact reads_done (.continue hkind)
      next =>
        split
        · apply Reads.map
          exact (variableDecl_reads hfront _).mono fun _ _ => .variable
        · apply hplain
          apply Reads.map
          exact (expression_reads _).mono fun _ _ => .expr
termination_by 6 * input.length + 3
decreasing_by all_goals simp only [List.length_cons]; omega

theorem members_reads (input : List Token) : (members eof input).Reads (Items IsMember) :=
  (members_loop eof).reads_items (fun inner _ => member_reads inner) member_loud
termination_by 6 * input.length + 5
decreasing_by omega

theorem member_reads (input : List Token) : (member eof input).Reads IsMember := by
  rw [member_def]
  apply (modifierList_empty_reads input).andThen
  intro front modifiers hfront rest hrest
  cases rest with
  | nil =>
      apply Reads.map
      exact (variableDecl_reads hfront []).mono fun _ _ => .field
  | cons token tokens =>
      simp only
      split
      next hkind =>
        apply Reads.behind
        apply Reads.map
        exact (function_reads hfront hkind tokens).mono fun _ _ => .method
      next =>
        apply Reads.map
        exact (variableDecl_reads hfront _).mono fun _ _ => .field
termination_by 6 * input.length + 4
decreasing_by all_goals simp only [List.length_cons] at *; omega

theorem record_reads {scope : Scope} {modifiers : Modifiers} {start : Span} {front : List Token}
    {keyword : Token} (hfront : IsModifiers front modifiers.toList)
    (hkeyword : keyword.kind = .keyword .record) (input : List Token) :
    (record eof scope modifiers start input).Reads fun taken =>
      IsStmt scope (front ++ keyword :: taken) := by
  rw [record_eq]
  apply (typeExpr_reads input).andThen
  intro tokens type htype rest hrest
  have hnewlines := length_skipNewlines_le rest
  apply Reads.withinNewlines
  intro breaks hbreaks
  apply Reads.expecting
  intro first hfirst inner hinner
  apply (members_reads inner).andThen
  intro body decls hdecls rest' _
  apply Reads.expecting
  intro last hlast rest'' _
  apply Reads.reporting
  intro hharmless
  -- Modifiers that do not suit a record are dropped from the tree, but not in silence.
  have hallowed := allowed_of_refusals (List.forall_mem_append.mp hharmless).2
  apply reads_done
  rw [Modifiers.allowed_of_allowed hallowed]
  exact .record hfront hallowed hkeyword htype hbreaks hfirst hdecls hlast
termination_by 6 * input.length + 2
decreasing_by omega

theorem function_reads {scope : Scope} {modifiers : Modifiers} {start : Span} {front : List Token}
    {keyword : Token} (hfront : IsModifiers front modifiers.toList)
    (hkeyword : keyword.kind = .keyword .fx) (input : List Token) :
    (function eof scope modifiers start input).Reads fun taken =>
      IsFunction scope (front ++ keyword :: taken) := by
  rw [function_eq]
  apply (signature_reads hfront hkeyword input).andThen
  rintro tokens signature ⟨rfl, hsignature⟩ rest hrest
  apply (block_reads rest).andThen
  intro body stmts hbody rest' _
  apply Reads.reporting
  intro hharmless
  have hallowed := allowed_of_refusals hharmless
  apply reads_done
  rw [Modifiers.allowed_of_allowed hallowed, List.append_nil]
  simpa using IsFunction.intro (hsignature hallowed) hbody
termination_by 6 * input.length + 2
decreasing_by omega

theorem branch_reads {keyword : Token} (hkeyword : keyword.kind = .keyword .if)
    (input : List Token) :
    (branch eof input).Reads fun taken => IsBranch (keyword :: taken) := by
  rw [branch_def]
  apply (expression_reads input).andThen
  intro tokens condition hcondition rest hrest
  apply (block_reads rest).andThen
  intro body stmts hbody rest' hrest'
  split
  next =>
    apply reads_done
    rw [List.append_nil]
    exact .alone hkeyword hcondition hbody
  next inner helse =>
    have hless := (afterElse?_suffix helse).2
    obtain ⟨breaks, last, hbreaks, hlast, hinput⟩ := exists_of_afterElse? helse
    -- The tokens up to the `else` are no outcome of a parser, so that the rule is met by hand.
    intro value left hgives
    obtain ⟨other, hother, rfl⟩ := gives_map.mp (gives_within.mp hgives)
    obtain ⟨tail, rfl, htail⟩ := otherwise_reads inner other left hother
    refine ⟨breaks ++ last :: tail, by simpa using hinput, ?_⟩
    exact .otherwise hkeyword hcondition hbody hbreaks hlast htail
termination_by 6 * input.length + 2
decreasing_by
  · omega
  · omega

theorem otherwise_reads (input : List Token) : (otherwise eof input).Reads IsOtherwise := by
  cases input with
  | nil =>
      rw [otherwise_nil]
      exact (block_reads []).mono fun _ _ => .block
  | cons token rest =>
      rw [otherwise_cons]
      split
      next hkind =>
        apply Reads.behind
        apply Reads.map
        exact (branch_reads hkind rest).mono fun _ _ => .branch
      next => exact (block_reads _).mono fun _ _ => .block
termination_by 6 * input.length + 2
decreasing_by all_goals simp only [List.length_cons, List.length_nil]; omega

theorem block_reads (input : List Token) : (block eof input).Reads IsBlock := by
  rw [block_def]
  have hnewlines := length_skipNewlines_le input
  apply Reads.withinNewlines
  intro breaks hbreaks
  apply Reads.expecting
  intro first hfirst inner hinner
  apply (statements_reads .block true inner).andThen
  intro body stmts hstmts rest _
  apply Reads.expecting
  intro last hlast rest' _
  exact reads_done (.intro hbreaks hfirst hstmts hlast)
termination_by 6 * input.length + 1
decreasing_by omega
end

end KCompiler
