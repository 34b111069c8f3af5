import KCompiler.Parse.Program
import KCompiler.Proofs.Progress.Basic

/-! # Every step goes forward

The run of every parser goes forward. How many tokens a parser has ahead bounds the activations
inside; the proofs follow the definitions of the parsers, one rule for each combinator.
-/

namespace KCompiler.Traced

variable {α : Type} {whole : List Token} {eof : Token} {bound : Nat}

/-! ## Lists and types -/

theorem itemsOf_advances {closing : Kind} (input : List Token)
    {item : (inner : List Token) → inner.length ≤ input.length → Traced inner α}
    (hitem : ∀ inner hlength, (item inner hlength).Advances whole bound) :
    (itemsOf closing input item).Advances whole bound := by
  match input with
  | [] =>
      rw [itemsOf]
      exact advances_silent _
  | token :: tokens =>
      refine Advances.given fun hinput => ?_
      rw [itemsOf]
      split
      · exact advances_silent _
      · apply (hitem _ _).andThen
        intro first rest hrest
        cases rest with
        | nil => exact advances_silent _
        | cons comma more =>
            have hmore := length_skipNewlines_le more
            simp only [List.length_cons] at hrest
            simp only
            split
            · apply Advances.behind
              apply Advances.within
              apply Advances.map
              refine Advances.turning ?_ hinput (by omega) .items
              exact itemsOf_advances (skipNewlines more) fun inner hlength => hitem inner _
            · exact advances_silent _
termination_by input.length
decreasing_by simp only [List.length_cons] at *; omega

theorem listOf_advances {closing : Kind} {input : List Token}
    {item : (inner : List Token) → inner.length ≤ input.length → Traced inner α}
    (hbound : 7 * input.length + 3 < bound)
    (hitem : ∀ inner hlength, (item inner hlength).Advances whole (7 * input.length + 3)) :
    (listOf closing input item).Advances whole bound := by
  refine Advances.entering ?_ hbound
  apply Advances.within
  exact itemsOf_advances (skipNewlines input) fun inner _ => hitem inner _

/-- The items of a list are entered behind its opening token. -/
theorem delimited_advances {opening closing : Kind} {input : List Token}
    {item : (inner : List Token) → inner.length < input.length → Traced inner α}
    (hbound : 7 * input.length ≤ bound)
    (hitem : ∀ inner hlength bound, 7 * inner.length + 2 < bound →
      (item inner hlength).Advances whole bound) :
    (delimited eof opening closing input item).Advances whole bound := by
  unfold delimited
  cases input with
  | nil => exact advances_silent _
  | cons token rest =>
      simp only [List.length_cons] at hbound
      dsimp only
      split
      · apply Advances.behind
        refine Advances.andThen (listOf_advances (by omega) fun inner hlength => ?_) ?_
        · exact hitem inner _ _ (by omega)
        · intro items rest _
          exact advances_expecting fun _ _ _ => advances_silent _
      · exact advances_silent _

theorem typeExpr_advances (input : List Token) (bound : Nat) (hbound : 7 * input.length < bound) :
    (typeExpr eof input).Advances whole bound := by
  rw [typeExpr.eq_def]
  refine Advances.entering ?_ hbound
  cases input with
  | nil => exact advances_silent _
  | cons token rest =>
      dsimp only
      cases Ty.ofToken? token with
      | none => exact advances_silent _
      | some base =>
          apply Advances.behind
          apply Advances.map
          refine delimited_advances ?_ fun inner hlength bound hinner => ?_
          · show 7 * rest.length ≤ 7 * (rest.length + 1) + 0
            omega
          · exact typeExpr_advances inner bound (by omega)
termination_by input.length
decreasing_by subst_vars; simp only [List.length_cons]; omega

theorem typeArguments_advances {input : List Token} (hbound : 7 * input.length ≤ bound) :
    (typeArguments eof input).Advances whole bound :=
  delimited_advances hbound fun inner _ bound hinner => typeExpr_advances inner bound (by omega)

/-! ## Expressions -/

mutual
theorem expression_advances (least : Nat) (input : List Token) (bound : Nat)
    (hbound : 7 * input.length + 2 < bound) :
    (expression eof least input).Advances whole bound := by
  rw [expression]
  refine Advances.entering ?_ hbound
  refine Advances.andThen (operand_advances input _ ?_) fun first rest hlength => ?_
  · show 7 * input.length + 1 < 7 * input.length + 2
    omega
  · refine operators_advances least unboundedPower first rest _ ?_
    show 7 * rest.length ≤ 7 * input.length + 2
    omega
termination_by 3 * input.length + 2
decreasing_by all_goals omega

theorem operand_advances (input : List Token) (bound : Nat)
    (hbound : 7 * input.length + 1 < bound) : (operand eof input).Advances whole bound := by
  rw [operand.eq_def]
  refine Advances.entering ?_ hbound
  cases input with
  | nil => exact advances_silent _
  | cons token rest =>
      -- All that is entered here is entered behind the token.
      have hmeasure : 7 * rest.length + 8 = Routine.operand.measure (token :: rest) := rfl
      have hnewlines := length_skipNewlines_le rest
      dsimp only
      cases Opening.ofToken? token with
      | none =>
          dsimp only
          split <;> exact advances_silent _
      | some opening =>
          cases opening with
          | leading op =>
              apply Advances.behind
              apply Advances.map
              exact expression_advances leadingPower rest _ (by omega)
          | literal value findings => exact advances_silent _
          | name name =>
              apply Advances.behind
              refine Advances.andThen (typeArguments_advances (by omega)) ?_
              intro typeArgs behind hlength
              apply Advances.map
              refine delimited_advances (by omega) fun inner hinner bound hbound => ?_
              exact expression_advances 0 inner bound hbound
          | group =>
              apply Advances.behind
              apply Advances.within
              refine Advances.andThen (expression_advances 0 (skipNewlines rest) _ (by omega)) ?_
              intro inside behind _
              exact advances_expecting fun _ _ _ => advances_silent _
termination_by 3 * input.length + 1
decreasing_by all_goals subst_vars; simp only [List.length_cons]; omega

theorem operators_advances (least most : Nat) (first : Expr) (input : List Token) (bound : Nat)
    (hbound : 7 * input.length ≤ bound) :
    (operators eof least most first input).Advances whole bound := by
  refine Advances.given fun hinput => ?_
  rw [operators.eq_def]
  cases input with
  | nil => exact advances_silent _
  | cons token rest =>
      simp only [List.length_cons] at hbound
      dsimp only
      cases Continuation.ofKind? token.kind with
      | none => exact advances_silent _
      | some continuation =>
          cases continuation with
          | trailing op =>
              dsimp only
              split
              · apply Advances.behind
                refine Advances.turning ?_ hinput (Nat.le_refl _) .operators
                exact operators_advances least most (.unary op .behind first) rest bound (by omega)
              · exact advances_silent _
          | cast =>
              dsimp only
              split
              · apply Advances.behind
                refine Advances.andThen (typeExpr_advances rest bound (by omega)) ?_
                intro target behind hlength
                refine Advances.turning ?_ hinput hlength .operators
                exact operators_advances least castPower (.cast first target) behind bound
                  (by omega)
              · exact advances_silent _
          | binary op =>
              dsimp only
              split
              · apply Advances.behind
                refine Advances.andThen (expression_advances op.powers.2 rest bound (by omega)) ?_
                intro second behind hlength
                refine Advances.turning ?_ hinput hlength .operators
                exact operators_advances least (min most op.powers.1) (.binary op first second)
                  behind bound (by omega)
              · exact advances_silent _
termination_by 3 * input.length
decreasing_by all_goals subst_vars; simp only [List.length_cons]; omega
end

/-! ## Declarations -/

section Declarations

variable {input : List Token}

theorem binding_advances (scope : Scope) (modifiers : Modifiers) (start : Span)
    (hbound : 7 * input.length ≤ bound) :
    (binding eof scope modifiers start input).Advances whole bound := by
  refine advances_expecting fun name rest hname => ?_
  refine Advances.andThen (advances_silent _) fun modifiers rest hmut => ?_
  refine advances_expecting fun colon rest hcolon => ?_
  refine Advances.andThen (typeExpr_advances rest bound (by omega)) fun type _ _ => ?_
  exact advances_silent _

theorem initialValue_advances (hbound : 7 * input.length ≤ bound) :
    (initialValue eof input).Advances whole bound := by
  unfold initialValue
  cases input with
  | nil => exact advances_silent _
  | cons token rest =>
      simp only [List.length_cons] at hbound
      dsimp only
      split
      · apply Advances.behind
        apply Advances.map
        exact expression_advances 0 rest bound (by omega)
      · exact advances_silent _

theorem variableDecl_advances (scope : Scope) (modifiers : Modifiers) (start : Span)
    (hbound : 7 * input.length ≤ bound) :
    (variableDecl eof scope modifiers start input).Advances whole bound := by
  refine Advances.andThen (binding_advances scope modifiers start hbound) ?_
  intro decl rest hlength
  exact (initialValue_advances (by omega)).map _

theorem parameter_advances (hbound : 7 * input.length ≤ bound) :
    (parameter eof input).Advances whole bound := by
  refine Advances.andThen (advances_silent _) fun modifiers rest hlength => ?_
  exact binding_advances .parameter modifiers _ (by omega)

theorem parameters_advances (hbound : 7 * input.length ≤ bound) :
    (parameters eof input).Advances whole bound := by
  refine advances_expecting fun paren rest hparen => ?_
  refine Advances.andThen (listOf_advances (by omega) fun inner hlength => ?_) ?_
  · exact parameter_advances (by omega)
  · exact fun params rest _ => advances_expecting fun _ _ _ => advances_silent _

theorem generics_advances (hbound : 7 * input.length ≤ bound) :
    (generics eof input).Advances whole bound := by
  apply Advances.map
  exact delimited_advances hbound fun inner _ bound _ => advances_silent _

theorem returnType_advances (hbound : 7 * input.length ≤ bound) :
    (returnType eof input).Advances whole bound := by
  unfold returnType
  cases input with
  | nil => exact advances_silent _
  | cons token rest =>
      simp only [List.length_cons] at hbound
      dsimp only
      split
      · exact (typeExpr_advances rest bound (by omega)).behind token
      · exact advances_silent _

theorem signature_advances (scope : Scope) (modifiers : Modifiers)
    (hbound : 7 * input.length ≤ bound) :
    (signature eof scope modifiers input).Advances whole bound := by
  refine advances_expecting fun name rest hname => ?_
  refine Advances.andThen (generics_advances (by omega)) fun generics rest hgenerics => ?_
  refine Advances.andThen (parameters_advances (by omega)) fun params rest hparams => ?_
  exact (returnType_advances (by omega)).map _

theorem typeAlias_advances (hbound : 7 * input.length < bound) :
    (typeAlias eof input).Advances whole bound := by
  refine Advances.andThen (typeExpr_advances input bound hbound) fun target rest _ => ?_
  refine advances_expecting fun _ rest _ => ?_
  exact advances_expecting fun name _ _ => advances_silent _

end Declarations

/-! ## Statements -/

/-- Where a statement ends lies behind what was parsed of it. -/
theorem rest_finishStatement_suffix {input : List Token} (outcome : Outcome input α) :
    (finishStatement outcome).rest <:+ outcome.rest := by
  rw [rest_finishStatement]
  split
  · exact (endStatement outcome.rest).suffix
  · exact recover_suffix outcome.rest

theorem thenTurn_advances {token : Token} {rest : List Token} {parsed : Traced (token :: rest) α}
    {more : (behind : List Token) → behind = (finishStatement parsed.outcome).rest →
      Traced behind (List α)}
    (hinner : token.kind.isBoundary = false) (hparsed : parsed.Advances whole bound)
    (hmore : ∀ behind hbehind, (more behind hbehind).Advances whole bound) (loop : Loop) :
    (thenTurn loop parsed more).Advances whole bound := by
  intro hinput
  have hless := length_finishStatement_lt hinner parsed.outcome
  have hfinish := rest_finishStatement_suffix parsed.outcome
  have hmore := hmore _ rfl ((finishStatement parsed.outcome).suffix.trans hinput)
  exact (hparsed hinput).append (.turn hinput hfinish hless hmore)

theorem advances_onElse {rest : List Token} {without : Traced rest α}
    {behind : (inner : List Token) → afterElse? rest = some inner → Traced rest α}
    (hwithout : without.Advances whole bound)
    (hbehind : ∀ inner helse, (behind inner helse).Advances whole bound) :
    (onElse rest without behind).Advances whole bound := by
  unfold onElse
  split
  next => exact hwithout
  next inner helse => exact hbehind inner helse

/-- A routine that begins with a keyword is entered before it, and goes on behind it. -/
theorem Advances.enteringAt {routine : Routine} {input : List Token} {traced : Traced input α}
    (hrank : routine.rank = 5) (hadvances : traced.Advances whole (7 * input.length + 12))
    (hbound : 7 * input.length + 12 < bound) (token : Token) :
    ((traced.behind token).entering routine).Advances whole bound := by
  have hmeasure : routine.measure (token :: input) = 7 * input.length + 12 := by
    rw [Routine.measure, hrank, List.length_cons]
    omega
  rw [← hmeasure] at hadvances hbound
  exact Advances.entering (hadvances.behind token) hbound

mutual
theorem statements_advances (scope : Scope) (inBlock : Bool) (input : List Token) (bound : Nat)
    (hbound : 7 * input.length + 6 < bound) :
    (statements eof scope inBlock input).Advances whole bound := by
  refine Advances.given fun hinput => ?_
  rw [statements.eq_def]
  cases input with
  | nil => exact advances_silent _
  | cons token rest =>
      simp only [List.length_cons] at hbound
      dsimp only
      split
      next =>
        split
        · exact advances_silent _
        · apply Advances.behind
          apply Advances.reporting
          refine Advances.turning ?_ hinput (Nat.le_refl _) .statements
          exact statements_advances scope inBlock rest bound (by omega)
      next hboundary =>
        have hinner : token.kind.isBoundary = false := by simpa using hboundary
        refine thenTurn_advances hinner (statement_advances scope (token :: rest) bound hbound) ?_ _
        intro behind hbehind
        have hless : behind.length < rest.length + 1 :=
          hbehind ▸ length_finishStatement_lt hinner (statement eof scope (token :: rest)).outcome
        exact statements_advances scope inBlock behind bound (by omega)
termination_by 6 * input.length + 5
decreasing_by all_goals subst_vars; simp only [List.length_cons]; omega

theorem statement_advances (scope : Scope) (input : List Token) (bound : Nat)
    (hbound : 7 * input.length + 6 < bound) :
    (statement eof scope input).Advances whole bound := by
  rw [statement]
  refine Advances.entering ?_ hbound
  refine Advances.andThen (advances_silent _) fun modifiers rest hlength => ?_
  refine unmodifiedStatement_advances scope modifiers _ rest _ ?_
  show 7 * rest.length + 6 ≤ 7 * input.length + 6
  omega
termination_by 6 * input.length + 4
decreasing_by omega

theorem unmodifiedStatement_advances (scope : Scope) (modifiers : Modifiers) (start : Span)
    (input : List Token) (bound : Nat) (hbound : 7 * input.length + 6 ≤ bound) :
    (unmodifiedStatement eof scope modifiers start input).Advances whole bound := by
  rw [unmodifiedStatement.eq_def]
  cases input with
  | nil => exact ((expression_advances 0 [] bound (by omega)).map _).reporting _
  | cons token rest =>
      have hother (kind : Kind) :
          Advances whole bound
            (if startsVariable (token :: rest) then
              (variableDecl eof scope modifiers start (token :: rest)).map Stmt.variable
            else
              ((expression eof 0 (token :: rest)).map Stmt.expr).reporting
                (misplaced modifiers kind start)) := by
        split
        · exact (variableDecl_advances scope modifiers start (by omega)).map _
        · exact ((expression_advances 0 (token :: rest) bound (by omega)).map _).reporting _
      simp only [List.length_cons] at hbound
      dsimp only
      cases token.kind with
      | keyword word =>
          cases word with
          | record => exact record_advances scope modifiers start token rest bound (by omega)
          | fx => exact (function_advances scope modifiers start token rest bound (by omega)).map _
          | «alias» => exact ((typeAlias_advances (by omega)).behind token).reporting _
          | «if» => exact (branch_advances token rest bound (by omega)).reporting _
          | «while» =>
              apply Advances.reporting
              apply Advances.behind
              refine Advances.andThen (expression_advances 0 rest bound (by omega)) ?_
              intro condition behind hlength
              exact (block_advances behind bound (by omega)).map _
          | defer =>
              apply Advances.reporting
              apply Advances.behind
              exact (block_advances rest bound (by omega)).map _
          | «break» => exact advances_silent _
          | «continue» => exact advances_silent _
          | _ => exact hother _
      | _ => exact hother _
termination_by 6 * input.length + 3
decreasing_by all_goals subst_vars; simp only [List.length_cons]; omega

theorem members_advances (input : List Token) (bound : Nat)
    (hbound : 7 * input.length + 5 < bound) : (members eof input).Advances whole bound := by
  refine Advances.given fun hinput => ?_
  rw [members.eq_def]
  cases input with
  | nil => exact advances_silent _
  | cons token rest =>
      simp only [List.length_cons] at hbound
      dsimp only
      split
      next =>
        split
        · exact advances_silent _
        · apply Advances.behind
          refine Advances.turning ?_ hinput (Nat.le_refl _) .members
          exact members_advances rest bound (by omega)
      next hboundary =>
        have hinner : token.kind.isBoundary = false := by simpa using hboundary
        refine thenTurn_advances hinner (member_advances (token :: rest) bound hbound) ?_ _
        intro behind hbehind
        have hless : behind.length < rest.length + 1 :=
          hbehind ▸ length_finishStatement_lt hinner (member eof (token :: rest)).outcome
        exact members_advances behind bound (by omega)
termination_by 6 * input.length + 5
decreasing_by all_goals subst_vars; simp only [List.length_cons]; omega

theorem member_advances (input : List Token) (bound : Nat)
    (hbound : 7 * input.length + 5 < bound) : (member eof input).Advances whole bound := by
  rw [member]
  refine Advances.andThen (advances_silent _) fun modifiers rest hlength => ?_
  cases rest with
  | nil => exact (variableDecl_advances .field modifiers _ (by omega)).map _
  | cons token tokens =>
      have htokens : tokens.length + 1 ≤ input.length := hlength
      simp only
      split
      · exact (function_advances .method modifiers _ token tokens bound (by omega)).map _
      · exact (variableDecl_advances .field modifiers _ (by omega)).map _
termination_by 6 * input.length + 4
decreasing_by omega

theorem record_advances (scope : Scope) (modifiers : Modifiers) (start : Span) (token : Token)
    (input : List Token) (bound : Nat) (hbound : 7 * input.length + 12 < bound) :
    (entering .record <| (record eof scope modifiers start input).behind token).Advances whole
      bound := by
  refine Advances.enteringAt rfl ?_ hbound token
  rw [record]
  refine Advances.andThen (typeExpr_advances input _ (by omega)) fun type rest hrest => ?_
  have hnewlines := length_skipNewlines_le rest
  apply Advances.within
  refine advances_expecting fun _ inner hinner => ?_
  refine Advances.andThen (members_advances inner _ (by omega)) fun members rest _ => ?_
  exact advances_expecting fun _ _ _ => advances_silent _
termination_by 6 * input.length + 2
decreasing_by omega

theorem function_advances (scope : Scope) (modifiers : Modifiers) (start : Span) (token : Token)
    (input : List Token) (bound : Nat) (hbound : 7 * input.length + 12 < bound) :
    (entering .function <| (function eof scope modifiers start input).behind token).Advances whole
      bound := by
  refine Advances.enteringAt rfl ?_ hbound token
  rw [function]
  refine Advances.andThen (signature_advances scope modifiers (by omega)) ?_
  intro signature rest hrest
  refine Advances.andThen (block_advances rest _ (by omega)) fun body _ _ => ?_
  exact advances_silent _
termination_by 6 * input.length + 2
decreasing_by omega

theorem branch_advances (token : Token) (input : List Token) (bound : Nat)
    (hbound : 7 * input.length + 12 < bound) :
    (entering .branch <| (branch eof input).behind token).Advances whole bound := by
  refine Advances.enteringAt rfl ?_ hbound token
  rw [branch]
  refine Advances.andThen (expression_advances 0 input _ (by omega)) fun condition rest hrest => ?_
  refine Advances.andThen (block_advances rest _ (by omega)) fun body behind hbehind => ?_
  refine advances_onElse (advances_silent _) fun inner helse => ?_
  have hless := (afterElse?_suffix helse).2
  apply Advances.within
  exact (otherwise_advances inner _ (by omega)).map _
termination_by 6 * input.length + 2
decreasing_by all_goals omega

theorem otherwise_advances (input : List Token) (bound : Nat)
    (hbound : 7 * input.length + 5 < bound) : (otherwise eof input).Advances whole bound := by
  rw [otherwise.eq_def]
  cases input with
  | nil => exact block_advances [] bound (by omega)
  | cons token rest =>
      have hrest : 7 * (rest.length + 1) + 5 < bound := hbound
      dsimp only
      split
      · exact (branch_advances token rest bound (by omega)).map _
      · exact block_advances (token :: rest) bound (by omega)
termination_by 6 * input.length + 2
decreasing_by all_goals subst_vars; simp only [List.length_cons, List.length_nil]; omega

theorem block_advances (input : List Token) (bound : Nat)
    (hbound : 7 * input.length + 4 < bound) : (block eof input).Advances whole bound := by
  rw [block]
  refine Advances.entering ?_ hbound
  have hmeasure : 7 * input.length + 4 = Routine.block.measure input := rfl
  have hnewlines := length_skipNewlines_le input
  apply Advances.within
  refine advances_expecting fun _ inner hinner => ?_
  refine Advances.andThen (statements_advances .block true inner _ (by omega)) ?_
  intro body rest _
  exact advances_expecting fun _ _ _ => advances_silent _
termination_by 6 * input.length + 1
decreasing_by omega
end

end KCompiler.Traced
