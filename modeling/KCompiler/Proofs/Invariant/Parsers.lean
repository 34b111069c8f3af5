import KCompiler.Proofs.Invariant.Basic
import KCompiler.Proofs.Validation

/-! # Invariants of the parsers

An invariant of the combinators holds of every outcome of every parser. The proofs follow the
definitions of the parsers, one rule of the invariant for each step.
-/

namespace KCompiler

open Outcome

namespace Invariant

variable {eof : Token} {Holds : {input : List Token} → {α : Type} → Outcome input α → Prop}
  (invariant : Invariant eof Holds) {α : Type}

include invariant

theorem behind {input : List Token} {outcome : Outcome input α} {token : Token}
    (hkind : token.kind.isBrace = false) (houtcome : Holds outcome) :
    Holds (outcome.behind token) :=
  invariant.within _ ⟨[token], rfl, by simpa using hkind⟩ houtcome

theorem withinNewlines {input : List Token} {outcome : Outcome (skipNewlines input) α}
    (houtcome : Holds outcome) :
    Holds (outcome.within (skipNewlines_suffix input)) :=
  invariant.within _ (passesBy_skipNewlines input) houtcome

theorem expect_holds {kind : Kind} (hkind : kind.isBrace = false) (input : List Token) :
    Holds (expect eof kind input) := by
  rw [← expecting_done]
  exact invariant.expecting hkind fun token _ _ => invariant.done token

theorem itemsOf_holds {closing : Kind} (input : List Token)
    {item : (inner : List Token) → inner.length ≤ input.length → Outcome inner α}
    (hitem : ∀ inner hlength, Holds (item inner hlength)) :
    Holds (itemsOf closing input item) := by
  match input with
  | [] =>
      rw [itemsOf_nil]
      exact invariant.done _
  | token :: tokens =>
      rw [itemsOf_cons]
      split
      · exact invariant.done _
      · apply invariant.andThen (hitem _ _)
        intro first rest hrest
        cases rest with
        | nil => exact invariant.done _
        | cons comma more =>
            have hmore := length_skipNewlines_le more
            simp only
            split
            next hcomma =>
              apply invariant.behind (by rw [hcomma]; rfl)
              apply invariant.withinNewlines
              apply invariant.map
              exact itemsOf_holds (skipNewlines more) fun inner hlength => hitem inner _
            next => exact invariant.done _
termination_by input.length
decreasing_by simp only [List.length_cons] at *; omega

theorem listOf_holds {closing : Kind} {input : List Token}
    {item : (inner : List Token) → inner.length ≤ input.length → Outcome inner α}
    (hitem : ∀ inner hlength, Holds (item inner hlength)) :
    Holds (listOf closing input item) :=
  invariant.withinNewlines <|
    invariant.itemsOf_holds (skipNewlines input) fun inner _ => hitem inner _

theorem delimited_holds {opening closing : Kind} {input : List Token}
    {item : (inner : List Token) → inner.length < input.length → Outcome inner α}
    (hopening : opening.isBrace = false) (hclosing : closing.isBrace = false)
    (hitem : ∀ inner hlength, Holds (item inner hlength)) :
    Holds (delimited eof opening closing input item) := by
  cases input with
  | nil =>
      rw [delimited_nil]
      exact invariant.done _
  | cons token rest =>
      rw [delimited_cons]
      split
      next hkind =>
        apply invariant.behind (by rw [hkind, hopening])
        apply invariant.andThen (invariant.listOf_holds fun inner _ => hitem inner _)
        intro items rest hlength
        exact invariant.expecting hclosing fun _ _ _ => invariant.done _
      next => exact invariant.done _

theorem typeExpr_holds (input : List Token) : Holds (typeExpr eof input) := by
  cases input with
  | nil =>
      rw [typeExpr_nil]
      exact invariant.error rfl (by simp [Finding.SparesBraces])
  | cons token rest =>
      rw [typeExpr_cons]
      split
      next => exact invariant.error rfl (by simp [Finding.SparesBraces])
      next base htoken =>
        apply invariant.behind (isBrace_of_ofToken? htoken)
        apply invariant.map
        exact invariant.delimited_holds rfl rfl fun inner hlength => typeExpr_holds inner
termination_by input.length
decreasing_by simp only [List.length_cons]; omega

theorem typeArguments_holds (input : List Token) : Holds (typeArguments eof input) := by
  rw [typeArguments_def]
  exact invariant.delimited_holds rfl rfl fun inner _ => invariant.typeExpr_holds inner

section Expressions

mutual
theorem expression_holds (least : Nat) (input : List Token) :
    Holds (expression eof least input) := by
  rw [expression_def]
  apply invariant.andThen (operand_holds input)
  intro first rest hrest
  exact operators_holds least _ first rest
termination_by 3 * input.length + 2
decreasing_by all_goals omega

theorem operand_holds (input : List Token) :
    Holds (operand eof input) := by
  cases input with
  | nil =>
      rw [operand_nil]
      exact invariant.missing _
  | cons token rest =>
      rw [operand_cons]
      split
      next op hopening =>
        apply invariant.behind (isBrace_of_opening hopening)
        exact invariant.map _ (expression_holds leadingPower rest)
      next value findings hopening =>
        apply invariant.behind (isBrace_of_opening hopening)
        exact invariant.reporting (sparesBraces_of_opening hopening) (invariant.done _)
      next name hopening =>
        apply invariant.behind (isBrace_of_opening hopening)
        apply invariant.andThen (invariant.typeArguments_holds rest)
        intro typeArgs rest' hrest
        apply invariant.map
        exact invariant.delimited_holds rfl rfl fun inner hinner => expression_holds 0 inner
      next hopening =>
        have hnewlines := length_skipNewlines_le rest
        apply invariant.behind (isBrace_of_opening hopening)
        apply invariant.withinNewlines
        apply invariant.andThen (expression_holds 0 (skipNewlines rest))
        intro inside rest' hrest
        exact invariant.expecting rfl fun _ _ _ => invariant.done _
      next =>
        simp only
        split
        next hboundary =>
          -- A boundary is left where it is. The only opening brace that is taken outside of a
          -- block is the one in the other case.
          refine invariant.reporting (sparesBraces_expectedExpression _ ?_) (invariant.done _)
          intro hkind
          simp [hkind, Kind.isBoundary] at hboundary
        next hboundary => exact invariant.unexpected _ (by simpa using hboundary)
termination_by 3 * input.length + 1
decreasing_by all_goals simp only [List.length_cons]; omega

theorem operators_holds (least most : Nat) (first : Expr)
    (input : List Token) : Holds (operators eof least most first input) := by
  cases input with
  | nil =>
      rw [operators_nil]
      exact invariant.done _
  | cons token rest =>
      rw [operators_cons]
      split
      next op hkind =>
        split
        · apply invariant.behind (isBrace_of_continuation hkind)
          exact operators_holds least most _ rest
        · exact invariant.done _
      next hkind =>
        split
        · apply invariant.behind (isBrace_of_continuation hkind)
          apply invariant.andThen (invariant.typeExpr_holds rest)
          intro target rest' hrest
          exact operators_holds least castPower _ rest'
        · exact invariant.done _
      next op hkind =>
        split
        · apply invariant.behind (isBrace_of_continuation hkind)
          apply invariant.andThen (expression_holds _ rest)
          intro second rest' hrest
          exact operators_holds least _ _ rest'
        · exact invariant.done _
      next => exact invariant.done _
termination_by 3 * input.length
decreasing_by all_goals simp only [List.length_cons]; omega
end

end Expressions

section Declarations

theorem modifierList_holds (modifiers : Modifiers) (input : List Token) :
    Holds (modifierList modifiers input) := by
  induction input generalizing modifiers with
  | nil => exact invariant.done _
  | cons token rest ih =>
      rw [modifierList]
      split
      next modifier hkind =>
        apply invariant.behind (isBrace_of_modifier hkind)
        exact invariant.reporting (sparesBraces_repetition _ _ _) (ih _)
      next => exact invariant.done _

theorem trailingMut_holds (modifiers : Modifiers) (input : List Token) :
    Holds (trailingMut modifiers input) := by
  unfold trailingMut
  split
  · exact invariant.done _
  · split
    next hkind =>
      apply invariant.behind (by rw [hkind]; rfl)
      exact invariant.reporting (sparesBraces_repetition _ _ _) (invariant.done _)
    next => exact invariant.done _

theorem binding_holds (scope : Scope) (modifiers : Modifiers) (start : Span) (input : List Token) :
    Holds (binding eof scope modifiers start input) := by
  rw [binding_def]
  apply invariant.expecting rfl
  intro name rest _
  apply invariant.andThen (invariant.trailingMut_holds modifiers rest)
  intro modifiers rest _
  apply invariant.expecting rfl
  intro colon rest _
  apply invariant.andThen (invariant.typeExpr_holds rest)
  intro type rest _
  exact invariant.reporting (sparesBraces_refusals _ _ _ _) (invariant.done _)

theorem initialValue_holds (input : List Token) :
    Holds (initialValue eof input) := by
  cases input with
  | nil =>
      rw [initialValue_nil]
      exact invariant.done _
  | cons token rest =>
      rw [initialValue_cons]
      split
      next hkind =>
        apply invariant.behind (by rw [hkind]; rfl)
        exact invariant.map _ (invariant.expression_holds 0 _)
      next => exact invariant.done _

theorem variableDecl_holds (scope : Scope) (modifiers : Modifiers)
    (start : Span) (input : List Token) :
    Holds (variableDecl eof scope modifiers start input) := by
  rw [variableDecl_def]
  apply invariant.andThen (invariant.binding_holds scope modifiers start input)
  intro decl rest _
  exact invariant.map _ (invariant.initialValue_holds rest)

theorem parameter_holds (input : List Token) : Holds (parameter eof input) := by
  rw [parameter_def]
  apply invariant.andThen (invariant.modifierList_holds .empty input)
  intro modifiers rest _
  exact invariant.binding_holds .parameter modifiers _ rest

theorem parameters_holds (input : List Token) : Holds (parameters eof input) := by
  rw [parameters_def]
  apply invariant.expecting rfl
  intro opening rest _
  apply invariant.andThen (invariant.listOf_holds fun inner _ => invariant.parameter_holds inner)
  intro params rest _
  exact invariant.expecting rfl fun _ _ _ => invariant.done _

theorem generics_holds (input : List Token) : Holds (generics eof input) := by
  apply invariant.map
  apply invariant.delimited_holds rfl rfl
  intro inner _
  exact invariant.map _ (invariant.expect_holds rfl inner)

theorem returnType_holds (input : List Token) : Holds (returnType eof input) := by
  cases input with
  | nil =>
      rw [returnType_nil]
      exact invariant.done _
  | cons token rest =>
      rw [returnType_cons]
      split
      next hkind =>
        exact invariant.behind (by rw [hkind]; rfl) (invariant.typeExpr_holds _)
      next => exact invariant.done _

theorem signature_holds (scope : Scope) (modifiers : Modifiers) (input : List Token) :
    Holds (signature eof scope modifiers input) := by
  rw [signature_def]
  apply invariant.expecting rfl
  intro name rest _
  apply invariant.andThen (invariant.generics_holds rest)
  intro names rest _
  apply invariant.andThen (invariant.parameters_holds rest)
  intro params rest _
  exact invariant.map _ (invariant.returnType_holds rest)

theorem typeAlias_holds (input : List Token) : Holds (typeAlias eof input) := by
  rw [typeAlias_def]
  apply invariant.andThen (invariant.typeExpr_holds input)
  intro target rest _
  apply invariant.expecting rfl
  intro as rest _
  exact invariant.expecting rfl fun _ _ _ => invariant.done _

end Declarations

section Statements

theorem statementLoop_holds {loop : (input : List Token) → Outcome input (List α)}
    {parse : (input : List Token) → Outcome input α} (hloop : StatementLoop true loop parse)
    {input : List Token} (hparse : ∀ inner, inner.length ≤ input.length → Holds (parse inner)) :
    Holds (loop input) := by
  induction input using statementInduction true parse with
  | nil =>
      rw [hloop.nil]
      exact invariant.done _
  | stop token rest hstop =>
      rw [hloop.stop hstop]
      exact invariant.done _
  | blank token rest hends ih =>
      have hbrace : token.kind.isBrace = false := by
        rcases hends with hkind | hkind <;> rw [hkind] <;> rfl
      rw [hloop.blank hends]
      apply invariant.behind hbrace
      exact ih fun inner hinner => hparse inner (Nat.le_succ_of_le hinner)
  | stray token rest _ hopen => cases hopen
  | item token rest hboundary ih =>
      have hless := length_finishStatement_lt hboundary (parse (token :: rest))
      rw [hloop.item hboundary]
      apply invariant.finished (hparse _ (Nat.le_refl _))
      exact invariant.map _ (ih fun inner hinner => hparse inner (by omega))

mutual
theorem statements_holds (scope : Scope) (input : List Token) :
    Holds (statements eof scope true input) :=
  invariant.statementLoop_holds (statements_loop eof scope true)
    fun inner _ => statement_holds scope inner
termination_by 6 * input.length + 5
decreasing_by omega

theorem statement_holds (scope : Scope) (input : List Token) :
    Holds (statement eof scope input) := by
  rw [statement_def]
  apply invariant.andThen (invariant.modifierList_holds .empty input)
  intro modifiers rest hrest
  exact unmodifiedStatement_holds scope modifiers _ rest
termination_by 6 * input.length + 4
decreasing_by omega

theorem unmodifiedStatement_holds (scope : Scope) (modifiers : Modifiers)
    (start : Span) (input : List Token) :
    Holds (unmodifiedStatement eof scope modifiers start input) := by
  -- Statements that take no modifiers only report them.
  have hplain {kind : Kind} {inner : List Token} {outcome : Outcome inner Stmt}
      (houtcome : Holds outcome) :
      Holds (outcome.reporting (misplaced modifiers kind start)) :=
    invariant.reporting (sparesBraces_misplaced _ _ _) houtcome
  cases input with
  | nil =>
      rw [unmodifiedStatement_nil]
      exact hplain (invariant.map _ (invariant.expression_holds 0 []))
  | cons token rest =>
      rw [unmodifiedStatement_cons]
      split
      next hkind =>
        apply invariant.behind (by rw [hkind]; rfl)
        exact record_holds scope modifiers start rest
      next hkind =>
        apply invariant.behind (by rw [hkind]; rfl)
        exact invariant.map _ (function_holds scope modifiers start rest)
      next hkind =>
        apply hplain
        exact invariant.behind (by rw [hkind]; rfl) (invariant.typeAlias_holds rest)
      next hkind =>
        apply hplain
        exact invariant.behind (by rw [hkind]; rfl) (branch_holds rest)
      next hkind =>
        apply hplain
        apply invariant.behind (by rw [hkind]; rfl)
        apply invariant.andThen (invariant.expression_holds 0 rest)
        intro condition rest' hrest
        exact invariant.map _ (block_holds rest')
      next hkind =>
        apply hplain
        exact invariant.behind (by rw [hkind]; rfl) (invariant.map _ (block_holds rest))
      next hkind =>
        apply hplain
        exact invariant.behind (by rw [hkind]; rfl) (invariant.done _)
      next hkind =>
        apply hplain
        exact invariant.behind (by rw [hkind]; rfl) (invariant.done _)
      next =>
        split
        · exact invariant.map _ (invariant.variableDecl_holds scope modifiers start _)
        · exact hplain (invariant.map _ (invariant.expression_holds 0 _))
termination_by 6 * input.length + 3
decreasing_by all_goals simp only [List.length_cons] at *; omega

theorem members_holds (input : List Token) :
    Holds (members eof input) :=
  invariant.statementLoop_holds (members_loop eof) fun inner _ => member_holds inner
termination_by 6 * input.length + 5
decreasing_by omega

theorem member_holds (input : List Token) :
    Holds (member eof input) := by
  rw [member_def]
  apply invariant.andThen (invariant.modifierList_holds .empty input)
  intro modifiers rest hrest
  cases rest with
  | nil => exact invariant.map _ (invariant.variableDecl_holds .field modifiers _ [])
  | cons token tokens =>
      simp only
      split
      next hkind =>
        apply invariant.behind (by rw [hkind]; rfl)
        exact invariant.map _ (function_holds .method modifiers _ tokens)
      next => exact invariant.map _ (invariant.variableDecl_holds .field modifiers _ _)
termination_by 6 * input.length + 4
decreasing_by simp only [List.length_cons] at *; omega

theorem record_holds (scope : Scope) (modifiers : Modifiers)
    (start : Span) (input : List Token) :
    Holds (record eof scope modifiers start input) := by
  rw [record_eq]
  apply invariant.andThen (invariant.typeExpr_holds input)
  intro type rest hrest
  have hnewlines := length_skipNewlines_le rest
  apply invariant.withinNewlines
  refine invariant.braces (fun inner hinner => members_holds inner) ?_ ?_ ?_
  · exact (members_loop eof).isSome
  · exact (members_loop eof).atBrace
  · intro members brace rest
    exact invariant.reporting (sparesBraces_makeRecord _ _ _ _ _ _) (invariant.done _)
termination_by 6 * input.length + 2
decreasing_by omega

theorem function_holds (scope : Scope) (modifiers : Modifiers)
    (start : Span) (input : List Token) :
    Holds (function eof scope modifiers start input) := by
  rw [function_eq]
  apply invariant.andThen (invariant.signature_holds scope modifiers input)
  intro signature rest hrest
  apply invariant.andThen (block_holds rest)
  intro body rest' _
  exact invariant.reporting (sparesBraces_refusals _ _ _ _) (invariant.done _)
termination_by 6 * input.length + 2
decreasing_by omega

theorem branch_holds (input : List Token) :
    Holds (branch eof input) := by
  rw [branch_def]
  apply invariant.andThen (invariant.expression_holds 0 input)
  intro condition rest hrest
  apply invariant.andThen (block_holds rest)
  intro body rest' hrest'
  split
  · exact invariant.done _
  next inner helse =>
    have hless := (afterElse?_suffix helse).2
    apply invariant.within _ (passesBy_of_afterElse? helse)
    exact invariant.map _ (otherwise_holds inner)
termination_by 6 * input.length + 2
decreasing_by all_goals omega

theorem otherwise_holds (input : List Token) :
    Holds (otherwise eof input) := by
  cases input with
  | nil =>
      rw [otherwise_nil]
      exact block_holds []
  | cons token rest =>
      rw [otherwise_cons]
      split
      next hkind =>
        apply invariant.behind (by rw [hkind]; rfl)
        exact invariant.map _ (branch_holds rest)
      next => exact block_holds (token :: rest)
termination_by 6 * input.length + 2
decreasing_by all_goals simp only [List.length_cons, List.length_nil]; omega

theorem block_holds (input : List Token) :
    Holds (block eof input) := by
  rw [block_def]
  have hnewlines := length_skipNewlines_le input
  apply invariant.withinNewlines
  refine invariant.braces (fun inner hinner => statements_holds .block inner) ?_ ?_ ?_
  · exact statements_isSome .block true
  · exact (statements_loop eof .block true).atBrace
  · exact fun _ _ _ => invariant.done _
termination_by 6 * input.length + 1
decreasing_by omega
end

end Statements

end Invariant

end KCompiler
