import KCompiler.Parse.Program
import KCompiler.Proofs.Lockstep.Declaration
import KCompiler.Proofs.Validation

/-! # Statements and files in lockstep

Inputs that look alike to their end lead two runs the same way from the first statement to the
last. What is reported then comes in the same order in both.
-/

namespace KCompiler

open Outcome

/-- Inputs that look alike do so to their end. -/
structure Parallel (like : Likeness) (eof₁ eof₂ : Token) : Prop where
  nil {input₂ : List Token} (hsame : like.Same [] input₂) :
    Ended input₂ ∧ eof₁.Alike like (peek eof₂ input₂)
  cons {token₁ : Token} {rest₁ input₂ : List Token} (hsame : like.Same (token₁ :: rest₁) input₂) :
    ∃ token₂ rest₂, input₂ = token₂ :: rest₂ ∧ token₁.Alike like token₂ ∧ like.Same rest₁ rest₂
  join {start₁ start₂ finish₁ finish₂ : Span} (hstart : like.Marks start₁ start₂)
    (hfinish : like.Marks finish₁ finish₂) :
    like.Marks (start₁.join finish₁) (start₂.join finish₂)

/-- The same value, with findings that correspond. -/
structure Parsed.Alike {α : Type} (like : Likeness) (first second : Parsed α) : Prop where
  value_eq : first.value = second.value
  findings : List.Forall₂ (Finding.Alike like) first.findings second.findings

namespace Parallel

variable {like : Likeness} {eof₁ eof₂ : Token} (parallel : Parallel like eof₁ eof₂)
  {input₁ input₂ : List Token}

include parallel

theorem passes (kind : Kind) : like.Passes kind := by
  intro token₁ token₂ rest₁ rest₂ _ hsame
  obtain ⟨_, _, heq, -, hrest⟩ := parallel.cons hsame
  cases heq
  exact hrest

theorem same_skipNewlines (hsame : like.Same input₁ input₂) :
    like.Same (skipNewlines input₁) (skipNewlines input₂) := by
  induction input₁ generalizing input₂ with
  | nil => rwa [(parallel.nil hsame).1.skipNewlines_eq]
  | cons token₁ rest₁ ih =>
      obtain ⟨token₂, rest₂, rfl, htoken, hrest⟩ := parallel.cons hsame
      by_cases hkind : token₁.kind = .newline
      · have hkind₂ : token₂.kind = .newline := htoken.kind_eq ▸ hkind
        simpa [skipNewlines, hkind, hkind₂] using ih hrest
      · have hkind₂ : token₂.kind ≠ .newline := htoken.kind_eq ▸ hkind
        simpa [skipNewlines, hkind, hkind₂] using hsame

theorem same_skipBlock (depth : Nat) (hsame : like.Same input₁ input₂) :
    like.Same (skipBlock depth input₁) (skipBlock depth input₂) := by
  induction input₁ generalizing depth input₂ with
  | nil =>
      rw [(parallel.nil hsame).1.skipBlock_eq]
      cases depth <;> exact hsame
  | cons token₁ rest₁ ih =>
      obtain ⟨token₂, rest₂, rfl, htoken, hrest⟩ := parallel.cons hsame
      cases depth with
      | zero => exact hsame
      | succ depth =>
          rw [skipBlock, skipBlock, ← htoken.kind_eq]
          split
          · exact hsame
          · exact ih _ hrest
          · exact ih _ hrest
          · exact ih _ hrest

/-- Inputs that look alike to their end do so to the end of a statement. -/
theorem lockstep : Lockstep like eof₁ eof₂ where
  nil := parallel.nil
  cons hsame := by
    obtain ⟨token₂, rest₂, heq, htoken, -⟩ := parallel.cons hsame
    exact ⟨token₂, rest₂, heq, htoken⟩
  passes _ := parallel.passes _
  block _ hsame := parallel.same_skipBlock 1 (parallel.passes _ rfl hsame)
  breaks _ hsame := parallel.same_skipNewlines (parallel.passes _ rfl hsame)

/-! ## Functions -/

theorem parameters_alike (hsame : like.Same input₁ input₂) :
    (parameters eof₁ input₁).Alike like Eq (parameters eof₂ input₂) := by
  rw [parameters_def, parameters_def]
  have lockstep := parallel.lockstep
  refine lockstep.expecting_alike (by decide) (parallel.passes _) hsame ?_
  intro _ _ _ rest₁ rest₂ hrest _ _
  refine Alike.andThen (R := Eq) ?_ ?_
  · rw [listOf_def, listOf_def]
    refine (lockstep.itemsOf_alike _ _ (parallel.same_skipNewlines hrest) ?_).within _ _
    exact fun _ _ hinner _ _ => lockstep.parameter_alike hinner
  · rintro params _ rfl rest₁ rest₂ hrest _ _
    refine lockstep.expecting_alike (by decide) (parallel.passes _) hrest ?_
    exact fun _ _ _ _ _ hrest _ _ => alike_done hrest rfl

theorem signature_alike (scope : Scope) (modifiers : Modifiers) (hsame : like.Same input₁ input₂) :
    (signature eof₁ scope modifiers input₁).Alike like Eq
      (signature eof₂ scope modifiers input₂) := by
  rw [signature_def, signature_def]
  have lockstep := parallel.lockstep
  refine lockstep.expecting_alike (by decide) (parallel.passes _) hsame ?_
  intro name₁ name₂ hname rest₁ rest₂ hrest _ _
  refine (lockstep.generics_alike hrest).andThen ?_
  rintro generics _ rfl rest₁ rest₂ hrest _ _
  refine (parallel.parameters_alike hrest).andThen ?_
  rintro params _ rfl rest₁ rest₂ hrest _ _
  rw [hname.text_eq]
  exact (lockstep.returnType_alike hrest).mapEq _

/-! ## The ends of statements -/

theorem endStatement_alike (hsame : like.Same input₁ input₂) :
    (endStatement input₁).Alike like Eq (endStatement input₂) := by
  cases input₁ with
  | nil =>
      rw [endStatement, (parallel.nil hsame).1.endStatement_eq]
      exact alike_done hsame rfl
  | cons token₁ rest₁ =>
      obtain ⟨token₂, rest₂, rfl, htoken, hrest⟩ := parallel.cons hsame
      rw [endStatement, endStatement, ← htoken.kind_eq]
      split
      · exact (alike_done hrest rfl).behind _ _
      · split
        · exact alike_done hsame rfl
        · refine ⟨.some rfl, parallel.lockstep.same_recover _ hsame, ?_⟩
          exact alike_finding htoken.span rfl

theorem finishStatement_alike {α : Type} {first : Outcome input₁ α} {second : Outcome input₂ α}
    (halike : first.Alike like Eq second) :
    (finishStatement first).Alike like Eq (finishStatement second) := by
  obtain ⟨value₁, rest₁, findings₁, hsuffix₁⟩ := first
  obtain ⟨value₂, rest₂, findings₂, hsuffix₂⟩ := second
  obtain ⟨hvalue, hrest, hfindings⟩ := halike
  cases hvalue with
  | none => exact ⟨.some rfl, parallel.lockstep.same_recover _ hrest, hfindings⟩
  | @some value _ hvalue =>
      obtain rfl := hvalue
      exact (((parallel.endStatement_alike hrest).mapEq fun _ => some value).reporting
        hfindings).within hsuffix₁ hsuffix₂

/-- Both inputs go on with an `else`, or neither does. -/
theorem afterElse?_alike (hsame : like.Same input₁ input₂) :
    Option.Rel like.Same (afterElse? input₁) (afterElse? input₂) := by
  unfold afterElse?
  have hlines := parallel.same_skipNewlines hsame
  generalize skipNewlines input₁ = lines₁ at hlines
  generalize skipNewlines input₂ = lines₂ at hlines
  cases lines₁ with
  | nil =>
      obtain ⟨hended, -⟩ := parallel.nil hlines
      cases hended with
      | nil => exact .none
      | eof hkind =>
          simp only [hkind, reduceCtorEq, if_false]
          exact .none
  | cons token₁ rest₁ =>
      obtain ⟨token₂, rest₂, rfl, htoken, hrest⟩ := parallel.cons hlines
      simp only [← htoken.kind_eq]
      split
      · exact .some hrest
      · exact .none

theorem makeRecord_alike (scope : Scope) (modifiers : Modifiers) (type : Ty)
    (members : List Member) {start₁ start₂ finish₁ finish₂ : Span}
    (hstart : like.Marks start₁ start₂) (hfinish : like.Marks finish₁ finish₂) :
    (makeRecord scope modifiers start₁ finish₁ type members).1 =
        (makeRecord scope modifiers start₂ finish₂ type members).1 ∧
      List.Forall₂ (Finding.Alike like) (makeRecord scope modifiers start₁ finish₁ type members).2
        (makeRecord scope modifiers start₂ finish₂ type members).2 := by
  refine ⟨rfl, List.rel_append ?_ (refusals_alike modifiers scope .record hstart)⟩
  split
  · exact alike_finding (parallel.join hstart hfinish) rfl
  · exact .nil

end Parallel

/-! ## Statements -/

namespace Parallel

variable {like : Likeness} {eof₁ eof₂ : Token}

/-- Two loops go the same way if the parsers of their statements do. -/
theorem statementLoop_alike (parallel : Parallel like eof₁ eof₂) {α : Type} {inBraces : Bool}
    {loop₁ loop₂ : (input : List Token) → Outcome input (List α)}
    {parse₁ parse₂ : (input : List Token) → Outcome input α}
    (hloop₁ : StatementLoop inBraces loop₁ parse₁) (hloop₂ : StatementLoop inBraces loop₂ parse₂)
    {input₁ input₂ : List Token} (hsame : like.Same input₁ input₂)
    (hparse : ∀ inner₁ inner₂, inner₁.length ≤ input₁.length → like.Same inner₁ inner₂ →
      (parse₁ inner₁).Alike like Eq (parse₂ inner₂)) :
    (loop₁ input₁).Alike like Eq (loop₂ input₂) := by
  induction input₁ using statementInduction inBraces parse₁ generalizing input₂ with
  | nil =>
      rw [hloop₁.nil, (parallel.nil hsame).1.loop_eq hloop₂]
      exact alike_done hsame rfl
  | stop token₁ rest₁ hstop =>
      obtain ⟨token₂, rest₂, rfl, htoken, -⟩ := parallel.cons hsame
      rw [hloop₁.stop hstop, hloop₂.stop (htoken.kind_eq ▸ hstop)]
      exact alike_done hsame rfl
  | blank token₁ rest₁ hends ih =>
      obtain ⟨token₂, rest₂, rfl, htoken, hrest⟩ := parallel.cons hsame
      have hmore := ih hrest fun inner₁ inner₂ hinner =>
        hparse inner₁ inner₂ (Nat.le_succ_of_le hinner)
      rw [hloop₁.blank hends, hloop₂.blank (htoken.kind_eq ▸ hends)]
      exact hmore.behind _ _
  | stray token₁ rest₁ hbrace hopen ih =>
      obtain ⟨token₂, rest₂, rfl, htoken, hrest⟩ := parallel.cons hsame
      have hmore := ih hrest fun inner₁ inner₂ hinner =>
        hparse inner₁ inner₂ (Nat.le_succ_of_le hinner)
      rw [hloop₁.stray hbrace hopen, hloop₂.stray (htoken.kind_eq ▸ hbrace) hopen]
      exact (hmore.reporting (alike_finding htoken.span rfl)).behind _ _
  | item token₁ rest₁ hinner ih =>
      have hless := length_finishStatement_lt hinner (parse₁ (token₁ :: rest₁))
      have hfinished :=
        parallel.finishStatement_alike (hparse (token₁ :: rest₁) _ (Nat.le_refl _) hsame)
      have hmore := ih hfinished.rest fun inner₁ inner₂ hle => hparse inner₁ inner₂ (by omega)
      obtain ⟨token₂, rest₂, rfl, htoken, -⟩ := parallel.cons hsame
      rw [hloop₁.item hinner, hloop₂.item (htoken.kind_eq ▸ hinner)]
      refine ((hmore.map ?_).reporting hfinished.findings).within _ _
      rintro values _ rfl
      rw [hfinished.value_eq]

mutual
theorem statements_alike (parallel : Parallel like eof₁ eof₂) (scope : Scope) (inBlock : Bool)
    (input₁ : List Token) {input₂ : List Token} (hsame : like.Same input₁ input₂) :
    (statements eof₁ scope inBlock input₁).Alike like Eq
      (statements eof₂ scope inBlock input₂) :=
  parallel.statementLoop_alike (statements_loop eof₁ scope inBlock)
    (statements_loop eof₂ scope inBlock) hsame
    fun inner₁ _ _ => parallel.statement_alike scope inner₁
termination_by 6 * input₁.length + 5
decreasing_by omega

theorem statement_alike (parallel : Parallel like eof₁ eof₂) (scope : Scope)
    (input₁ : List Token) {input₂ : List Token} (hsame : like.Same input₁ input₂) :
    (statement eof₁ scope input₁).Alike like Eq (statement eof₂ scope input₂) := by
  rw [statement_def, statement_def]
  refine (parallel.lockstep.modifierList_alike .empty hsame).andThen ?_
  rintro modifiers _ rfl rest₁ rest₂ hrest hlength _
  exact parallel.unmodifiedStatement_alike scope modifiers (parallel.lockstep.peek_span hsame)
    rest₁ hrest
termination_by 6 * input₁.length + 4
decreasing_by omega

theorem unmodifiedStatement_alike (parallel : Parallel like eof₁ eof₂) (scope : Scope)
    (modifiers : Modifiers) {start₁ start₂ : Span} (hstart : like.Marks start₁ start₂)
    (input₁ : List Token) {input₂ : List Token} (hsame : like.Same input₁ input₂) :
    (unmodifiedStatement eof₁ scope modifiers start₁ input₁).Alike like Eq
      (unmodifiedStatement eof₂ scope modifiers start₂ input₂) := by
  by_cases hsimple : ∀ token ∈ input₁.head?, token.kind.opensBody = false
  · exact parallel.lockstep.simpleStatement_alike scope modifiers hstart hsame hsimple
  match input₁ with
  | [] => simp at hsimple
  | token₁ :: rest₁ =>
      obtain ⟨token₂, rest₂, rfl, htoken, hrest⟩ := parallel.cons hsame
      have hmisplaced := misplaced_alike modifiers token₁.kind hstart
      rw [unmodifiedStatement_cons, unmodifiedStatement_cons, ← htoken.kind_eq]
      split
      · exact (parallel.record_alike scope modifiers hstart rest₁ hrest).behind _ _
      · exact ((parallel.function_alike scope modifiers hstart rest₁ hrest).mapEq _).behind _ _
      case h_4 => exact ((parallel.branch_alike rest₁ hrest).behind _ _).reporting hmisplaced
      case h_5 =>
        refine (Alike.behind ?_ _ _).reporting hmisplaced
        refine (parallel.lockstep.expression_alike 0 rest₁ hrest).andThen ?_
        rintro condition _ rfl inner₁ inner₂ hinner hlength _
        exact (parallel.block_alike inner₁ hinner).mapEq _
      case h_6 =>
        exact (((parallel.block_alike rest₁ hrest).mapEq _).behind _ _).reporting hmisplaced
      all_goals simp_all [Kind.opensBody]
termination_by 6 * input₁.length + 3
decreasing_by all_goals simp only [List.length_cons]; omega

theorem members_alike (parallel : Parallel like eof₁ eof₂) (input₁ : List Token)
    {input₂ : List Token} (hsame : like.Same input₁ input₂) :
    (members eof₁ input₁).Alike like Eq (members eof₂ input₂) :=
  parallel.statementLoop_alike (members_loop eof₁) (members_loop eof₂) hsame
    fun inner₁ _ _ => parallel.member_alike inner₁
termination_by 6 * input₁.length + 5
decreasing_by omega

theorem member_alike (parallel : Parallel like eof₁ eof₂) (input₁ : List Token)
    {input₂ : List Token} (hsame : like.Same input₁ input₂) :
    (member eof₁ input₁).Alike like Eq (member eof₂ input₂) := by
  have hstart := parallel.lockstep.peek_span hsame
  rw [member_def, member_def]
  refine (parallel.lockstep.modifierList_alike .empty hsame).andThen ?_
  rintro modifiers _ rfl rest₁ rest₂ hrest hlength _
  cases rest₁ with
  | nil =>
      have hfield := parallel.lockstep.variableDecl_alike .field modifiers hstart hrest
      obtain ⟨hended, -⟩ := parallel.nil hrest
      cases hended with
      | nil => exact hfield.mapEq _
      | eof hkind =>
          simp only [hkind, reduceCtorEq, if_false]
          exact hfield.mapEq _
  | cons token₁ tokens₁ =>
      obtain ⟨token₂, tokens₂, rfl, htoken, htokens⟩ := parallel.cons hrest
      simp only [← htoken.kind_eq]
      split
      · have hfunction := parallel.function_alike .method modifiers hstart tokens₁ htokens
        exact (hfunction.mapEq _).behind _ _
      · exact (parallel.lockstep.variableDecl_alike .field modifiers hstart hrest).mapEq _
termination_by 6 * input₁.length + 4
decreasing_by simp only [List.length_cons] at *; omega

theorem record_alike (parallel : Parallel like eof₁ eof₂) (scope : Scope) (modifiers : Modifiers)
    {start₁ start₂ : Span} (hstart : like.Marks start₁ start₂) (input₁ : List Token)
    {input₂ : List Token} (hsame : like.Same input₁ input₂) :
    (record eof₁ scope modifiers start₁ input₁).Alike like Eq
      (record eof₂ scope modifiers start₂ input₂) := by
  have lockstep := parallel.lockstep
  rw [record_eq, record_eq]
  refine (lockstep.typeExpr_alike input₁ hsame).andThen ?_
  rintro type _ rfl rest₁ rest₂ hrest _ _
  have hnewlines := length_skipNewlines_le rest₁
  refine Alike.within ?_ _ _
  refine lockstep.expecting_alike (by decide) (parallel.passes _) (parallel.same_skipNewlines hrest) ?_
  intro _ _ _ inner₁ inner₂ hinner _ _
  refine (parallel.members_alike inner₁ hinner).andThen ?_
  rintro members _ rfl rest₁ rest₂ hrest _ _
  refine lockstep.expecting_alike (by decide) (parallel.passes _) hrest ?_
  intro brace₁ brace₂ hbrace last₁ last₂ hlast _ _
  obtain ⟨hstmt, hfindings⟩ :=
    parallel.makeRecord_alike scope modifiers type members hstart hbrace.span
  exact (alike_done hlast hstmt).reporting hfindings
termination_by 6 * input₁.length + 2
decreasing_by omega

theorem function_alike (parallel : Parallel like eof₁ eof₂) (scope : Scope) (modifiers : Modifiers)
    {start₁ start₂ : Span} (hstart : like.Marks start₁ start₂) (input₁ : List Token)
    {input₂ : List Token} (hsame : like.Same input₁ input₂) :
    (function eof₁ scope modifiers start₁ input₁).Alike like Eq
      (function eof₂ scope modifiers start₂ input₂) := by
  rw [function_eq, function_eq]
  refine (parallel.signature_alike scope modifiers hsame).andThen ?_
  rintro signature _ rfl rest₁ rest₂ hrest hlength _
  refine (parallel.block_alike rest₁ hrest).andThen ?_
  rintro body _ rfl rest₁ rest₂ hrest _ _
  exact (alike_done hrest rfl).reporting (refusals_alike modifiers scope .function hstart)
termination_by 6 * input₁.length + 2
decreasing_by omega

theorem branch_alike (parallel : Parallel like eof₁ eof₂) (input₁ : List Token)
    {input₂ : List Token} (hsame : like.Same input₁ input₂) :
    (branch eof₁ input₁).Alike like Eq (branch eof₂ input₂) := by
  rw [branch_def, branch_def]
  refine (parallel.lockstep.expression_alike 0 input₁ hsame).andThen ?_
  rintro condition _ rfl rest₁ rest₂ hrest hlength _
  refine (parallel.block_alike rest₁ hrest).andThen ?_
  rintro body _ rfl rest₁ rest₂ hrest hlength _
  have hafter := parallel.afterElse?_alike hrest
  split
  next helse₁ =>
    rw [helse₁] at hafter
    split
    next => exact alike_done hrest rfl
    next helse₂ =>
      rw [helse₂] at hafter
      cases hafter
  next inner₁ helse₁ =>
    rw [helse₁] at hafter
    split
    next helse₂ =>
      rw [helse₂] at hafter
      cases hafter
    next inner₂ helse₂ =>
      rw [helse₂] at hafter
      have hless := (afterElse?_suffix helse₁).2
      cases hafter with
      | some hinner => exact ((parallel.otherwise_alike inner₁ hinner).mapEq _).within _ _
termination_by 6 * input₁.length + 2
decreasing_by all_goals omega

theorem otherwise_alike (parallel : Parallel like eof₁ eof₂) (input₁ : List Token)
    {input₂ : List Token} (hsame : like.Same input₁ input₂) :
    (otherwise eof₁ input₁).Alike like Eq (otherwise eof₂ input₂) := by
  match input₁ with
  | [] =>
      rw [otherwise_nil, (parallel.nil hsame).1.otherwise_eq]
      exact parallel.block_alike [] hsame
  | token₁ :: rest₁ =>
      obtain ⟨token₂, rest₂, rfl, htoken, hrest⟩ := parallel.cons hsame
      rw [otherwise_cons, otherwise_cons, ← htoken.kind_eq]
      split
      · exact ((parallel.branch_alike rest₁ hrest).mapEq _).behind _ _
      · exact parallel.block_alike (token₁ :: rest₁) hsame
termination_by 6 * input₁.length + 2
decreasing_by all_goals simp only [List.length_cons, List.length_nil]; omega

theorem block_alike (parallel : Parallel like eof₁ eof₂) (input₁ : List Token)
    {input₂ : List Token} (hsame : like.Same input₁ input₂) :
    (block eof₁ input₁).Alike like Eq (block eof₂ input₂) := by
  have lockstep := parallel.lockstep
  have hnewlines := length_skipNewlines_le input₁
  rw [block_def, block_def]
  refine Alike.within ?_ _ _
  refine lockstep.expecting_alike (by decide) (parallel.passes _) (parallel.same_skipNewlines hsame) ?_
  intro _ _ _ inner₁ inner₂ hinner hlength _
  refine (parallel.statements_alike .block true inner₁ hinner).andThen ?_
  rintro body _ rfl rest₁ rest₂ hrest _ _
  refine lockstep.expecting_alike (by decide) (parallel.passes _) hrest ?_
  exact fun _ _ _ _ _ hlast _ _ => alike_done hlast rfl
termination_by 6 * input₁.length + 1
decreasing_by omega
end

/-! ## Files -/

theorem moduleName_alike (parallel : Parallel like eof₁ eof₂) {input₁ input₂ : List Token}
    (hsame : like.Same input₁ input₂) :
    (moduleName eof₁ input₁).Alike like Eq (moduleName eof₂ input₂) := by
  cases input₁ with
  | nil =>
      obtain ⟨hended, heof⟩ := parallel.nil hsame
      rw [moduleName, hended.moduleName_eq, heof.kind_eq]
      exact (alike_failed hsame).reporting (alike_finding heof.span rfl)
  | cons name₁ rest₁ =>
      obtain ⟨name₂, rest₂, rfl, hname, hrest⟩ := parallel.cons hsame
      rw [moduleName, moduleName, ← hname.kind_eq, ← hname.text_eq]
      split
      · exact ((parallel.endStatement_alike hrest).mapEq _).behind _ _
      · exact (alike_failed hsame).reporting (alike_finding hname.span rfl)

theorem moduleHeader_alike (parallel : Parallel like eof₁ eof₂) {input₁ input₂ : List Token}
    (hsame : like.Same input₁ input₂) :
    (moduleHeader eof₁ input₁).Alike like Eq (moduleHeader eof₂ input₂) := by
  cases input₁ with
  | nil =>
      obtain ⟨hended, heof⟩ := parallel.nil hsame
      rw [moduleHeader, hended.moduleHeader_eq]
      exact (alike_failed hsame).reporting (alike_finding heof.span rfl)
  | cons token₁ rest₁ =>
      obtain ⟨token₂, rest₂, rfl, htoken, hrest⟩ := parallel.cons hsame
      rw [moduleHeader, moduleHeader, ← htoken.kind_eq]
      split
      · exact (parallel.moduleName_alike hrest).behind _ _
      · exact (alike_failed hsame).reporting (alike_finding htoken.span rfl)

theorem leftover_alike (parallel : Parallel like eof₁ eof₂) {input₁ input₂ : List Token}
    (hsame : like.Same input₁ input₂) :
    List.Forall₂ (Finding.Alike like) (leftover input₁) (leftover input₂) := by
  cases input₁ with
  | nil =>
      rw [leftover, (parallel.nil hsame).1.leftover_eq]
      exact .nil
  | cons token₁ rest₁ =>
      obtain ⟨token₂, rest₂, rfl, htoken, -⟩ := parallel.cons hsame
      rw [leftover, leftover, ← htoken.kind_eq]
      split
      · exact .nil
      · exact alike_finding htoken.span rfl

/-- Two files that look alike are parsed to the same module. -/
theorem readModule_alike (parallel : Parallel like eof₁ eof₂) {input₁ input₂ : List Token}
    (hsame : like.Same input₁ input₂) :
    (readModule eof₁ input₁).Alike like (readModule eof₂ input₂) := by
  have hheader := parallel.moduleHeader_alike (parallel.same_skipNewlines hsame)
  have hbody := parallel.statements_alike .topLevel false _ hheader.rest
  rw [readModule_def, readModule_def]
  dsimp only
  rw [hheader.value_eq, hbody.value_eq]
  split
  · exact ⟨rfl, hheader.findings⟩
  · exact ⟨rfl, List.rel_append hheader.findings hbody.findings⟩

/-- Two expressions that look alike are parsed to the same tree. -/
theorem readExpression_alike (parallel : Parallel like eof₁ eof₂) {input₁ input₂ : List Token}
    (hsame : like.Same input₁ input₂) :
    (readExpression eof₁ input₁).Alike like (readExpression eof₂ input₂) := by
  have houtcome := parallel.lockstep.expression_alike 0 _ (parallel.same_skipNewlines hsame)
  have hleft := parallel.leftover_alike (parallel.same_skipNewlines houtcome.rest)
  refine ⟨?_, List.rel_append houtcome.findings hleft⟩
  rw [readExpression_def, readExpression_def, houtcome.value_eq]

end Parallel

/-! ## A run beside itself -/

/-- An input beside itself, where all spans have a property. -/
def Likeness.diagonal (Good : Span → Prop) : Likeness where
  Same input₁ input₂ := input₁ = input₂ ∧ ∀ token ∈ input₁, Good token.span
  Marks span _ := Good span

theorem parallel_diagonal {Good : Span → Prop}
    (hjoin : ∀ start finish, Good start → Good finish → Good (start.join finish)) {eof : Token}
    (heof : Good eof.span) : Parallel (.diagonal Good) eof eof where
  nil hsame := hsame.1 ▸ ⟨.nil, rfl, rfl, heof⟩
  cons := by
    rintro token₁ rest₁ _ ⟨rfl, hgood⟩
    obtain ⟨htoken, hrest⟩ := List.forall_mem_cons.mp hgood
    exact ⟨token₁, rest₁, rfl, ⟨rfl, rfl, htoken⟩, rfl, hrest⟩
  join := hjoin _ _

/-- What holds of the spans of all tokens, and of the spans that are joined from them, holds of the
spans of all findings. None of them is on style. -/
theorem parseModule_findings (Good : Span → Prop)
    (hjoin : ∀ start finish, Good start → Good finish → Good (start.join finish))
    {tokens : List Token} (htokens : ∀ token ∈ tokens, Good token.span)
    (heof : Good (endToken tokens).span) :
    ∀ finding ∈ (parseModule tokens).findings,
      finding.issue.isStyle = false ∧ Good finding.span := by
  have halike := (parallel_diagonal hjoin heof).readModule_alike ⟨rfl, htokens⟩
  intro finding hmem
  have hfinding := List.forall₂_same.mp halike.findings finding hmem
  exact ⟨hfinding.not_style, hfinding.span⟩

end KCompiler
