import KCompiler.Proofs.Lockstep.Ended
import KCompiler.Proofs.Outcome
import Mathlib.Data.List.Forall2

/-! # Runs in lockstep

Two runs of a parser take the same steps as long as their inputs look alike. When inputs look
alike is left open; the rules below are all that a parser relies on. They reach to the end of a
statement, behind which two inputs may have nothing in common.
-/

namespace KCompiler

/-- A remark on style. -/
def Issue.isStyle : Issue → Bool
  | .redundantParens _ | .blankLines _ => true
  | _ => false

/-- The kinds of tokens behind which a line may be broken in an expression. -/
def Kind.allowsBreak : Kind → Bool
  | .punct .lparen | .punct .lbracket | .punct .comma => true
  | _ => false

/-- What two runs have in common: inputs that look alike, and spans that correspond. -/
structure Likeness where
  Same : List Token → List Token → Prop
  Marks : Span → Span → Prop

/-- Tokens that differ at most in where they stand. -/
structure Token.Alike (like : Likeness) (first second : Token) : Prop where
  kind_eq : first.kind = second.kind
  text_eq : first.text = second.text
  span : like.Marks first.span second.span

/-- Findings of the same cause at spans that correspond. Parsers have nothing to say on style. -/
structure Finding.Alike (like : Likeness) (first second : Finding) : Prop where
  issue_eq : first.issue = second.issue
  not_style : first.issue.isStyle = false
  span : like.Marks first.span second.span

namespace Likeness

variable (like : Likeness)

/-- Inputs still look alike behind tokens of a kind. -/
def Passes (kind : Kind) : Prop :=
  ∀ ⦃token₁ token₂ : Token⦄ ⦃rest₁ rest₂ : List Token⦄, token₁.kind = kind →
    like.Same (token₁ :: rest₁) (token₂ :: rest₂) → like.Same rest₁ rest₂

end Likeness

/-- Inputs that look alike lead two runs the same way up to the end of a statement. If one has no
more tokens, the other may still have the one that ends it. -/
structure Lockstep (like : Likeness) (eof₁ eof₂ : Token) : Prop where
  nil {input₂ : List Token} (hsame : like.Same [] input₂) :
    Ended input₂ ∧ eof₁.Alike like (peek eof₂ input₂)
  cons {token₁ : Token} {rest₁ input₂ : List Token} (hsame : like.Same (token₁ :: rest₁) input₂) :
    ∃ token₂ rest₂, input₂ = token₂ :: rest₂ ∧ token₁.Alike like token₂
  passes {kind : Kind} (hkind : kind.isBoundary = false) : like.Passes kind
  block {token₁ token₂ : Token} {rest₁ rest₂ : List Token} (hkind : token₁.kind = .punct .lbrace)
    (hsame : like.Same (token₁ :: rest₁) (token₂ :: rest₂)) :
    like.Same (skipBlock 1 rest₁) (skipBlock 1 rest₂)
  breaks {token₁ token₂ : Token} {rest₁ rest₂ : List Token} (hkind : token₁.kind.allowsBreak)
    (hsame : like.Same (token₁ :: rest₁) (token₂ :: rest₂)) :
    like.Same (skipNewlines rest₁) (skipNewlines rest₂)

namespace Outcome

variable {like : Likeness} {input₁ input₂ inner₁ inner₂ : List Token} {α α' β β' : Type}
  {R : α → α' → Prop} {Q : β → β' → Prop}

/-- Outcomes with related values that leave inputs that look alike and come with findings of the
same causes. -/
structure Alike (like : Likeness) (R : α → α' → Prop) (first : Outcome input₁ α)
    (second : Outcome input₂ α') : Prop where
  value : Option.Rel R first.value second.value
  rest : like.Same first.rest second.rest
  findings : List.Forall₂ (Finding.Alike like) first.findings second.findings

theorem alike_done (hsame : like.Same input₁ input₂) {value₁ : α} {value₂ : α'}
    (hvalue : R value₁ value₂) :
    (done value₁ : Outcome input₁ α).Alike like R (done value₂ : Outcome input₂ α') :=
  ⟨.some hvalue, hsame, .nil⟩

theorem alike_failed (hsame : like.Same input₁ input₂) :
    (failed : Outcome input₁ α).Alike like R (failed : Outcome input₂ α') :=
  ⟨.none, hsame, .nil⟩

namespace Alike

variable {first : Outcome input₁ α} {second : Outcome input₂ α'}

theorem value_eq {second : Outcome input₂ α} (halike : first.Alike like Eq second) :
    first.value = second.value := by
  have hvalue := halike.value
  revert hvalue
  cases first.value <;> cases second.value <;> rintro ⟨⟩ <;> simp_all

theorem map (halike : first.Alike like R second) {f : α → β} {g : α' → β'}
    (hvalue : ∀ value₁ value₂, R value₁ value₂ → Q (f value₁) (g value₂)) :
    (first.map f).Alike like Q (second.map g) := by
  obtain ⟨value₁, rest₁, findings₁, hsuffix₁⟩ := first
  obtain ⟨value₂, rest₂, findings₂, hsuffix₂⟩ := second
  obtain ⟨hrel, hrest, hfindings⟩ := halike
  cases hrel with
  | none => exact ⟨.none, hrest, hfindings⟩
  | some hrel => exact ⟨.some (hvalue _ _ hrel), hrest, hfindings⟩

theorem mapEq {second : Outcome input₂ α} (halike : first.Alike like Eq second) (f : α → β) :
    (first.map f).Alike like Eq (second.map f) :=
  halike.map fun _ _ heq => congrArg f heq

theorem reporting (halike : first.Alike like R second) {findings₁ findings₂ : List Finding}
    (hfindings : List.Forall₂ (Finding.Alike like) findings₁ findings₂) :
    (first.reporting findings₁).Alike like R (second.reporting findings₂) :=
  ⟨halike.value, halike.rest, List.rel_append hfindings halike.findings⟩

theorem within {first : Outcome inner₁ α} {second : Outcome inner₂ α'}
    (halike : first.Alike like R second) (hsuffix₁ : inner₁ <:+ input₁)
    (hsuffix₂ : inner₂ <:+ input₂) :
    (first.within hsuffix₁).Alike like R (second.within hsuffix₂) :=
  ⟨halike.value, halike.rest, halike.findings⟩

theorem behind (halike : first.Alike like R second) (token₁ token₂ : Token) :
    (first.behind token₁).Alike like R (second.behind token₂) :=
  halike.within _ _

theorem andThen (halike : first.Alike like R second)
    {next₁ : α → (rest : List Token) → rest.length ≤ input₁.length → Outcome rest β}
    {next₂ : α' → (rest : List Token) → rest.length ≤ input₂.length → Outcome rest β'}
    (hnext : ∀ value₁ value₂, R value₁ value₂ → ∀ rest₁ rest₂, like.Same rest₁ rest₂ →
      ∀ hlength₁ hlength₂,
        (next₁ value₁ rest₁ hlength₁).Alike like Q (next₂ value₂ rest₂ hlength₂)) :
    (first.andThen next₁).Alike like Q (second.andThen next₂) := by
  obtain ⟨value₁, rest₁, findings₁, hsuffix₁⟩ := first
  obtain ⟨value₂, rest₂, findings₂, hsuffix₂⟩ := second
  obtain ⟨hvalue, hrest, hfindings⟩ := halike
  cases hvalue with
  | none => exact ⟨.none, hrest, hfindings⟩
  | some hvalue =>
      exact ((hnext _ _ hvalue rest₁ rest₂ hrest hsuffix₁.length_le
        hsuffix₂.length_le).reporting hfindings).within hsuffix₁ hsuffix₂

end Alike
end Outcome

/-- A finding of one cause at spans that correspond. -/
theorem alike_finding {like : Likeness} {issue : Issue} {span₁ span₂ : Span}
    (hspan : like.Marks span₁ span₂) (hissue : issue.isStyle = false) :
    List.Forall₂ (Finding.Alike like) [⟨issue, span₁⟩] [⟨issue, span₂⟩] :=
  .cons ⟨rfl, hissue, hspan⟩ .nil

/-- Findings at equal spans are equal. -/
theorem findings_eq_of_alike {like : Likeness} (hmarks : like.Marks = Eq)
    {findings₁ findings₂ : List Finding}
    (halike : List.Forall₂ (Finding.Alike like) findings₁ findings₂) : findings₁ = findings₂ := by
  induction halike with
  | nil => rfl
  | @cons first second _ _ hfirst _ ih =>
      obtain ⟨issue, span⟩ := first
      obtain ⟨_, _⟩ := second
      obtain ⟨rfl, -, hspan⟩ := hfirst
      rw [hmarks] at hspan
      obtain rfl := hspan
      rw [ih]

namespace Lockstep

open Outcome

variable {like : Likeness} {eof₁ eof₂ : Token} (lockstep : Lockstep like eof₁ eof₂)
  {input₁ input₂ : List Token} {α : Type}

include lockstep

theorem same_skipToken {token₁ token₂ : Token} {rest₁ rest₂ : List Token}
    (hkind : token₁.kind.isBoundary = false) (htoken : token₁.Alike like token₂)
    (hsame : like.Same (token₁ :: rest₁) (token₂ :: rest₂)) :
    like.Same (skipToken (token₁ :: rest₁)) (skipToken (token₂ :: rest₂)) := by
  rw [skipToken, skipToken, ← htoken.kind_eq]
  split
  next hbrace => exact lockstep.block hbrace hsame
  next => exact lockstep.passes hkind rfl hsame

theorem peek_span (hsame : like.Same input₁ input₂) :
    like.Marks (peek eof₁ input₁).span (peek eof₂ input₂).span := by
  cases input₁ with
  | nil => exact (lockstep.nil hsame).2.span
  | cons token₁ rest₁ =>
      obtain ⟨token₂, rest₂, rfl, htoken⟩ := lockstep.cons hsame
      exact htoken.span

theorem seek_alike {kind : Kind} (hne : kind ≠ .eof) (hpasses : like.Passes kind) (skips : Nat)
    (hsame : like.Same input₁ input₂) :
    (seek kind skips input₁).Alike like (Token.Alike like) (seek kind skips input₂) := by
  induction skips generalizing input₁ input₂ with
  | zero => exact alike_failed hsame
  | succ skips ih =>
      cases input₁ with
      | nil =>
          rw [seek, (lockstep.nil hsame).1.seek_eq hne]
          exact alike_failed hsame
      | cons token₁ rest₁ =>
          obtain ⟨token₂, rest₂, rfl, htoken⟩ := lockstep.cons hsame
          rw [seek, seek, ← htoken.kind_eq]
          split
          next hkind => exact (alike_done (hpasses hkind hsame) htoken).behind _ _
          next =>
            split
            next => exact alike_failed hsame
            next hboundary =>
              have hskip := lockstep.same_skipToken (by simpa using hboundary) htoken hsame
              exact ((ih hskip).within _ _).behind _ _

theorem same_recover (input₁ : List Token) {input₂ : List Token}
    (hsame : like.Same input₁ input₂) : like.Same (recover input₁) (recover input₂) := by
  match input₁ with
  | [] => rwa [recover, (lockstep.nil hsame).1.recover_eq]
  | token₁ :: rest₁ =>
      obtain ⟨token₂, rest₂, rfl, htoken⟩ := lockstep.cons hsame
      rw [recover, recover, ← htoken.kind_eq]
      split
      next => exact hsame
      next hboundary =>
        have hlength := (skipToken_cons_suffix token₁ rest₁).length_le
        have hskip := lockstep.same_skipToken (by simpa using hboundary) htoken hsame
        exact same_recover _ hskip
termination_by input₁.length
decreasing_by simp only [List.length_cons]; omega

theorem expect_alike {kind : Kind} (hne : kind ≠ .eof) (hpasses : like.Passes kind)
    (hsame : like.Same input₁ input₂) :
    (expect eof₁ kind input₁).Alike like (Token.Alike like) (expect eof₂ kind input₂) := by
  cases input₁ with
  | nil =>
      obtain ⟨hended, heof⟩ := lockstep.nil hsame
      rw [expect, hended.expect_eq eof₂ hne, heof.kind_eq]
      exact (alike_failed hsame).reporting (alike_finding heof.span rfl)
  | cons token₁ rest₁ =>
      obtain ⟨token₂, rest₂, rfl, htoken⟩ := lockstep.cons hsame
      rw [expect, expect, ← htoken.kind_eq]
      split
      next hkind => exact (alike_done (hpasses hkind hsame) htoken).behind _ _
      next =>
        exact (lockstep.seek_alike hne hpasses maxSkips hsame).reporting
          (alike_finding htoken.span rfl)

theorem expecting_alike {kind : Kind} (hne : kind ≠ .eof) (hpasses : like.Passes kind)
    (hsame : like.Same input₁ input₂)
    {next₁ : Token → (rest : List Token) → rest.length < input₁.length → Outcome rest α}
    {next₂ : Token → (rest : List Token) → rest.length < input₂.length → Outcome rest α}
    (hnext : ∀ token₁ token₂, token₁.Alike like token₂ → ∀ rest₁ rest₂, like.Same rest₁ rest₂ →
      ∀ hlength₁ hlength₂,
        (next₁ token₁ rest₁ hlength₁).Alike like Eq (next₂ token₂ rest₂ hlength₂)) :
    (expecting eof₁ kind input₁ next₁).Alike like Eq (expecting eof₂ kind input₂ next₂) := by
  obtain ⟨hvalue, hrest, hfindings⟩ := lockstep.expect_alike hne hpasses hsame
  rcases expecting_cases eof₁ kind input₁ next₁ with
    ⟨hmissing₁, heq₁⟩ | ⟨token₁, hlength₁, hfound₁, heq₁⟩
  all_goals rcases expecting_cases eof₂ kind input₂ next₂ with
    ⟨hmissing₂, heq₂⟩ | ⟨token₂, hlength₂, hfound₂, heq₂⟩
  · rw [heq₁, heq₂]
    exact ⟨.none, hrest, hfindings⟩
  · rw [hmissing₁, hfound₂] at hvalue
    cases hvalue
  · rw [hfound₁, hmissing₂] at hvalue
    cases hvalue
  · rw [hfound₁, hfound₂] at hvalue
    rw [heq₁, heq₂]
    cases hvalue with
    | some htoken =>
        exact ((hnext token₁ token₂ htoken _ _ hrest hlength₁ hlength₂).reporting hfindings).within
          _ _

/-! ## Lists -/

theorem itemsOf_alike {closing : Kind} (input₁ input₂ : List Token)
    (hsame : like.Same input₁ input₂)
    {item₁ : (inner : List Token) → inner.length ≤ input₁.length → Outcome inner α}
    {item₂ : (inner : List Token) → inner.length ≤ input₂.length → Outcome inner α}
    (hitem : ∀ inner₁ inner₂, like.Same inner₁ inner₂ → ∀ hlength₁ hlength₂,
      (item₁ inner₁ hlength₁).Alike like Eq (item₂ inner₂ hlength₂)) :
    (itemsOf closing input₁ item₁).Alike like Eq (itemsOf closing input₂ item₂) := by
  match input₁ with
  | [] =>
      rw [itemsOf_nil, (lockstep.nil hsame).1.itemsOf_eq]
      exact alike_done hsame rfl
  | token₁ :: tokens₁ =>
      obtain ⟨token₂, tokens₂, rfl, htoken⟩ := lockstep.cons hsame
      rw [itemsOf_cons, itemsOf_cons, ← htoken.kind_eq]
      split
      · exact alike_done hsame rfl
      · refine (hitem _ _ hsame _ _).andThen ?_
        rintro first _ rfl rest₁ rest₂ hrest hlength₁ hlength₂
        cases rest₁ with
        | nil =>
            obtain ⟨hended, -⟩ := lockstep.nil hrest
            cases hended with
            | nil => exact alike_done hrest rfl
            | eof hkind =>
                simp only [hkind, reduceCtorEq, if_false]
                exact alike_done hrest rfl
        | cons comma₁ more₁ =>
            obtain ⟨comma₂, more₂, rfl, hcomma⟩ := lockstep.cons hrest
            have hmore := length_skipNewlines_le more₁
            simp only [← hcomma.kind_eq]
            split
            next hkind =>
              have hbreaks := lockstep.breaks (by rw [hkind]; rfl) hrest
              refine (Alike.within ?_ _ _).behind _ _
              refine (itemsOf_alike _ _ hbreaks fun inner₁ inner₂ hinner _ _ => ?_).mapEq _
              exact hitem inner₁ inner₂ hinner _ _
            next => exact alike_done hrest rfl
termination_by input₁.length
decreasing_by simp only [List.length_cons] at *; omega

/-- A list behind a token that may be followed by a line break. -/
theorem listOf_alike {closing : Kind} {token₁ token₂ : Token} {rest₁ rest₂ : List Token}
    (hkind : token₁.kind.allowsBreak) (hsame : like.Same (token₁ :: rest₁) (token₂ :: rest₂))
    {item₁ : (inner : List Token) → inner.length ≤ rest₁.length → Outcome inner α}
    {item₂ : (inner : List Token) → inner.length ≤ rest₂.length → Outcome inner α}
    (hitem : ∀ inner₁ inner₂, like.Same inner₁ inner₂ → ∀ hlength₁ hlength₂,
      (item₁ inner₁ hlength₁).Alike like Eq (item₂ inner₂ hlength₂)) :
    (listOf closing rest₁ item₁).Alike like Eq (listOf closing rest₂ item₂) := by
  rw [listOf_def, listOf_def]
  refine (lockstep.itemsOf_alike _ _ (lockstep.breaks hkind hsame) ?_).within _ _
  exact fun inner₁ inner₂ hinner _ _ => hitem inner₁ inner₂ hinner _ _

theorem delimited_alike {opening closing : Kind} (hopening : opening.allowsBreak)
    (hclosing : closing.isBoundary = false) (hsame : like.Same input₁ input₂)
    {item₁ : (inner : List Token) → inner.length < input₁.length → Outcome inner α}
    {item₂ : (inner : List Token) → inner.length < input₂.length → Outcome inner α}
    (hitem : ∀ inner₁ inner₂, like.Same inner₁ inner₂ → ∀ hlength₁ hlength₂,
      (item₁ inner₁ hlength₁).Alike like Eq (item₂ inner₂ hlength₂)) :
    (delimited eof₁ opening closing input₁ item₁).Alike like Eq
      (delimited eof₂ opening closing input₂ item₂) := by
  cases input₁ with
  | nil =>
      have hne : opening ≠ .eof := by
        rintro rfl
        cases hopening
      rw [delimited_nil, (lockstep.nil hsame).1.delimited_eq eof₂ hne]
      exact alike_done hsame rfl
  | cons token₁ rest₁ =>
      obtain ⟨token₂, rest₂, rfl, htoken⟩ := lockstep.cons hsame
      rw [delimited_cons, delimited_cons, ← htoken.kind_eq]
      split
      next hkind =>
        refine ((lockstep.listOf_alike (by rw [hkind, hopening]) hsame ?_).andThen ?_).behind _ _
        · exact fun inner₁ inner₂ hinner _ _ => hitem inner₁ inner₂ hinner _ _
        · rintro items _ rfl rest₁ rest₂ hrest _ _
          refine lockstep.expecting_alike ?_ (lockstep.passes hclosing) hrest ?_
          · rintro rfl
            cases hclosing
          · exact fun _ _ _ rest₁ rest₂ hrest _ _ => alike_done hrest rfl
      next => exact alike_done hsame rfl

end Lockstep

end KCompiler
