import KCompiler.Proofs.Lockstep.Basic

/-! # Types and expressions in lockstep

The parsers of types and expressions go the same way on inputs that look alike. They take a token
by its kind and its text, and pass over no token that bounds a statement.
-/

namespace KCompiler

open Outcome

section Tokens

variable {like : Likeness} {token token₁ token₂ : Token} {kind : Kind}

theorem Ty.ofToken?_alike (htoken : token₁.Alike like token₂) :
    Ty.ofToken? token₁ = Ty.ofToken? token₂ := by
  unfold Ty.ofToken?
  rw [htoken.kind_eq, htoken.text_eq]

theorem not_isBoundary_of_type {base : Ty} (hbase : Ty.ofToken? token = some base) :
    token.kind.isBoundary = false := by
  unfold Ty.ofToken? at hbase
  split at hbase
  case h_3 => cases hbase
  all_goals simp [*, Kind.isBoundary]

/-- Openings of the same operand; findings on a literal may be at other spans. -/
inductive Opening.Alike (like : Likeness) : Opening → Opening → Prop
  | leading (op : UnaryOp) : Alike like (.leading op) (.leading op)
  | literal (value : Literal) {findings₁ findings₂ : List Finding}
      (hfindings : List.Forall₂ (Finding.Alike like) findings₁ findings₂) :
      Alike like (.literal value findings₁) (.literal value findings₂)
  | name (name : String) : Alike like (.name name) (.name name)
  | group : Alike like .group .group

/-- The value of a literal, with findings that correspond. -/
def Literal.AlikeReading (like : Likeness) (first second : Literal × List Finding) : Prop :=
  first.1 = second.1 ∧ List.Forall₂ (Finding.Alike like) first.2 second.2

theorem Literal.ofToken?_alike (htoken : token₁.Alike like token₂) :
    Option.Rel (Literal.AlikeReading like) (Literal.ofToken? token₁) (Literal.ofToken? token₂) := by
  unfold Literal.ofToken?
  rw [← htoken.kind_eq, ← htoken.text_eq]
  split
  case h_7 => exact .none
  case h_1 | h_2 =>
    split
    · exact .some ⟨rfl, .nil⟩
    · exact .some ⟨rfl, alike_finding htoken.span rfl⟩
  all_goals exact .some ⟨rfl, .nil⟩

theorem Opening.ofToken?_alike (htoken : token₁.Alike like token₂) :
    Option.Rel (Opening.Alike like) (Opening.ofToken? token₁) (Opening.ofToken? token₂) := by
  unfold Opening.ofToken?
  rw [← htoken.kind_eq, ← htoken.text_eq]
  split
  next operator _ =>
    cases UnaryOp.leading? operator with
    | none => exact .none
    | some op => exact .some (.leading op)
  next => exact .some (.name _)
  next => exact .some (.name _)
  next => exact .some .group
  next =>
    have hliteral := Literal.ofToken?_alike htoken
    generalize Literal.ofToken? token₁ = first at hliteral
    generalize Literal.ofToken? token₂ = second at hliteral
    cases hliteral with
    | none => exact .none
    | @some reading₁ reading₂ hreading =>
        obtain ⟨value, findings₁⟩ := reading₁
        obtain ⟨_, findings₂⟩ := reading₂
        obtain ⟨rfl, hfindings⟩ := hreading
        exact .some (.literal value hfindings)

theorem not_isBoundary_of_opening {opening : Opening}
    (hopening : Opening.ofToken? token = some opening) : token.kind.isBoundary = false := by
  unfold Kind.isBoundary
  split
  case h_5 => rfl
  all_goals
    next hkind => simp [Opening.ofToken?, Literal.ofToken?, hkind] at hopening

theorem kind_of_group (hopening : Opening.ofToken? token = some .group) :
    token.kind = .punct .lparen := by
  unfold Opening.ofToken? at hopening
  split at hopening
  next operator _ => cases hop : UnaryOp.leading? operator <;> simp [hop] at hopening
  next => cases hopening
  next => cases hopening
  next hkind => exact hkind
  next =>
    obtain ⟨_, -, heq⟩ := Option.map_eq_some_iff.mp hopening
    cases heq

theorem not_isBoundary_of_continuation {continuation : Continuation}
    (hkind : Continuation.ofKind? kind = some continuation) : kind.isBoundary = false := by
  unfold Kind.isBoundary
  split
  case h_5 => rfl
  all_goals cases hkind

end Tokens

namespace Lockstep

variable {like : Likeness} {eof₁ eof₂ : Token}

theorem typeExpr_alike (lockstep : Lockstep like eof₁ eof₂) (input₁ : List Token)
    {input₂ : List Token} (hsame : like.Same input₁ input₂) :
    (typeExpr eof₁ input₁).Alike like Eq (typeExpr eof₂ input₂) := by
  match input₁ with
  | [] =>
      obtain ⟨hended, heof⟩ := lockstep.nil hsame
      rw [typeExpr_nil, hended.typeExpr_eq eof₂, heof.kind_eq]
      exact (alike_failed hsame).reporting (alike_finding heof.span rfl)
  | token₁ :: rest₁ =>
      obtain ⟨token₂, rest₂, rfl, htoken⟩ := lockstep.cons hsame
      rw [typeExpr_cons, typeExpr_cons, ← Ty.ofToken?_alike htoken, ← htoken.kind_eq]
      split
      next => exact (alike_failed hsame).reporting (alike_finding htoken.span rfl)
      next base hbase =>
        have hrest := lockstep.passes (not_isBoundary_of_type hbase) rfl hsame
        refine ((lockstep.delimited_alike rfl rfl hrest ?_).mapEq _).behind _ _
        exact fun inner₁ inner₂ hinner hlength₁ _ => lockstep.typeExpr_alike inner₁ hinner
termination_by input₁.length
decreasing_by simp only [List.length_cons]; omega

theorem typeArguments_alike (lockstep : Lockstep like eof₁ eof₂) {input₁ input₂ : List Token}
    (hsame : like.Same input₁ input₂) :
    (typeArguments eof₁ input₁).Alike like Eq (typeArguments eof₂ input₂) := by
  rw [typeArguments_def, typeArguments_def]
  exact lockstep.delimited_alike rfl rfl hsame fun inner₁ _ hinner _ _ =>
    lockstep.typeExpr_alike inner₁ hinner

mutual
theorem expression_alike (lockstep : Lockstep like eof₁ eof₂) (least : Nat) (input₁ : List Token)
    {input₂ : List Token} (hsame : like.Same input₁ input₂) :
    (expression eof₁ least input₁).Alike like Eq (expression eof₂ least input₂) := by
  rw [expression_def, expression_def]
  refine (lockstep.operand_alike input₁ hsame).andThen ?_
  rintro first _ rfl rest₁ rest₂ hrest hlength₁ _
  exact lockstep.operators_alike least _ first rest₁ hrest
termination_by 3 * input₁.length + 2
decreasing_by all_goals omega

theorem operand_alike (lockstep : Lockstep like eof₁ eof₂) (input₁ : List Token)
    {input₂ : List Token} (hsame : like.Same input₁ input₂) :
    (operand eof₁ input₁).Alike like Eq (operand eof₂ input₂) := by
  match input₁ with
  | [] =>
      obtain ⟨hended, heof⟩ := lockstep.nil hsame
      rw [operand_nil, hended.operand_eq eof₂, heof.kind_eq]
      exact (alike_done hsame rfl).reporting (alike_finding heof.span rfl)
  | token₁ :: rest₁ =>
      obtain ⟨token₂, rest₂, rfl, htoken⟩ := lockstep.cons hsame
      have hopening := Opening.ofToken?_alike htoken
      rw [operand_cons, operand_cons]
      generalize hfirst : Opening.ofToken? token₁ = first at hopening
      generalize Opening.ofToken? token₂ = second at hopening
      cases hopening with
      | none =>
          simp only [← htoken.kind_eq]
          split
          next => exact (alike_done hsame rfl).reporting (alike_finding htoken.span rfl)
          next hboundary =>
            have hrest := lockstep.passes (by simpa using hboundary) rfl hsame
            exact ((alike_done hrest rfl).reporting (alike_finding htoken.span rfl)).behind _ _
      | some hopening =>
          have hrest := lockstep.passes (not_isBoundary_of_opening hfirst) rfl hsame
          cases hopening with
          | leading op =>
              exact ((lockstep.expression_alike leadingPower rest₁ hrest).mapEq _).behind _ _
          | literal value hfindings =>
              exact ((alike_done hrest rfl).reporting hfindings).behind _ _
          | name name =>
              refine ((lockstep.typeArguments_alike hrest).andThen ?_).behind _ _
              rintro typeArgs _ rfl inner₁ inner₂ hinner hlength₁ _
              refine (lockstep.delimited_alike rfl rfl hinner ?_).mapEq _
              exact fun item₁ _ hitem hlength₁ _ => lockstep.expression_alike 0 item₁ hitem
          | group =>
              have hlines := lockstep.breaks (by rw [kind_of_group hfirst]; rfl) hsame
              have hnewlines := length_skipNewlines_le rest₁
              refine (Alike.within ?_ _ _).behind _ _
              refine (lockstep.expression_alike 0 (skipNewlines rest₁) hlines).andThen ?_
              rintro inside _ rfl inner₁ inner₂ hinner _ _
              refine lockstep.expecting_alike (by decide) (lockstep.passes rfl) hinner ?_
              exact fun _ _ _ _ _ hlast _ _ => alike_done hlast rfl
termination_by 3 * input₁.length + 1
decreasing_by all_goals simp only [List.length_cons]; omega

theorem operators_alike (lockstep : Lockstep like eof₁ eof₂) (least most : Nat) (first : Expr)
    (input₁ : List Token) {input₂ : List Token} (hsame : like.Same input₁ input₂) :
    (operators eof₁ least most first input₁).Alike like Eq
      (operators eof₂ least most first input₂) := by
  match input₁ with
  | [] =>
      rw [operators_nil, (lockstep.nil hsame).1.operators_eq]
      exact alike_done hsame rfl
  | token₁ :: rest₁ =>
      obtain ⟨token₂, rest₂, rfl, htoken⟩ := lockstep.cons hsame
      rw [operators_cons, operators_cons, ← htoken.kind_eq]
      split
      next op hkind =>
        have hrest := lockstep.passes (not_isBoundary_of_continuation hkind) rfl hsame
        split
        · exact (lockstep.operators_alike least most _ rest₁ hrest).behind _ _
        · exact alike_done hsame rfl
      next hkind =>
        have hrest := lockstep.passes (not_isBoundary_of_continuation hkind) rfl hsame
        split
        · refine ((lockstep.typeExpr_alike rest₁ hrest).andThen ?_).behind _ _
          rintro target _ rfl inner₁ inner₂ hinner hlength₁ _
          exact lockstep.operators_alike least castPower _ inner₁ hinner
        · exact alike_done hsame rfl
      next op hkind =>
        have hrest := lockstep.passes (not_isBoundary_of_continuation hkind) rfl hsame
        split
        · refine ((lockstep.expression_alike _ rest₁ hrest).andThen ?_).behind _ _
          rintro second _ rfl inner₁ inner₂ hinner hlength₁ _
          exact lockstep.operators_alike least _ _ inner₁ hinner
        · exact alike_done hsame rfl
      next => exact alike_done hsame rfl
termination_by 3 * input₁.length
decreasing_by all_goals simp only [List.length_cons]; omega
end

end Lockstep

end KCompiler
