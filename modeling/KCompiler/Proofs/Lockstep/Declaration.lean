import KCompiler.Proofs.Lockstep.Expression

/-! # Declarations in lockstep

The parsers of modifiers, variables and type aliases go the same way on inputs that look alike, and
so do those of the statements on a single line. What they report on modifiers is at the beginning
of the declaration.
-/

namespace KCompiler

open Outcome

section Findings

variable {like : Likeness} {token₁ token₂ : Token} {start₁ start₂ : Span}

theorem repetition_alike (modifiers : Modifiers) (modifier : Modifier)
    (htoken : token₁.Alike like token₂) :
    List.Forall₂ (Finding.Alike like) (repetition modifiers modifier token₁)
      (repetition modifiers modifier token₂) := by
  unfold repetition
  split
  · exact alike_finding htoken.span rfl
  · exact .nil

theorem refusals_alike (modifiers : Modifiers) (scope : Scope) (kind : DeclKind)
    (hstart : like.Marks start₁ start₂) :
    List.Forall₂ (Finding.Alike like) (refusals modifiers scope kind start₁)
      (refusals modifiers scope kind start₂) := by
  unfold refusals
  rw [List.forall₂_map_left_iff, List.forall₂_map_right_iff, List.forall₂_same]
  exact fun error _ => ⟨rfl, rfl, hstart⟩

theorem misplaced_alike (modifiers : Modifiers) (kind : Kind) (hstart : like.Marks start₁ start₂) :
    List.Forall₂ (Finding.Alike like) (misplaced modifiers kind start₁)
      (misplaced modifiers kind start₂) := by
  unfold misplaced
  split
  · exact .nil
  · exact alike_finding hstart rfl

theorem not_isBoundary_of_modifier {kind : Kind} {modifier : Modifier}
    (hkind : Modifier.ofKind? kind = some modifier) : kind.isBoundary = false := by
  unfold Kind.isBoundary
  split
  case h_5 => rfl
  all_goals cases hkind

end Findings

/-- The kinds of tokens with which a statement begins that holds other declarations or
statements. -/
def Kind.opensBody : Kind → Bool
  | .keyword .record | .keyword .fx | .keyword .if | .keyword .while | .keyword .defer => true
  | _ => false

namespace Lockstep

variable {like : Likeness} {eof₁ eof₂ : Token} (lockstep : Lockstep like eof₁ eof₂)
  {input₁ input₂ : List Token} {start₁ start₂ : Span}

include lockstep

theorem modifierList_alike (modifiers : Modifiers) (hsame : like.Same input₁ input₂) :
    (modifierList modifiers input₁).Alike like Eq (modifierList modifiers input₂) := by
  induction input₁ generalizing modifiers input₂ with
  | nil =>
      rw [modifierList, (lockstep.nil hsame).1.modifierList_eq]
      exact alike_done hsame rfl
  | cons token₁ rest₁ ih =>
      obtain ⟨token₂, rest₂, rfl, htoken⟩ := lockstep.cons hsame
      rw [modifierList, modifierList, ← htoken.kind_eq]
      split
      next modifier hkind =>
        have hrest := lockstep.passes (not_isBoundary_of_modifier hkind) rfl hsame
        exact ((ih _ hrest).reporting (repetition_alike modifiers modifier htoken)).behind _ _
      next => exact alike_done hsame rfl

theorem trailingMut_alike (modifiers : Modifiers) (hsame : like.Same input₁ input₂) :
    (trailingMut modifiers input₁).Alike like Eq (trailingMut modifiers input₂) := by
  cases input₁ with
  | nil =>
      rw [trailingMut, (lockstep.nil hsame).1.trailingMut_eq]
      exact alike_done hsame rfl
  | cons token₁ rest₁ =>
      obtain ⟨token₂, rest₂, rfl, htoken⟩ := lockstep.cons hsame
      rw [trailingMut, trailingMut, ← htoken.kind_eq]
      split
      next hkind =>
        have hrest := lockstep.passes rfl hkind hsame
        exact ((alike_done hrest rfl).reporting (repetition_alike modifiers .mut htoken)).behind _ _
      next => exact alike_done hsame rfl

theorem binding_alike (scope : Scope) (modifiers : Modifiers) (hstart : like.Marks start₁ start₂)
    (hsame : like.Same input₁ input₂) :
    (binding eof₁ scope modifiers start₁ input₁).Alike like Eq
      (binding eof₂ scope modifiers start₂ input₂) := by
  rw [binding_def, binding_def]
  refine lockstep.expecting_alike (by decide) (lockstep.passes rfl) hsame ?_
  intro name₁ name₂ hname rest₁ rest₂ hrest _ _
  refine (lockstep.trailingMut_alike modifiers hrest).andThen ?_
  rintro modifiers _ rfl rest₁ rest₂ hrest _ _
  refine lockstep.expecting_alike (by decide) (lockstep.passes rfl) hrest ?_
  intro _ _ _ rest₁ rest₂ hrest _ _
  refine (lockstep.typeExpr_alike rest₁ hrest).andThen ?_
  rintro type _ rfl rest₁ rest₂ hrest _ _
  rw [hname.text_eq]
  exact (alike_done hrest rfl).reporting (refusals_alike modifiers scope .variable hstart)

theorem initialValue_alike (hsame : like.Same input₁ input₂) :
    (initialValue eof₁ input₁).Alike like Eq (initialValue eof₂ input₂) := by
  cases input₁ with
  | nil =>
      rw [initialValue_nil, (lockstep.nil hsame).1.initialValue_eq]
      exact alike_done hsame rfl
  | cons token₁ rest₁ =>
      obtain ⟨token₂, rest₂, rfl, htoken⟩ := lockstep.cons hsame
      rw [initialValue_cons, initialValue_cons, ← htoken.kind_eq]
      split
      next hkind =>
        have hrest := lockstep.passes rfl hkind hsame
        exact ((lockstep.expression_alike 0 rest₁ hrest).mapEq some).behind _ _
      next => exact alike_done hsame rfl

theorem variableDecl_alike (scope : Scope) (modifiers : Modifiers)
    (hstart : like.Marks start₁ start₂) (hsame : like.Same input₁ input₂) :
    (variableDecl eof₁ scope modifiers start₁ input₁).Alike like Eq
      (variableDecl eof₂ scope modifiers start₂ input₂) := by
  rw [variableDecl_def, variableDecl_def]
  refine (lockstep.binding_alike scope modifiers hstart hsame).andThen ?_
  rintro decl _ rfl rest₁ rest₂ hrest _ _
  exact (lockstep.initialValue_alike hrest).mapEq _

theorem parameter_alike (hsame : like.Same input₁ input₂) :
    (parameter eof₁ input₁).Alike like Eq (parameter eof₂ input₂) := by
  rw [parameter_def, parameter_def]
  refine (lockstep.modifierList_alike .empty hsame).andThen ?_
  rintro modifiers _ rfl rest₁ rest₂ hrest _ _
  exact lockstep.binding_alike .parameter modifiers (lockstep.peek_span hsame) hrest

theorem generics_alike (hsame : like.Same input₁ input₂) :
    (generics eof₁ input₁).Alike like Eq (generics eof₂ input₂) := by
  rw [generics_def, generics_def]
  refine (lockstep.delimited_alike rfl rfl hsame ?_).mapEq _
  intro inner₁ inner₂ hinner _ _
  refine (lockstep.expect_alike (by decide) (lockstep.passes rfl) hinner).map ?_
  exact fun _ _ hname => hname.text_eq

theorem returnType_alike (hsame : like.Same input₁ input₂) :
    (returnType eof₁ input₁).Alike like Eq (returnType eof₂ input₂) := by
  cases input₁ with
  | nil =>
      rw [returnType_nil, (lockstep.nil hsame).1.returnType_eq]
      exact alike_done hsame rfl
  | cons token₁ rest₁ =>
      obtain ⟨token₂, rest₂, rfl, htoken⟩ := lockstep.cons hsame
      rw [returnType_cons, returnType_cons, ← htoken.kind_eq]
      split
      next hkind =>
        exact (lockstep.typeExpr_alike rest₁ (lockstep.passes rfl hkind hsame)).behind _ _
      next => exact alike_done hsame rfl

theorem typeAlias_alike (hsame : like.Same input₁ input₂) :
    (typeAlias eof₁ input₁).Alike like Eq (typeAlias eof₂ input₂) := by
  rw [typeAlias_def, typeAlias_def]
  refine (lockstep.typeExpr_alike input₁ hsame).andThen ?_
  rintro target _ rfl rest₁ rest₂ hrest _ _
  refine lockstep.expecting_alike (by decide) (lockstep.passes rfl) hrest ?_
  intro _ _ _ rest₁ rest₂ hrest _ _
  refine lockstep.expecting_alike (by decide) (lockstep.passes rfl) hrest ?_
  intro name₁ name₂ hname rest₁ rest₂ hrest _ _
  rw [hname.text_eq]
  exact alike_done hrest rfl

/-- Both inputs begin with a token of a kind, or neither does. -/
theorem head?_alike {kind : Kind} (hne : kind ≠ .eof) (hsame : like.Same input₁ input₂) :
    (input₁.head?.map Token.kind == some kind) = (input₂.head?.map Token.kind == some kind) := by
  cases input₁ with
  | nil =>
      obtain ⟨hended, -⟩ := lockstep.nil hsame
      cases hended with
      | nil => rfl
      | eof hkind => simpa [hkind] using hne.symm
  | cons token₁ rest₁ =>
      obtain ⟨token₂, rest₂, rfl, htoken⟩ := lockstep.cons hsame
      simp [htoken.kind_eq]

theorem startsVariable_alike (hsame : like.Same input₁ input₂) :
    startsVariable input₁ = startsVariable input₂ := by
  cases input₁ with
  | nil => exact (lockstep.nil hsame).1.startsVariable_eq.symm
  | cons name₁ rest₁ =>
      obtain ⟨name₂, rest₂, rfl, hname⟩ := lockstep.cons hsame
      by_cases hkind : name₁.kind = .identifier
      case neg =>
        have hkind₁ := beq_false_of_ne hkind
        have hkind₂ := hname.kind_eq ▸ hkind₁
        cases rest₁ <;> cases rest₂ <;> simp [startsVariable, hkind₁, hkind₂]
      have hrest := lockstep.passes rfl hkind hsame
      cases rest₁ with
      | nil =>
          obtain ⟨hended, -⟩ := lockstep.nil hrest
          cases hended with
          | nil => rfl
          | eof hkind => simp [startsVariable, hkind]
      | cons mark₁ more₁ =>
          obtain ⟨mark₂, more₂, rfl, hmark⟩ := lockstep.cons hrest
          simp only [startsVariable, hname.kind_eq, ← hmark.kind_eq]
          by_cases hmut : mark₁.kind = .keyword .mut
          · rw [lockstep.head?_alike (by decide) (lockstep.passes rfl hmut hrest)]
          · simp [beq_false_of_ne hmut]

/-- A statement that holds no others. -/
theorem simpleStatement_alike (scope : Scope) (modifiers : Modifiers)
    (hstart : like.Marks start₁ start₂) (hsame : like.Same input₁ input₂)
    (hsimple : ∀ token ∈ input₁.head?, token.kind.opensBody = false) :
    (unmodifiedStatement eof₁ scope modifiers start₁ input₁).Alike like Eq
      (unmodifiedStatement eof₂ scope modifiers start₂ input₂) := by
  cases input₁ with
  | nil =>
      rw [unmodifiedStatement_nil, (lockstep.nil hsame).1.unmodifiedStatement_eq]
      exact ((lockstep.expression_alike 0 [] hsame).mapEq _).reporting
        (misplaced_alike modifiers .eof hstart)
  | cons token₁ rest₁ =>
      obtain ⟨token₂, rest₂, rfl, htoken⟩ := lockstep.cons hsame
      have hmisplaced := misplaced_alike modifiers token₁.kind hstart
      have hopens : token₁.kind.opensBody = false := hsimple token₁ rfl
      rw [unmodifiedStatement_cons, unmodifiedStatement_cons, ← htoken.kind_eq,
        ← lockstep.startsVariable_alike hsame]
      split
      case h_1 hkind | h_2 hkind | h_4 hkind | h_5 hkind | h_6 hkind =>
        simp [hkind, Kind.opensBody] at hopens
      case h_3 hkind =>
        have hrest := lockstep.passes rfl hkind hsame
        exact ((lockstep.typeAlias_alike hrest).behind _ _).reporting hmisplaced
      case h_7 hkind | h_8 hkind =>
        have hrest := lockstep.passes rfl hkind hsame
        exact ((alike_done hrest rfl).behind _ _).reporting hmisplaced
      split
      · exact (lockstep.variableDecl_alike scope modifiers hstart hsame).mapEq _
      · exact ((lockstep.expression_alike 0 _ hsame).mapEq _).reporting hmisplaced

end Lockstep

end KCompiler
