import KCompiler.Proofs.Completeness.Expression

/-! # What the tokens of a derivation have in common

A property of token lists that survives concatenation, holds of single tokens and is not lost
between parentheses holds of all expressions; if it also holds of a condition with its keyword, it
holds of all statements and modules. So a fact about where tokens can stand is proved without going
through the grammar again.
-/

namespace KCompiler

namespace Kind

/-- Kinds of the tokens of an expression, its parentheses apart. -/
def inExpression : Kind → Bool
  | .identifier | .builtin _ | .integer | .float | .string | .char | .op _ | .newline
  | .keyword .true | .keyword .false | .keyword .as
  | .punct .comma | .punct .lbracket | .punct .rbracket => true
  | _ => false

/-- Parentheses. -/
def isParen (kind : Kind) : Bool :=
  kind = .punct .lparen || kind = .punct .rparen

/-- The keywords that stand before a condition. -/
def takesCondition (kind : Kind) : Bool :=
  kind = .keyword .if || kind = .keyword .while

/-- Kinds that can stand anywhere in a program as far as parentheses and conditions matter. -/
def isPlain (kind : Kind) : Bool :=
  !kind.isParen && !kind.takesCondition

theorem isPlain_of_inExpression (kind : Kind) (hkind : kind.inExpression) : kind.isPlain := by
  unfold inExpression at hkind
  split at hkind
  case h_15 => cases hkind
  all_goals rfl

theorem eq_of_takesCondition {kind : Kind} (hkind : kind.takesCondition) :
    kind = .keyword .if ∨ kind = .keyword .while := by
  simpa [takesCondition] using hkind

theorem inExpression_of_leadingOf? {kind : Kind} {op : UnaryOp}
    (hop : Ladder.leadingOf? kind = some op) : kind.inExpression := by
  cases kind with
  | op operator => rfl
  | _ => cases hop

end Kind

namespace Grammar

theorem Commas.imp {α : Type} {item other : List Token → α → Prop} {tokens : List Token}
    {values : List α} (hitems : Commas item tokens values)
    (himp : ∀ tokens value, item tokens value → other tokens value) :
    Commas other tokens values := by
  induction hitems with
  | nil => exact .nil
  | last hitem => exact .last (himp _ _ hitem)
  | cons hitem hcomma hbreaks _ ih => exact .cons (himp _ _ hitem) hcomma hbreaks ih

theorem Items.imp {α : Type} {item other : List Token → α → Prop} {tokens : List Token}
    {values : List α} (hitems : Items item tokens values)
    (himp : ∀ tokens value, item tokens value → other tokens value) :
    Items other tokens values := by
  induction hitems with
  | nil => exact .nil
  | blank hends _ ih => exact .blank hends ih
  | last hitem => exact .last (himp _ _ hitem)
  | cons hitem hends _ ih => exact .cons (himp _ _ hitem) hends ih

/-- A property of token lists that all lists of tokens of some kinds have. -/
structure ClosedUnder (single : Kind → Bool) (holds : List Token → Prop) : Prop where
  nil : holds []
  append {front back : List Token} : holds front → holds back → holds (front ++ back)
  token {token : Token} : single token.kind → holds [token]

namespace ClosedUnder

variable {α : Type} {single : Kind → Bool} {holds : List Token → Prop} {tokens : List Token}

theorem cons (hclosed : ClosedUnder single holds) {token : Token} (hkind : single token.kind)
    (hrest : holds tokens) : holds (token :: tokens) :=
  hclosed.append (hclosed.token hkind) hrest

theorem all (hclosed : ClosedUnder single holds) (htokens : ∀ token ∈ tokens, single token.kind) :
    holds tokens := by
  induction tokens with
  | nil => exact hclosed.nil
  | cons token tokens ih =>
      rw [List.forall_mem_cons] at htokens
      exact hclosed.cons htokens.1 (ih htokens.2)

theorem mono (hclosed : ClosedUnder single holds) {fewer : Kind → Bool}
    (hfewer : ∀ kind, fewer kind → single kind) : ClosedUnder fewer holds :=
  { hclosed with token := fun hkind => hclosed.token (hfewer _ hkind) }

section Lists

variable (hclosed : ClosedUnder Kind.inExpression holds)

include hclosed

theorem newlines (hbreaks : Newlines tokens) : holds tokens :=
  hclosed.all fun token htoken => by rw [hbreaks token htoken]; rfl

theorem commas {values : List α} (hitems : Commas (fun tokens _ => holds tokens) tokens values) :
    holds tokens := by
  induction hitems with
  | nil => exact hclosed.nil
  | last hitem => exact hitem
  | cons hitem hcomma hbreaks _ ih =>
      refine hclosed.append hitem (hclosed.cons ?_ (hclosed.append (hclosed.newlines hbreaks) ih))
      rw [hcomma]
      rfl

theorem brackets {values : List α}
    (hitems : Bracketed .lbracket .rbracket (fun tokens _ => holds tokens) tokens values) :
    holds tokens := by
  cases hitems with
  | intro hfirst hbreaks hitems hlast =>
      refine hclosed.cons (by rw [hfirst]; rfl) (hclosed.append (hclosed.newlines hbreaks) ?_)
      exact hclosed.append (hclosed.commas hitems) (hclosed.token (by rw [hlast]; rfl))

end Lists

mutual
theorem type (hclosed : ClosedUnder Kind.inExpression holds) :
    ∀ {tokens type}, IsType tokens type → holds tokens
  | _, _, .named hkind => hclosed.token (by rw [hkind]; rfl)
  | _, _, .builtin hkind => hclosed.token (by rw [hkind]; rfl)
  | _, _, .generic hbase (.intro hfirst hbreaks hitems hlast) =>
      hclosed.append (hclosed.type hbase)
        (hclosed.brackets (.intro hfirst hbreaks (hclosed.types hitems) hlast))

theorem types (hclosed : ClosedUnder Kind.inExpression holds) :
    ∀ {tokens types}, Commas IsType tokens types →
      Commas (fun tokens _ => holds tokens) tokens types
  | _, _, .nil => .nil
  | _, _, .last hitem => .last (hclosed.type hitem)
  | _, _, .cons hitem hcomma hbreaks hmore =>
      .cons (hclosed.type hitem) hcomma hbreaks (hclosed.types hmore)
end

theorem typeArguments (hclosed : ClosedUnder Kind.inExpression holds) {types : Option (List Ty)}
    (htypes : Optional .lbracket .rbracket IsType tokens types) : holds tokens := by
  cases htypes with
  | none => exact hclosed.nil
  | some hitems =>
      cases hitems with
      | intro hfirst hbreaks hitems hlast =>
          exact hclosed.brackets (.intro hfirst hbreaks (hclosed.types hitems) hlast)

theorem operator (hclosed : ClosedUnder Kind.inExpression holds) {ops : List BinaryOp}
    {token : Token} {op : BinaryOp} (hop : Ladder.operatorOf? ops token.kind = some op) :
    holds [token] := by
  refine hclosed.token ?_
  cases hkind : token.kind with
  | op operator => rfl
  | _ => simp [hkind, Ladder.operatorOf?] at hop

theorem name (hclosed : ClosedUnder Kind.inExpression holds) {token : Token}
    (hname : IsName token) : holds [token] := by
  refine hclosed.token ?_
  rcases hname with hkind | hkind
  · rw [hkind]
    rfl
  · obtain ⟨type, hkind⟩ := Kind.exists_of_isBuiltin hkind
    rw [hkind]
    rfl

end ClosedUnder

/-- A property of token lists that all expressions have. -/
structure ClosedInExpressions (holds : List Token → Prop) : Prop
    extends ClosedUnder Kind.inExpression holds where
  enclosed {first last : Token} {inside : List Token} : first.kind = .punct .lparen →
    last.kind = .punct .rparen → holds inside → holds (first :: (inside ++ [last]))

namespace ClosedInExpressions

variable {α : Type} {holds : List Token → Prop} {tokens : List Token}

theorem parens (hclosed : ClosedInExpressions holds) {values : List α}
    (hitems : Bracketed .lparen .rparen (fun tokens _ => holds tokens) tokens values) :
    holds tokens := by
  cases hitems with
  | intro hfirst hbreaks hitems hlast =>
      rw [← List.append_assoc]
      exact hclosed.enclosed hfirst hlast
        (hclosed.append (hclosed.newlines hbreaks) (hclosed.commas hitems))

mutual
theorem assignment (hclosed : ClosedInExpressions holds) :
    ∀ {tokens value}, IsAssignment tokens value → holds tokens
  | _, _, .cast hcast => hclosed.cast hcast
  | _, _, .assign hleft hop hright =>
      hclosed.append (hclosed.cast hleft)
        (hclosed.append (hclosed.operator hop) (hclosed.assignment hright))

theorem cast (hclosed : ClosedInExpressions holds) :
    ∀ {tokens value}, IsCast tokens value → holds tokens
  | _, _, .level hlevel => hclosed.level hlevel
  | _, _, .cast hvalue has htype =>
      hclosed.append (hclosed.cast hvalue) (hclosed.cons (by rw [has]; rfl) (hclosed.type htype))

theorem level (hclosed : ClosedInExpressions holds) :
    ∀ {ladder tokens value}, IsLevel ladder tokens value → holds tokens
  | _, _, _, .unary hunary => hclosed.unary hunary
  | _, _, _, .tighter hlevel => hclosed.level hlevel
  | _, _, _, .binary hleft hop hright =>
      hclosed.append (hclosed.level hleft)
        (hclosed.append (hclosed.operator hop) (hclosed.level hright))

theorem unary (hclosed : ClosedInExpressions holds) :
    ∀ {tokens value}, IsUnary tokens value → holds tokens
  | _, _, .trailing htrailing => hclosed.trailing htrailing
  | _, _, .leading hop hvalue =>
      hclosed.cons (Kind.inExpression_of_leadingOf? hop) (hclosed.unary hvalue)

theorem trailing (hclosed : ClosedInExpressions holds) :
    ∀ {tokens value}, IsTrailing tokens value → holds tokens
  | _, _, .primary hprimary => hclosed.primary hprimary
  | _, _, @IsTrailing.trailing _ token _ _ hvalue hop => by
      refine hclosed.append (hclosed.trailing hvalue) (hclosed.token ?_)
      cases hkind : token.kind with
      | op operator => rfl
      | _ => simp [hkind, Ladder.trailingOf?] at hop

theorem primary (hclosed : ClosedInExpressions holds) :
    ∀ {tokens value}, IsPrimary tokens value → holds tokens
  | _, _, @IsPrimary.literal token _ hvalue => by
      refine hclosed.token ?_
      unfold Literal.ofToken? at hvalue
      split at hvalue
      case h_7 => cases hvalue
      all_goals simp only [*, Kind.inExpression]
  | _, _, .name hname => hclosed.name hname
  | _, _, .call hname htypes hargs _ =>
      hclosed.append (hclosed.name hname)
        (hclosed.append (hclosed.typeArguments htypes) (hclosed.arguments hargs))
  | _, _, .group hfirst hbreaks hvalue hlast => by
      rw [← List.append_assoc]
      exact hclosed.enclosed hfirst hlast
        (hclosed.append (hclosed.newlines hbreaks) (hclosed.assignment hvalue))

theorem arguments (hclosed : ClosedInExpressions holds) :
    ∀ {tokens arguments}, Optional .lparen .rparen IsAssignment tokens arguments → holds tokens
  | _, _, .none => hclosed.nil
  | _, _, .some (.intro hfirst hbreaks hitems hlast) =>
      hclosed.parens (.intro hfirst hbreaks (hclosed.assignments hitems) hlast)

theorem assignments (hclosed : ClosedInExpressions holds) :
    ∀ {tokens values}, Commas IsAssignment tokens values →
      Commas (fun tokens _ => holds tokens) tokens values
  | _, _, .nil => .nil
  | _, _, .last hitem => .last (hclosed.assignment hitem)
  | _, _, .cons hitem hcomma hbreaks hmore =>
      .cons (hclosed.assignment hitem) hcomma hbreaks (hclosed.assignments hmore)
end

end ClosedInExpressions

theorem closed_kinds : ClosedInExpressions fun tokens =>
    ∀ token ∈ tokens, token.kind.inExpression ∨ token.kind.isParen where
  nil := by simp
  append hfront hback := List.forall_mem_append.mpr ⟨hfront, hback⟩
  token hkind := by simpa using .inl hkind
  enclosed hfirst hlast hinside := by
    rw [List.forall_mem_cons, List.forall_mem_append]
    exact ⟨.inr (by rw [hfirst]; rfl), hinside, by simpa using .inr (by rw [hlast]; rfl)⟩

/-- The tokens of an expression. -/
theorem kinds_of_isAssignment {tokens : List Token} {value : Expr}
    (hvalue : IsAssignment tokens value) {token : Token} (htoken : token ∈ tokens) :
    token.kind.inExpression ∨ token.kind.isParen :=
  closed_kinds.assignment hvalue token htoken

namespace ClosedUnder

variable {holds : List Token → Prop} {scope : Scope} {tokens : List Token}
  (hclosed : ClosedUnder Kind.isPlain holds)

include hclosed

theorem modifiers {modifiers : List Modifier} (hmodifiers : IsModifiers tokens modifiers) :
    holds tokens := by
  induction hmodifiers with
  | nil => exact hclosed.nil
  | @cons token _ _ _ hmodifier _ ih =>
      refine hclosed.cons ?_ ih
      unfold Modifier.ofKind? at hmodifier
      split at hmodifier
      · simp only [*]; rfl
      · simp only [*]; rfl
      · cases hmodifier

theorem inExpressions : ClosedUnder Kind.inExpression holds :=
  hclosed.mono Kind.isPlain_of_inExpression

theorem binding {decl : VariableDecl} (hbinding : IsBinding scope tokens decl) : holds tokens := by
  cases hbinding with
  | intro hfront hname hmark hcolon htype _ _ =>
      refine hclosed.append (hclosed.modifiers hfront) (hclosed.cons (by rw [hname]; rfl) ?_)
      refine hclosed.append ?_
        (hclosed.cons (by rw [hcolon]; rfl) (hclosed.inExpressions.type htype))
      cases hmark with
      | none => exact hclosed.nil
      | «mut» hkind => exact hclosed.token (by rw [hkind]; rfl)

theorem identifier {name : String} (hname : IsIdentifier tokens name) : holds tokens := by
  cases hname with
  | intro hkind => exact hclosed.token (by rw [hkind]; rfl)

theorem names {names : Option (List String)}
    (hnames : Optional .lbracket .rbracket IsIdentifier tokens names) : holds tokens := by
  cases hnames with
  | none => exact hclosed.nil
  | some hitems =>
      cases hitems with
      | intro hfirst hbreaks hitems hlast =>
          have hholds := hitems.imp fun _ _ => hclosed.identifier
          exact hclosed.inExpressions.brackets (.intro hfirst hbreaks hholds hlast)

theorem returns {type : Ty} (hreturns : IsReturn tokens type) : holds tokens := by
  cases hreturns with
  | none => exact hclosed.nil
  | some hcolon htype =>
      exact hclosed.cons (by rw [hcolon]; rfl) (hclosed.inExpressions.type htype)

theorem ends {token : Token} (hends : Ends token) : holds [token] := by
  refine hclosed.token ?_
  rcases hends with hkind | hkind
  · rw [hkind]
    rfl
  · rw [hkind]
    rfl

end ClosedUnder

/-- A property of token lists that all programs have. -/
structure ClosedInPrograms (holds : List Token → Prop) : Prop
    extends ClosedUnder Kind.isPlain holds where
  enclosed {first last : Token} {inside : List Token} : first.kind = .punct .lparen →
    last.kind = .punct .rparen → holds inside → holds (first :: (inside ++ [last]))
  condition {keyword : Token} {tokens : List Token} : keyword.kind.takesCondition →
    Headed Kind.startsOperand tokens → holds tokens → holds (keyword :: tokens)

namespace ClosedInPrograms

variable {α : Type} {holds : List Token → Prop} {scope : Scope} {tokens : List Token}
  (hclosed : ClosedInPrograms holds)

include hclosed

theorem expressions : ClosedInExpressions holds :=
  { hclosed.inExpressions with enclosed := hclosed.enclosed }

theorem declaration {decl : VariableDecl} (hdecl : IsVariable scope tokens decl) :
    holds tokens := by
  cases hdecl with
  | bare hbinding => exact hclosed.binding hbinding
  | initial hbinding hequals hvalue =>
      exact hclosed.append (hclosed.binding hbinding)
        (hclosed.cons (by rw [hequals]; rfl) (hclosed.expressions.assignment hvalue))

theorem parameters {decls : List VariableDecl}
    (hparams : Bracketed .lparen .rparen (IsBinding .parameter) tokens decls) : holds tokens := by
  cases hparams with
  | intro hfirst hbreaks hitems hlast =>
      have hholds := hitems.imp fun _ _ => hclosed.binding
      exact hclosed.expressions.parens (.intro hfirst hbreaks hholds hlast)

theorem signature {signature : Signature} (hsignature : IsSignature scope tokens signature) :
    holds tokens := by
  cases hsignature with
  | intro hfront _ hkeyword hname hnames hparams hreturns =>
      refine hclosed.append (hclosed.modifiers hfront) (hclosed.cons (by rw [hkeyword]; rfl) ?_)
      refine hclosed.cons (by rw [hname]; rfl) (hclosed.append (hclosed.names hnames) ?_)
      exact hclosed.append (hclosed.parameters hparams) (hclosed.returns hreturns)

theorem items {values : List α} (hitems : Items (fun tokens _ => holds tokens) tokens values) :
    holds tokens := by
  induction hitems with
  | nil => exact hclosed.nil
  | blank hends _ ih => exact hclosed.append (hclosed.ends hends) ih
  | last hitem => exact hitem
  | cons hitem hends _ ih => exact hclosed.append hitem (hclosed.append (hclosed.ends hends) ih)

/-- A body in braces, with what stands before it. -/
theorem braces {front body : List Token} {first last : Token}
    (hfront : holds front) (hfirst : first.kind = .punct .lbrace) (hbody : holds body)
    (hlast : last.kind = .punct .rbrace) : holds (front ++ first :: (body ++ [last])) := by
  refine hclosed.append hfront (hclosed.cons (by rw [hfirst]; rfl) ?_)
  exact hclosed.append hbody (hclosed.token (by rw [hlast]; rfl))

/-- A condition with its keyword, and what stands behind it. -/
theorem conditional {keyword : Token} {condition : Expr} {more : List Token}
    (hkeyword : keyword.kind.takesCondition) (hcondition : IsAssignment tokens condition)
    (hmore : holds more) : holds (keyword :: (tokens ++ more)) :=
  hclosed.append (hclosed.condition hkeyword (Ladder.headed_of_isAssignment hcondition)
    (hclosed.expressions.assignment hcondition)) hmore

omit hclosed

mutual
theorem stmt (hclosed : ClosedInPrograms holds) :
    ∀ {scope tokens stmt}, IsStmt scope tokens stmt → holds tokens
  | _, _, _, .expr hvalue => hclosed.expressions.assignment hvalue
  | _, _, _, .variable hdecl => hclosed.declaration hdecl
  | _, _, _, .typeAlias hkeyword htype has hname =>
      hclosed.cons (by rw [hkeyword]; rfl) (hclosed.append (hclosed.inExpressions.type htype)
        (hclosed.cons (by rw [has]; rfl) (hclosed.token (by rw [hname]; rfl))))
  | _, _, _, .record hfront _ hkeyword htype hbreaks hfirst hmembers hlast => by
      refine hclosed.append (hclosed.modifiers hfront) (hclosed.cons (by rw [hkeyword]; rfl) ?_)
      refine hclosed.append (hclosed.inExpressions.type htype) ?_
      exact hclosed.braces (hclosed.inExpressions.newlines hbreaks) hfirst
        (hclosed.items (hclosed.members hmembers)) hlast
  | _, _, _, .branch hbranch => hclosed.branch hbranch
  | _, _, _, .loop hkeyword hcondition hbody =>
      hclosed.conditional (by rw [hkeyword]; rfl) hcondition (hclosed.block hbody)
  | _, _, _, .defer hkeyword hbody =>
      hclosed.cons (by rw [hkeyword]; rfl) (hclosed.block hbody)
  | _, _, _, .break hkeyword => hclosed.token (by rw [hkeyword]; rfl)
  | _, _, _, .continue hkeyword => hclosed.token (by rw [hkeyword]; rfl)
  | _, _, _, .function hdecl => hclosed.function hdecl

theorem function (hclosed : ClosedInPrograms holds) :
    ∀ {scope tokens decl}, IsFunction scope tokens decl → holds tokens
  | _, _, _, .intro hsignature hbody =>
      hclosed.append (hclosed.signature hsignature) (hclosed.block hbody)

theorem member (hclosed : ClosedInPrograms holds) :
    ∀ {tokens member}, IsMember tokens member → holds tokens
  | _, _, .field hdecl => hclosed.declaration hdecl
  | _, _, .method hdecl => hclosed.function hdecl

theorem branch (hclosed : ClosedInPrograms holds) :
    ∀ {tokens stmt}, IsBranch tokens stmt → holds tokens
  | _, _, .alone hkeyword hcondition hbody =>
      hclosed.conditional (by rw [hkeyword]; rfl) hcondition (hclosed.block hbody)
  | _, _, .otherwise hkeyword hcondition hbody hbreaks hlast hother => by
      refine hclosed.conditional (by rw [hkeyword]; rfl) hcondition ?_
      refine hclosed.append (hclosed.block hbody) ?_
      refine hclosed.append (hclosed.inExpressions.newlines hbreaks) ?_
      exact hclosed.cons (by rw [hlast]; rfl) (hclosed.otherwise hother)

theorem otherwise (hclosed : ClosedInPrograms holds) :
    ∀ {tokens stmts}, IsOtherwise tokens stmts → holds tokens
  | _, _, .block hblock => hclosed.block hblock
  | _, _, .branch hbranch => hclosed.branch hbranch

theorem block (hclosed : ClosedInPrograms holds) :
    ∀ {tokens stmts}, IsBlock tokens stmts → holds tokens
  | _, _, .intro hbreaks hfirst hbody hlast =>
      hclosed.braces (hclosed.inExpressions.newlines hbreaks) hfirst
        (hclosed.items (hclosed.stmts hbody)) hlast

theorem stmts (hclosed : ClosedInPrograms holds) :
    ∀ {tokens stmts}, Items (IsStmt .block) tokens stmts →
      Items (fun tokens _ => holds tokens) tokens stmts
  | _, _, .nil => .nil
  | _, _, .blank hends hitems => .blank hends (hclosed.stmts hitems)
  | _, _, .last hitem => .last (hclosed.stmt hitem)
  | _, _, .cons hitem hends hmore => .cons (hclosed.stmt hitem) hends (hclosed.stmts hmore)

theorem members (hclosed : ClosedInPrograms holds) :
    ∀ {tokens members}, Items IsMember tokens members →
      Items (fun tokens _ => holds tokens) tokens members
  | _, _, .nil => .nil
  | _, _, .blank hends hitems => .blank hends (hclosed.members hitems)
  | _, _, .last hitem => .last (hclosed.member hitem)
  | _, _, .cons hitem hends hmore => .cons (hclosed.member hitem) hends (hclosed.members hmore)
end

theorem module (hclosed : ClosedInPrograms holds) {program : Module}
    (hmodule : IsModule tokens program) : holds tokens := by
  cases hmodule with
  | header hbreaks hkeyword hname =>
      refine hclosed.append (hclosed.inExpressions.newlines hbreaks) ?_
      exact hclosed.cons (by rw [hkeyword]; rfl) (hclosed.token (by rw [hname]; rfl))
  | body hbreaks hkeyword hname hlast hstmts =>
      refine hclosed.append (hclosed.inExpressions.newlines hbreaks) ?_
      refine hclosed.cons (by rw [hkeyword]; rfl) (hclosed.cons (by rw [hname]; rfl) ?_)
      have hholds := hstmts.imp fun _ _ => hclosed.stmt
      exact hclosed.append (hclosed.ends hlast) (hclosed.items hholds)

end ClosedInPrograms
end Grammar
end KCompiler
