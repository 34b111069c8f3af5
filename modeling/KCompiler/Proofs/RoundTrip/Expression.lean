import KCompiler.Proofs.EndOfInput
import KCompiler.Proofs.Ladder.Operators
import KCompiler.Proofs.RoundTrip.Basic
import KCompiler.Proofs.WellFormed

/-! # Printed types and expressions

A printed expression is a name, a literal, a call or a group, so that it is read back as an
operand: the operators around it cannot take it apart.
-/

namespace KCompiler

open Outcome

section Types

variable {eof token : Token} {base : Ty} {tokens rest left : List Token}

theorem Kind.exists_of_isBuiltin {kind : Kind} (hkind : kind.isBuiltin) :
    ∃ type, kind = .builtin type := by
  cases kind with
  | builtin type => exact ⟨type, rfl⟩
  | _ => cases hkind

theorem Ty.begins_words : (type : Ty) → Begins Kind.startsItem type.words
  | .builtin name => by
      refine ⟨_, _, rfl, ?_⟩
      rintro token ⟨hkind, -⟩
      obtain ⟨type, hkind⟩ := Kind.exists_of_isBuiltin hkind
      rw [hkind]
      rfl
  | .named name => by
      refine ⟨_, _, rfl, ?_⟩
      rintro token ⟨hkind, -⟩
      simp [hkind, Kind.startsItem, Kind.isBoundary]
  | .generic base args => base.begins_words.append _

/-- A type that is applied to nothing is one token. -/
theorem Ty.ofToken?_of_spells (hbase : base.isGeneric = false)
    (htokens : Spells tokens base.words) :
    ∃ token, tokens = [token] ∧ Ty.ofToken? token = some base := by
  cases base with
  | builtin name =>
      obtain ⟨token, rfl, hkind, -, htext⟩ := spells_singleton.mp htokens
      obtain ⟨type, hkind⟩ := Kind.exists_of_isBuiltin hkind
      exact ⟨token, rfl, by simp [Ty.ofToken?, hkind, htext]⟩
  | named name =>
      obtain ⟨token, rfl, hkind, htext⟩ := spells_singleton.mp htokens
      exact ⟨token, rfl, by simp [Ty.ofToken?, hkind, htext]⟩
  | generic base args => simp [Ty.isGeneric] at hbase

theorem typeExpr_yields {args : Option (List Ty)} (htoken : Ty.ofToken? token = some base)
    (hargs : (delimited eof (.punct .lbracket) (.punct .rbracket) rest fun inner _ =>
      typeExpr eof inner).Yields args left []) :
    (typeExpr eof (token :: rest)).Yields (base.apply args) left [] := by
  rw [typeExpr_cons]
  simp only [htoken]
  exact (hargs.map _).behind token

/-- Type arguments in brackets are read back whatever stands behind them. -/
theorem typeArguments_yields {types : List Ty}
    (htypes : ∀ type ∈ types, Restores (typeExpr eof) Kind.endsType type.words type [])
    (htokens : Spells tokens (bracketWords .lbracket .rbracket (Ty.wordLists types))) :
    (typeArguments eof (tokens ++ rest)).Yields (some types) rest [] := by
  rw [Ty.wordLists_eq_map] at htokens
  rw [typeArguments_def]
  refine delimited_yields .rbracket (fun type _ => type.begins_words) ?_ htokens
  intro type hmem
  refine (htypes type hmem).mono fun kind hkind => ?_
  exact Kind.endsType_of_endsExpression _ (Kind.endsExpression_of_endsItem .rbracket kind hkind)

mutual
theorem typeExpr_restores (eof : Token) :
    (type : Ty) → type.WellFormed → Restores (typeExpr eof) Kind.endsType type.words type []
  | .builtin name, _ | .named name, _ => by
      intro tokens last rest htokens hlast
      obtain ⟨token, rfl, htoken⟩ := Ty.ofToken?_of_spells rfl htokens
      exact typeExpr_yields htoken (delimited_yields_none (by simpa [Kind.endsType] using hlast))
  | .generic base args, hwell => by
      intro tokens last rest htokens hlast
      obtain ⟨front, back, rfl, hfront, hback⟩ := spells_append.mp htokens
      obtain ⟨token, rfl, htoken⟩ := Ty.ofToken?_of_spells hwell.1 hfront
      have hargs : (typeArguments eof (back ++ last :: rest)).Yields (some args)
          (last :: rest) [] := typeArguments_yields (typeExprs_restore eof args hwell.2) hback
      rw [typeArguments_def] at hargs
      exact typeExpr_yields htoken hargs

theorem typeExprs_restore (eof : Token) :
    (types : List Ty) → Ty.AllWellFormed types → ∀ type ∈ types,
      Restores (typeExpr eof) Kind.endsType type.words type []
  | [], _ => by simp
  | type :: types, hwell => by
      rw [List.forall_mem_cons]
      exact ⟨typeExpr_restores eof type hwell.1, typeExprs_restore eof types hwell.2⟩
end

end Types

/-- Kinds that begin a printed expression. -/
def Kind.startsExpression : Kind → Bool
  | .identifier | .integer | .float | .string | .char | .keyword .true | .keyword .false
  | .punct .lparen => true
  | _ => false

/-- Kinds that end an expression in parentheses. -/
def Kind.closesGroup (kind : Kind) : Bool :=
  kind = .punct .rparen

section Expressions

variable {eof token : Token} {tokens rest left : List Token} {expr : Expr} {words : List Word}

theorem Begins.weaken {starts weaker : Kind → Bool} (hbegins : Begins starts words)
    (hweaker : ∀ kind, starts kind → weaker kind) : Begins weaker words := by
  obtain ⟨word, more, rfl, hword⟩ := hbegins
  exact ⟨word, more, rfl, fun token hspelt => hweaker _ (hword token hspelt)⟩

theorem Kind.startsStatement_of_startsExpression (kind : Kind) (hkind : kind.startsExpression) :
    kind.startsStatement := by
  unfold Kind.startsExpression at hkind
  split at hkind
  case h_9 => cases hkind
  all_goals rfl

theorem Kind.startsItem_of_startsExpression (kind : Kind) (hkind : kind.startsExpression) :
    kind.startsItem :=
  startsItem_of_startsStatement kind (startsStatement_of_startsExpression kind hkind)

theorem Literal.startsExpression_of_ofToken? {value : Literal} {findings : List Finding}
    (hvalue : Literal.ofToken? token = some (value, findings)) : token.kind.startsExpression := by
  unfold Literal.ofToken? at hvalue
  split at hvalue
  case h_7 => cases hvalue
  all_goals simp [*, Kind.startsExpression]

theorem Expr.begins_words : (expr : Expr) → Begins Kind.startsExpression expr.words
  | .ident name => by
      refine ⟨_, _, rfl, ?_⟩
      rintro token ⟨hkind, -⟩
      simp [hkind, Kind.startsExpression]
  | .literal value => ⟨_, _, rfl, fun token => Literal.startsExpression_of_ofToken?⟩
  | .binary _ _ _ | .unary _ .before _ | .unary _ .behind _ | .cast _ _ => by
      refine ⟨_, _, rfl, ?_⟩
      intro token hkind
      simp [Word.spelt_punct.mp hkind, Kind.startsExpression]
  | .call callee _ _ => callee.begins_words.append _

theorem operators_yields (least most : Nat) (hkind : token.kind.endsExpression) :
    (operators eof least most expr (token :: rest)).Yields expr (token :: rest) [] := by
  have hnone : Continuation.ofKind? token.kind = none := by
    simpa using (Bool.and_eq_true_iff.mp hkind).2
  rw [operators_of_none hnone]
  exact yields_done expr

theorem expression_restores_of_operand (least : Nat)
    (hoperand : Restores (operand eof) Kind.endsOperand words expr []) :
    Restores (expression eof least) Kind.endsExpression words expr [] := by
  intro tokens last rest htokens hlast
  rw [expression_def]
  have hends : last.kind.endsOperand := (Bool.and_eq_true_iff.mp hlast).1
  exact (hoperand last rest htokens hends).andThen fun _ => operators_yields _ _ hlast

/-- An expression in parentheses is read back whatever stands behind it. -/
theorem group_yields (hbegins : Begins Kind.startsItem words)
    (hinside : Restores (expression eof 0) Kind.closesGroup words expr [])
    (htokens : Spells tokens (groupWords words)) (rest : List Token) :
    (operand eof (tokens ++ rest)).Yields expr rest [] := by
  obtain ⟨first, _, rfl, hfirst, htokens⟩ := spells_cons.mp htokens
  obtain ⟨inside, _, rfl, hwords, hclose⟩ := spells_append.mp htokens
  obtain ⟨close, rfl, hrparen⟩ := spells_singleton.mp hclose
  rw [Word.spelt_punct] at hfirst hrparen
  have hopening : Opening.ofToken? first = some .group := by simp [Opening.ofToken?, hfirst]
  rw [List.cons_append, List.append_assoc, operand_cons]
  simp only [hopening]
  refine Yields.behind (Yields.within ?_ _) first
  rw [hbegins.skipNewlines_append hwords]
  have hyields := hinside close rest hwords (by simp [Kind.closesGroup, hrparen])
  refine hyields.andThen fun hlength => ?_
  rw [expecting_of_kind hrparen]
  exact (yields_done _).behind close

theorem Kind.endsExpression_of_closesGroup (kind : Kind) (hkind : kind.closesGroup) :
    kind.endsExpression := by
  obtain rfl : kind = .punct .rparen := by simpa [Kind.closesGroup] using hkind
  rfl

theorem Continuation.ofKind?_binary (op : BinaryOp) :
    Continuation.ofKind? (.op op.operator) = some (.binary op) := by
  cases op <;> rfl

theorem Continuation.ofKind?_trailing {op : UnaryOp} (hop : op.standsOn .behind) :
    Continuation.ofKind? (.op op.operator) = some (.trailing op) := by
  obtain rfl | rfl : op = .inc ∨ op = .dec := by simpa [UnaryOp.standsOn] using hop
  · rfl
  · rfl

theorem Opening.ofToken?_leading {op : UnaryOp} (hkind : token.kind = .op op.operator) :
    Opening.ofToken? token = some (.leading op) := by
  rw [Opening.ofToken?, hkind]
  cases op <;> rfl

theorem Opening.ofToken?_name (hkind : token.kind = .identifier) :
    Opening.ofToken? token = some (.name token.text) := by
  rw [Opening.ofToken?, hkind]

theorem Opening.ofToken?_literal {value : Literal} {findings : List Finding}
    (hvalue : Literal.ofToken? token = some (value, findings)) :
    Opening.ofToken? token = some (.literal value findings) := by
  unfold Opening.ofToken?
  split
  case h_5 => simp [hvalue]
  all_goals simp [*, Literal.ofToken?] at hvalue

theorem BinaryOp.powers_le (op : BinaryOp) : op.powers.1 ≤ unboundedPower := by
  cases op <;> decide

/-- A binary operator between two operands. -/
theorem binary_restores {op : BinaryOp} {lhs rhs : Expr} {first second : List Word}
    (hlhs : Restores (operand eof) Kind.endsOperand first lhs [])
    (hrhs : Restores (operand eof) Kind.endsOperand second rhs []) :
    Restores (expression eof 0) Kind.closesGroup (first ++ .op op.operator :: second)
      (.binary op lhs rhs) [] := by
  intro tokens last rest htokens hlast
  have hends := Kind.endsExpression_of_closesGroup _ hlast
  obtain ⟨front, _, rfl, hfront, hback⟩ := spells_append.mp htokens
  obtain ⟨operator, back, rfl, hkind, hback⟩ := spells_cons.mp hback
  rw [Word.spelt_op] at hkind
  have hop : Continuation.ofKind? operator.kind = some (.binary op) := by
    rw [hkind, Continuation.ofKind?_binary]
  rw [List.append_assoc, List.cons_append, expression_def]
  refine (hlhs operator _ hfront (by simp [hkind, Kind.endsOperand])).andThen fun _ => ?_
  -- The group begins without bounds, so that every operator may follow.
  rw [operators_of_binary hop, if_pos ⟨Nat.zero_le _, op.powers_le⟩]
  have hsecond := expression_restores_of_operand op.powers.2 hrhs last rest hback hends
  exact (hsecond.andThen fun _ => operators_yields _ _ hends).behind operator

/-- A unary operator before an operand. -/
theorem leading_restores {op : UnaryOp}
    (hoperand : Restores (operand eof) Kind.endsOperand words expr []) :
    Restores (expression eof 0) Kind.closesGroup (.op op.operator :: words)
      (.unary op .before expr) [] := by
  intro tokens last rest htokens hlast
  have hends := Kind.endsExpression_of_closesGroup _ hlast
  obtain ⟨operator, back, rfl, hkind, hback⟩ := spells_cons.mp htokens
  rw [Word.spelt_op] at hkind
  have hinside := expression_restores_of_operand leadingPower hoperand last rest hback hends
  have hunary : (operand eof (operator :: (back ++ last :: rest))).Yields (.unary op .before expr)
      (last :: rest) [] := by
    rw [operand_cons]
    simp only [Opening.ofToken?_leading hkind]
    exact (hinside.map _).behind operator
  rw [List.cons_append, expression_def]
  exact hunary.andThen fun _ => operators_yields _ _ hends

/-- A unary operator behind an operand. -/
theorem trailing_restores {op : UnaryOp} (hop : op.standsOn .behind)
    (hoperand : Restores (operand eof) Kind.endsOperand words expr []) :
    Restores (expression eof 0) Kind.closesGroup (words ++ [.op op.operator])
      (.unary op .behind expr) [] := by
  intro tokens last rest htokens hlast
  have hends := Kind.endsExpression_of_closesGroup _ hlast
  obtain ⟨front, _, rfl, hfront, hback⟩ := spells_append.mp htokens
  obtain ⟨operator, rfl, hkind⟩ := spells_singleton.mp hback
  rw [Word.spelt_op] at hkind
  have htrailing : Continuation.ofKind? operator.kind = some (.trailing op) := by
    rw [hkind, Continuation.ofKind?_trailing hop]
  rw [List.append_assoc, expression_def]
  refine (hoperand operator _ hfront (by simp [hkind, Kind.endsOperand])).andThen fun _ => ?_
  rw [operators_of_trailing htrailing, if_pos (by decide)]
  exact (operators_yields _ _ hends).behind operator

/-- A cast of an operand. -/
theorem cast_restores {target : Ty} (htarget : target.WellFormed)
    (hoperand : Restores (operand eof) Kind.endsOperand words expr []) :
    Restores (expression eof 0) Kind.closesGroup (words ++ .keyword .as :: target.words)
      (.cast expr target) [] := by
  intro tokens last rest htokens hlast
  have hends := Kind.endsExpression_of_closesGroup _ hlast
  obtain ⟨front, _, rfl, hfront, hback⟩ := spells_append.mp htokens
  obtain ⟨keyword, back, rfl, hkind, hback⟩ := spells_cons.mp hback
  rw [Word.spelt_keyword] at hkind
  have hcast : Continuation.ofKind? keyword.kind = some .cast := by rw [hkind]; rfl
  rw [List.append_assoc, List.cons_append, expression_def]
  refine (hoperand keyword _ hfront (by simp [hkind, Kind.endsOperand])).andThen fun _ => ?_
  rw [operators_of_cast hcast, if_pos (by decide)]
  have htype := typeExpr_restores eof target htarget last rest hback
    (Kind.endsType_of_endsExpression _ hends)
  exact (htype.andThen fun _ => operators_yields _ _ hends).behind keyword

/-- Arguments in parentheses are read back whatever stands behind them. -/
theorem arguments_yields {args : List Expr}
    (hargs : ∀ arg ∈ args, Restores (operand eof) Kind.endsOperand arg.words arg [])
    (htokens : Spells tokens (bracketWords .lparen .rparen (Expr.wordLists args)))
    (rest : List Token) :
    (delimited eof (.punct .lparen) (.punct .rparen) (tokens ++ rest) fun inner _ =>
      expression eof 0 inner).Yields (some args) rest [] := by
  rw [Expr.wordLists_eq_map] at htokens
  refine delimited_yields .rparen ?_ ?_ htokens
  · exact fun arg _ => arg.begins_words.weaken Kind.startsItem_of_startsExpression
  · exact fun arg hmem => (expression_restores_of_operand 0 (hargs arg hmem)).mono
      (Kind.endsExpression_of_endsItem .rparen)

/-- A name that no arguments follow. -/
theorem operand_yields_name (hkind : token.kind = .identifier)
    (hrest : ∀ last ∈ rest.head?, last.kind.endsOperand) :
    (operand eof (token :: rest)).Yields (.ident token.text) rest [] := by
  rw [operand_cons]
  simp only [Opening.ofToken?_name hkind, typeArguments_def]
  cases rest with
  | nil => exact ⟨rfl, rfl, rfl⟩
  | cons last rest =>
      have hends : last.kind ≠ .punct .lbracket ∧ last.kind ≠ .punct .lparen := by
        simpa [Kind.endsOperand] using hrest last rfl
      refine Yields.behind (Yields.andThen (delimited_yields_none hends.1) fun _ => ?_) token
      exact (delimited_yields_none hends.2).map _

theorem restores_of_yields {α : Type} {parse : (input : List Token) → Outcome input α}
    {ends : Kind → Bool} {value : α}
    (hyields : ∀ tokens rest, Spells tokens words → (∀ last ∈ rest.head?, ends last.kind) →
      (parse (tokens ++ rest)).Yields value rest []) : Restores parse ends words value [] := by
  intro tokens last rest htokens hlast
  exact hyields tokens (last :: rest) htokens (by simpa using hlast)

mutual
/-- A printed expression is read back as an operand, so that operators and brackets around it
do not matter. It may stand at the end of the input, too. -/
theorem operand_yields (eof : Token) :
    (expr : Expr) → expr.WellFormed → ∀ tokens rest, Spells tokens expr.words →
      (∀ last ∈ rest.head?, last.kind.endsOperand) →
        (operand eof (tokens ++ rest)).Yields expr rest []
  | .ident name, _ => by
      intro tokens rest htokens hrest
      obtain ⟨token, rfl, ⟨hkind, rfl⟩⟩ := spells_singleton.mp htokens
      exact operand_yields_name hkind hrest
  | .literal value, _ => by
      intro tokens rest htokens _
      obtain ⟨token, rfl, hvalue⟩ := spells_singleton.mp htokens
      rw [List.cons_append, List.nil_append, operand_cons]
      simp only [Opening.ofToken?_literal hvalue]
      exact ((yields_done _).reporting []).behind token
  | .binary op lhs rhs, hwell => by
      have hlhs := restores_of_yields (operand_yields eof lhs hwell.1)
      have hrhs := restores_of_yields (operand_yields eof rhs hwell.2)
      intro tokens rest htokens _
      exact group_yields ((lhs.begins_words.weaken Kind.startsItem_of_startsExpression).append _)
        (binary_restores hlhs hrhs) htokens rest
  | .unary op .before operand, hwell => by
      have hoperand := restores_of_yields (operand_yields eof operand hwell.2)
      intro tokens rest htokens _
      exact group_yields ⟨_, _, rfl, by simp +contextual [Kind.startsItem, Kind.isBoundary]⟩
        (leading_restores hoperand) htokens rest
  | .unary op .behind operand, hwell => by
      have hoperand := restores_of_yields (operand_yields eof operand hwell.2)
      intro tokens rest htokens _
      exact group_yields
        ((operand.begins_words.weaken Kind.startsItem_of_startsExpression).append _)
        (trailing_restores hwell.1 hoperand) htokens rest
  | .cast operand target, hwell => by
      have hoperand := restores_of_yields (operand_yields eof operand hwell.1)
      intro tokens rest htokens _
      exact group_yields
        ((operand.begins_words.weaken Kind.startsItem_of_startsExpression).append _)
        (cast_restores hwell.2 hoperand) htokens rest
  | .call (.ident name) typeArgs args, hwell => by
      intro tokens rest htokens _
      obtain ⟨_, _, rfl, hname, hlists⟩ := spells_append.mp htokens
      obtain ⟨token, rfl, ⟨hkind, rfl⟩⟩ := spells_singleton.mp hname
      obtain ⟨types, values, rfl, htypes, hvalues⟩ := spells_append.mp hlists
      have htypeArgs : (typeArguments eof (types ++ (values ++ rest))).Yields
          (some typeArgs) (values ++ rest) [] :=
        typeArguments_yields (typeExprs_restore eof typeArgs hwell.2.1) htypes
      have hargs := arguments_yields (operands_restore eof args hwell.2.2) hvalues rest
      rw [List.append_assoc, List.append_assoc, List.cons_append, List.nil_append, operand_cons]
      simp only [Opening.ofToken?_name hkind]
      exact (htypeArgs.andThen fun _ => hargs.map _).behind token

theorem operands_restore (eof : Token) :
    (exprs : List Expr) → Expr.AllWellFormed exprs → ∀ expr ∈ exprs,
      Restores (operand eof) Kind.endsOperand expr.words expr []
  | [], _ => by simp
  | expr :: exprs, hwell => by
      rw [List.forall_mem_cons]
      exact ⟨restores_of_yields (operand_yields eof expr hwell.1),
        operands_restore eof exprs hwell.2⟩
end

theorem operand_restores (eof : Token) (expr : Expr) (hwell : expr.WellFormed) :
    Restores (operand eof) Kind.endsOperand expr.words expr [] :=
  restores_of_yields (operand_yields eof expr hwell)

/-- A printed expression that stands alone is parsed to itself without a finding. -/
theorem parseExpression_printed (hwell : expr.WellFormed) (htokens : Spells tokens expr.words)
    (heof : eof.kind = .eof) : parseExpression (tokens ++ [eof]) = ⟨expr, []⟩ := by
  have hskip : skipNewlines tokens = tokens := by
    have hbegins := expr.begins_words.weaken Kind.startsItem_of_startsExpression
    simpa using @Begins.skipNewlines_append tokens [] _ hbegins htokens
  have hyields : (expression eof 0 tokens).Yields expr [] [] := by
    have hoperand := operand_yields eof expr hwell tokens [] htokens (by simp)
    rw [List.append_nil] at hoperand
    rw [expression_def]
    refine hoperand.andThen fun _ => ?_
    rw [operators_nil]
    exact yields_done expr
  rw [parseExpression_eq (splitInput_append htokens.kind_ne_eof heof), readExpression_def, hskip,
    hyields.value_eq, hyields.rest_eq, List.map_eq_nil_iff.mp hyields.issues_eq]
  rfl

end Expressions

end KCompiler
