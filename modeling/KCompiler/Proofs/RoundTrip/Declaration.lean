import KCompiler.Proofs.RoundTrip.Expression

/-! # Printed declarations

The modifiers of a declaration are read first, and what comes behind them is read back by the
parser of its kind of declaration.
-/

namespace KCompiler

open Outcome

section Declarations

variable {eof : Token} {tokens rest : List Token}

theorem expression_restores (eof : Token) (least : Nat) {expr : Expr} (hwell : expr.WellFormed) :
    Restores (expression eof least) Kind.endsExpression expr.words expr [] :=
  expression_restores_of_operand least (operand_restores eof expr hwell)

theorem Modifier.ofKind?_of_spelt {token : Token} {modifier : Modifier}
    (hspelt : modifier.word.Spelt token) : Modifier.ofKind? token.kind = some modifier := by
  cases modifier <;> rw [Word.spelt_keyword.mp hspelt] <;> rfl

/-- Kinds that are no modifiers. -/
def Kind.endsModifiers (kind : Kind) : Bool :=
  (Modifier.ofKind? kind).isNone

theorem Kind.endsModifiers_of_startsExpression (kind : Kind) (hkind : kind.startsExpression) :
    kind.endsModifiers := by
  unfold Kind.startsExpression at hkind
  split at hkind
  case h_9 => cases hkind
  all_goals rfl

theorem modifierList_restores {before modifiers : Modifiers} {added : List Modifier}
    (hmodifiers : modifiers.toList = before.toList ++ added) :
    Restores (modifierList before) Kind.endsModifiers (added.map Modifier.word) modifiers [] := by
  intro tokens last rest htokens hlast
  induction added generalizing before tokens with
  | nil =>
      obtain rfl := spells_nil.mp htokens
      obtain rfl : modifiers = before := by
        cases modifiers
        cases before
        simpa using hmodifiers
      have hnone : Modifier.ofKind? last.kind = none := by simpa [Kind.endsModifiers] using hlast
      rw [List.nil_append, modifierList, hnone]
      exact yields_done modifiers
  | cons modifier added ih =>
      obtain ⟨token, more, rfl, hspelt, hmore⟩ := spells_cons.mp htokens
      -- The modifiers of a tree are distinct, so that this one has not been read before.
      have habsent : before.contains modifier = false := by
        have hnodup := modifiers.nodup
        rw [hmodifiers, List.nodup_append] at hnodup
        simpa [Modifiers.contains] using fun hmem =>
          hnodup.2.2 modifier hmem modifier List.mem_cons_self rfl
      rw [List.cons_append, modifierList, Modifier.ofKind?_of_spelt hspelt]
      have hinserted : modifiers.toList = (before.insert modifier).toList ++ added := by
        rw [Modifiers.toList_insert habsent, hmodifiers]
        simp
      simp only [repetition_of_absent habsent]
      exact ((ih hinserted hmore).reporting []).behind token

/-- The modifiers of a declaration are read up to its first other word. -/
theorem modifierList_yields {modifiers : Modifiers} {words : List Word} {front back : List Token}
    (hbegins : Begins Kind.endsModifiers words) (hfront : Spells front modifiers.words)
    (hback : Spells back words) :
    (modifierList .empty (front ++ (back ++ rest))).Yields modifiers (back ++ rest) [] := by
  obtain ⟨token, more, rfl, hkind⟩ := hbegins.exists_cons hback
  exact modifierList_restores rfl token (more ++ rest) hfront hkind

/-- A name with its type; the modifiers have been read before. -/
theorem binding_restores (eof : Token) {decl : VariableDecl} {scope : Scope}
    (hwell : decl.WellFormed scope) (start : Span) :
    Restores (binding eof scope decl.modifiers start) Kind.endsType decl.bindingWords
      { decl with init := none } [] := by
  intro tokens last rest htokens hlast
  obtain ⟨name, _, rfl, ⟨hname, hdecl⟩, htokens⟩ := spells_cons.mp htokens
  obtain ⟨colon, type, rfl, hcolon, htype⟩ := spells_cons.mp htokens
  rw [Word.spelt_punct] at hcolon
  rw [binding_def]
  rw [List.cons_append, expecting_of_kind hname]
  apply Yields.behind
  -- A `mut` is printed with the other modifiers, never behind the name.
  have hmark : (trailingMut decl.modifiers (colon :: (type ++ last :: rest))).Yields decl.modifiers
      (colon :: (type ++ last :: rest)) [] := by
    rw [trailingMut, if_neg (by simp [hcolon])]
    exact yields_done _
  refine hmark.andThen fun _ => ?_
  rw [expecting_of_kind hcolon]
  apply Yields.behind
  refine (typeExpr_restores eof decl.type hwell.type last rest htype hlast).andThen fun _ => ?_
  rw [refusals_of_allowed hwell.allowed, Modifiers.allowed_of_allowed hwell.allowed, hdecl,
    ← hwell.scope_eq]
  exact (yields_done _).reporting []

theorem VariableDecl.begins_bindingWords (decl : VariableDecl) :
    Begins Kind.endsModifiers decl.bindingWords := by
  refine ⟨_, _, rfl, ?_⟩
  rintro token ⟨hkind, -⟩
  simp [hkind, Kind.endsModifiers, Modifier.ofKind?]

theorem parameter_restores (eof : Token) {param : VariableDecl}
    (hwell : param.WellFormed .parameter) (hinit : param.init = none) :
    Restores (parameter eof) Kind.endsType param.parameterWords param [] := by
  intro tokens last rest htokens hlast
  obtain ⟨front, back, rfl, hfront, hback⟩ := spells_append.mp htokens
  rw [List.append_assoc, parameter_def]
  refine (modifierList_yields param.begins_bindingWords hfront hback).andThen fun _ => ?_
  have hbinding := fun start => binding_restores eof hwell start last rest hback hlast
  simp only [← hinit] at hbinding
  exact hbinding _

theorem initialValue_restores (eof : Token) {init : Option Expr}
    (hwell : ∀ value ∈ init, value.WellFormed) :
    Restores (initialValue eof) Kind.endsExpression (initialWords init) init [] := by
  intro tokens last rest htokens hlast
  cases init with
  | none =>
      obtain rfl := spells_nil.mp htokens
      have hequals : last.kind ≠ .op .assign := by
        intro hkind
        simp [hkind, Kind.endsExpression, Continuation.ofKind?, UnaryOp.trailing?,
          BinaryOp.ofOperator?] at hlast
      rw [List.nil_append, initialValue_cons, if_neg hequals]
      exact yields_done none
  | some value =>
      obtain ⟨equals, tokens, rfl, hequals, htokens⟩ := spells_cons.mp htokens
      rw [List.cons_append, initialValue_cons, if_pos (Word.spelt_op.mp hequals)]
      have hvalue := expression_restores eof 0 (hwell value rfl) last rest htokens hlast
      exact (hvalue.map some).behind equals

/-- What stands behind the type of a declaration ends it, with or without an initial value. -/
theorem exists_endsType {init : Option Expr} {last : Token}
    (htokens : Spells tokens (initialWords init)) (hlast : last.kind.endsExpression)
    (rest : List Token) :
    ∃ token more, tokens ++ last :: rest = token :: more ∧ token.kind.endsType := by
  cases init with
  | none =>
      obtain rfl := spells_nil.mp htokens
      exact ⟨last, rest, rfl, Kind.endsType_of_endsExpression _ hlast⟩
  | some value =>
      obtain ⟨equals, tokens, rfl, hequals, -⟩ := spells_cons.mp htokens
      refine ⟨equals, tokens ++ last :: rest, rfl, ?_⟩
      rw [Word.spelt_op.mp hequals]
      rfl

/-- The declaration of a variable or a field; the modifiers have been read before. -/
theorem variableDecl_restores (eof : Token) {decl : VariableDecl} {scope : Scope}
    (hwell : decl.WellFormed scope) (start : Span) :
    Restores (variableDecl eof scope decl.modifiers start) Kind.endsExpression
      (decl.bindingWords ++ initialWords decl.init) decl [] := by
  intro tokens last rest htokens hlast
  obtain ⟨front, back, rfl, hfront, hback⟩ := spells_append.mp htokens
  obtain ⟨token, more, hmore, hends⟩ := exists_endsType hback hlast rest
  have hbinding := binding_restores eof hwell start token more hfront hends
  have hinit := initialValue_restores eof hwell.init last rest hback hlast
  rw [← hmore] at hbinding
  rw [List.append_assoc, variableDecl_def]
  exact hbinding.andThen fun _ => hinit.map _

theorem name_restores (ends : Kind → Bool) (name : String) :
    Restores (fun inner => (expect eof .identifier inner).map Token.text) ends [.name name] name
      [] := by
  intro tokens last rest htokens _
  obtain ⟨token, rfl, ⟨hkind, rfl⟩⟩ := spells_singleton.mp htokens
  change ((expect eof .identifier (token :: last :: rest)).map Token.text).Yields _ _ _
  rw [expect_of_kind hkind]
  exact ((yields_done token).behind token).map Token.text

theorem generics_yields {names : List String} {last : Token} (hlast : last.kind = .punct .lparen)
    (htokens : Spells tokens (genericWords names)) :
    (generics eof (tokens ++ last :: rest)).Yields names (last :: rest) [] := by
  rw [generics_def]
  cases names with
  | nil =>
      obtain rfl := spells_nil.mp htokens
      exact (delimited_yields_none (by simp [hlast])).map _
  | cons name names =>
      refine Yields.map (delimited_yields .rbracket ?_ ?_ htokens) (Option.getD · [])
      · intro name _
        refine ⟨_, _, rfl, ?_⟩
        rintro token ⟨hkind, -⟩
        simp [hkind, Kind.startsItem, Kind.isBoundary]
      · exact fun name _ => name_restores _ name

/-- Modifiers begin a declaration, or what stands behind them does. -/
theorem Begins.modifiers {words : List Word} (hbegins : Begins Kind.startsStatement words)
    (modifiers : Modifiers) : Begins Kind.startsStatement (modifiers.words ++ words) := by
  obtain ⟨_ | ⟨modifier, others⟩, hnodup⟩ := modifiers
  · exact hbegins
  · refine ⟨_, _, rfl, ?_⟩
    intro token hspelt
    cases modifier <;> rw [Word.spelt_keyword.mp hspelt] <;> rfl

theorem VariableDecl.startsStatement_bindingWords (decl : VariableDecl) :
    Begins Kind.startsStatement decl.bindingWords := by
  refine ⟨_, _, rfl, ?_⟩
  rintro token ⟨hkind, -⟩
  rw [hkind]
  rfl

theorem parameters_yields {params : List VariableDecl}
    (hwell : ∀ param ∈ params, param.WellFormed .parameter ∧ param.init = none)
    (htokens : Spells tokens
      (bracketWords .lparen .rparen (params.map VariableDecl.parameterWords))) :
    (parameters eof (tokens ++ rest)).Yields params rest [] := by
  obtain ⟨first, _, rfl, hfirst, htokens⟩ := spells_cons.mp htokens
  obtain ⟨inside, _, rfl, hinside, hclose⟩ := spells_append.mp htokens
  obtain ⟨last, rfl, hlast⟩ := spells_singleton.mp hclose
  rw [Word.spelt_punct] at hfirst hlast
  rw [List.cons_append, List.append_assoc, parameters_def, expecting_of_kind hfirst]
  apply Yields.behind
  refine Yields.andThen (listOf_yields .rparen ?_ ?_ hinside hlast) fun _ => ?_
  · exact fun param _ =>
      (param.startsStatement_bindingWords.modifiers _).weaken Kind.startsItem_of_startsStatement
  · intro param hmem
    obtain ⟨hparam, hinit⟩ := hwell param hmem
    refine (parameter_restores eof hparam hinit).mono fun kind hkind => ?_
    exact Kind.endsType_of_endsExpression _ (Kind.endsExpression_of_endsItem .rparen kind hkind)
  · rw [expecting_of_kind hlast]
    exact (yields_done _).behind last

/-- A function from its name to its result. -/
theorem signature_restores (eof : Token) {declared : Signature} {scope : Scope}
    (hwell : declared.WellFormed scope) :
    Restores (signature eof scope declared.modifiers) Kind.endsType declared.words declared [] := by
  intro tokens last rest htokens hlast
  obtain ⟨name, _, rfl, ⟨hname, hdecl⟩, htokens⟩ := spells_cons.mp htokens
  obtain ⟨names, _, rfl, hnames, htokens⟩ := spells_append.mp htokens
  obtain ⟨params, _, rfl, hparams, htokens⟩ := spells_append.mp htokens
  obtain ⟨colon, type, rfl, hcolon, htype⟩ := spells_cons.mp htokens
  rw [Word.spelt_punct] at hcolon
  have hreturn : (returnType eof (colon :: (type ++ last :: rest))).Yields declared.returnType
      (last :: rest) [] := by
    rw [returnType_cons, if_pos hcolon]
    exact (typeExpr_restores eof _ hwell.returnType last rest htype hlast).behind colon
  have hdecls : (parameters eof (params ++ colon :: (type ++ last :: rest))).Yields declared.params
      (colon :: (type ++ last :: rest)) [] := parameters_yields hwell.params hparams
  -- The generics end at the parenthesis of the parameters.
  obtain ⟨first, more, rfl, hfirst, -⟩ := spells_cons.mp hparams
  rw [Word.spelt_punct] at hfirst
  have hgenerics :
      (generics eof (names ++ first :: (more ++ colon :: (type ++ last :: rest)))).Yields
      declared.generics (first :: (more ++ colon :: (type ++ last :: rest))) [] :=
    generics_yields hfirst hnames
  have hinput : name :: (names ++ (first :: more ++ colon :: type)) ++ last :: rest =
      name :: (names ++ first :: (more ++ colon :: (type ++ last :: rest))) := by simp
  rw [hinput, signature_def, expecting_of_kind hname]
  apply Yields.behind
  refine hgenerics.andThen fun _ => ?_
  refine hdecls.andThen fun _ => ?_
  rw [hdecl, ← hwell.scope_eq]
  exact hreturn.map _

theorem typeAlias_restores (eof : Token) {target : Ty} (hwell : target.WellFormed)
    (ends : Kind → Bool) (name : String) :
    Restores (typeAlias eof) ends (target.words ++ [.keyword .as, .name name])
      (.typeAlias target name) [] := by
  intro tokens last rest htokens _
  obtain ⟨front, _, rfl, hfront, hback⟩ := spells_append.mp htokens
  obtain ⟨keyword, _, rfl, hkeyword, hback⟩ := spells_cons.mp hback
  obtain ⟨token, rfl, ⟨hkind, rfl⟩⟩ := spells_singleton.mp hback
  rw [Word.spelt_keyword] at hkeyword
  have htype := typeExpr_restores eof target hwell keyword (token :: last :: rest) hfront
    (by simp [hkeyword, Kind.endsType])
  rw [List.append_assoc, typeAlias_def]
  refine htype.andThen fun _ => ?_
  rw [expecting_of_kind hkeyword]
  apply Yields.behind
  rw [expecting_of_kind hkind]
  exact (yields_done _).behind token

end Declarations

end KCompiler
