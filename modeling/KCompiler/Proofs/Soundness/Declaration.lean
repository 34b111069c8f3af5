import KCompiler.Proofs.Soundness.Expression

/-! # Accepted declarations

Modifiers that are repeated or do not suit a declaration are dropped from its tree, and each of
them is an error. In an accepted declaration all modifiers are kept.
-/

namespace KCompiler

open Grammar Outcome

variable {eof : Token}

theorem absent_of_repetition {modifiers : Modifiers} {modifier : Modifier} {token : Token}
    (hharmless : ∀ finding ∈ repetition modifiers modifier token, finding.Harmless) :
    modifiers.contains modifier = false := by
  unfold repetition at hharmless
  split at hharmless
  next => simp [Finding.Harmless, Finding.isError, Issue.level] at hharmless
  next habsent => simpa using habsent

theorem modifierList_reads (modifiers : Modifiers) (input : List Token) :
    (modifierList modifiers input).Reads fun taken result =>
      ∃ written, IsModifiers taken written ∧ result.toList = modifiers.toList ++ written := by
  induction input generalizing modifiers with
  | nil => exact reads_done ⟨[], .nil, by simp⟩
  | cons token rest ih =>
      rw [modifierList]
      split
      next modifier hmodifier =>
        apply Reads.behind
        apply Reads.reporting
        intro hharmless
        refine (ih _).mono ?_
        rintro taken result ⟨written, hwritten, hresult⟩
        refine ⟨modifier :: written, .cons hmodifier hwritten, ?_⟩
        rw [hresult, Modifiers.toList_insert (absent_of_repetition hharmless), List.append_assoc]
        rfl
      next => exact reads_done ⟨[], .nil, by simp⟩

/-- Modifiers with nothing read before them are what is written. -/
theorem modifierList_empty_reads (input : List Token) :
    (modifierList .empty input).Reads fun taken result => IsModifiers taken result.toList := by
  refine (modifierList_reads .empty input).mono ?_
  rintro taken result ⟨written, hwritten, hresult⟩
  rw [hresult]
  exact hwritten

theorem trailingMut_reads (modifiers : Modifiers) (input : List Token) :
    (trailingMut modifiers input).Reads fun taken result =>
      ∃ behind, IsMark taken behind ∧ result.toList = modifiers.toList ++ behind := by
  unfold trailingMut
  split
  · exact reads_done ⟨[], .none, by simp⟩
  · split
    next hkind =>
      apply Reads.behind
      apply Reads.reporting
      intro hharmless
      have habsent := absent_of_repetition hharmless
      exact reads_done ⟨[.mut], .mut hkind, Modifiers.toList_insert habsent⟩
    next => exact reads_done ⟨[], .none, by simp⟩

theorem allowed_of_refusals {modifiers : Modifiers} {scope : Scope} {kind : DeclKind} {start : Span}
    (hharmless : ∀ finding ∈ refusals modifiers scope kind start, finding.Harmless) :
    Allowed modifiers scope kind := by
  intro modifier hmem
  cases hallows : modifier.allows scope kind with
  | true => rfl
  | false =>
      have hfinding : (⟨.refusedModifier ⟨modifier, scope, kind⟩, start⟩ : Finding) ∈
          refusals modifiers scope kind start := by
        simp [refusals, Modifiers.refused, hmem, hallows]
      exact absurd (hharmless _ hfinding) (by simp [Finding.Harmless, Finding.isError, Issue.level])

theorem binding_reads {scope : Scope} {modifiers : Modifiers} {start : Span} {front : List Token}
    (hfront : IsModifiers front modifiers.toList) (input : List Token) :
    (binding eof scope modifiers start input).Reads fun taken =>
      IsBinding scope (front ++ taken) := by
  rw [binding_def]
  apply Reads.expecting
  intro name hname rest _
  apply (trailingMut_reads modifiers rest).andThen
  rintro mark marked ⟨behind, hmark, hmarked⟩ rest _
  apply Reads.expecting
  intro colon hcolon rest _
  apply (typeExpr_reads rest).andThen
  intro tokens type htype rest _
  apply Reads.reporting
  intro hrefusals
  have hallowed := allowed_of_refusals hrefusals
  apply reads_done
  rw [Modifiers.allowed_of_allowed hallowed, List.append_nil]
  exact .intro hfront hname hmark hcolon htype hmarked hallowed

theorem initialValue_reads {scope : Scope} {tokens : List Token} {decl : VariableDecl}
    (hdecl : IsBinding scope tokens decl) (input : List Token) :
    (initialValue eof input).Reads fun taken init =>
      IsVariable scope (tokens ++ taken) { decl with init } := by
  have hbare : IsVariable scope (tokens ++ []) { decl with init := none } := by
    rw [List.append_nil]
    cases hdecl with
    | intro hfront hname hmark hcolon htype hmodifiers hallowed =>
        exact .bare (.intro hfront hname hmark hcolon htype hmodifiers hallowed)
  cases input with
  | nil =>
      rw [initialValue_nil]
      exact reads_done hbare
  | cons token rest =>
      rw [initialValue_cons]
      split
      next hequals =>
        apply Reads.behind
        apply Reads.map
        refine (expression_reads _).mono ?_
        intro value init hvalue
        exact .initial hdecl hequals hvalue
      next => exact reads_done hbare

theorem variableDecl_reads {scope : Scope} {modifiers : Modifiers} {start : Span}
    {front : List Token} (hfront : IsModifiers front modifiers.toList) (input : List Token) :
    (variableDecl eof scope modifiers start input).Reads fun taken =>
      IsVariable scope (front ++ taken) := by
  rw [variableDecl_def]
  apply (binding_reads hfront input).andThen
  intro tokens decl hdecl rest _
  apply Reads.map
  refine (initialValue_reads hdecl rest).mono ?_
  intro taken init hinit
  rwa [List.append_assoc] at hinit

theorem parameter_reads (input : List Token) :
    (parameter eof input).Reads (IsBinding .parameter) := by
  rw [parameter_def]
  apply (modifierList_empty_reads input).andThen
  intro front modifiers hfront rest _
  exact binding_reads hfront rest

theorem parameters_reads (input : List Token) :
    (parameters eof input).Reads (Bracketed .lparen .rparen (IsBinding .parameter)) := by
  rw [parameters_def]
  apply Reads.expecting
  intro opening hopening rest _
  exact listOf_reads hopening (fun inner _ => parameter_reads inner) fun _ _ => id

theorem generics_reads (input : List Token) :
    (generics eof input).Reads fun taken names =>
      ∃ written, Optional .lbracket .rbracket IsIdentifier taken written ∧
        names = written.getD [] := by
  have hname (inner : List Token) :
      ((expect eof .identifier inner).map Token.text).Reads IsIdentifier := by
    apply Reads.map
    intro token rest hgives
    obtain ⟨rfl, hkind⟩ := eq_cons_of_gives_expect hgives
    exact ⟨[token], rfl, .intro hkind⟩
  apply Reads.map
  refine (delimited_reads fun inner _ => hname inner).mono ?_
  intro taken written hwritten
  exact ⟨written, hwritten, rfl⟩

theorem returnType_reads (input : List Token) : (returnType eof input).Reads IsReturn := by
  cases input with
  | nil =>
      rw [returnType_nil]
      exact reads_done .none
  | cons token rest =>
      rw [returnType_cons]
      split
      next hcolon =>
        apply Reads.behind
        exact (typeExpr_reads _).mono fun _ _ => .some hcolon
      next => exact reads_done .none

/-- A signature is read before its modifiers are checked. -/
theorem signature_reads {scope : Scope} {modifiers : Modifiers} {front : List Token}
    {keyword : Token} (hfront : IsModifiers front modifiers.toList)
    (hkeyword : keyword.kind = .keyword .fx) (input : List Token) :
    (signature eof scope modifiers input).Reads fun taken signature =>
      signature.modifiers = modifiers ∧ (Allowed modifiers scope .function →
        IsSignature scope (front ++ keyword :: taken) signature) := by
  rw [signature_def]
  apply Reads.expecting
  intro name hname rest _
  apply (generics_reads rest).andThen
  rintro names _ ⟨written, hnames, rfl⟩ rest _
  apply (parameters_reads rest).andThen
  intro params decls hparams rest _
  apply Reads.map
  refine (returnType_reads rest).mono ?_
  intro returns type hreturns
  exact ⟨rfl, fun hallowed => .intro hfront hallowed hkeyword hname hnames hparams hreturns⟩

theorem typeAlias_reads {scope : Scope} {keyword : Token}
    (hkeyword : keyword.kind = .keyword .alias) (input : List Token) :
    (typeAlias eof input).Reads fun taken => IsStmt scope (keyword :: taken) := by
  rw [typeAlias_def]
  apply (typeExpr_reads input).andThen
  intro tokens target htype rest _
  apply Reads.expecting
  intro as has rest _
  apply Reads.expecting
  intro name hname rest _
  exact reads_done (.typeAlias hkeyword htype has hname)

end KCompiler
