import KCompiler.Proofs.EndOfInput
import KCompiler.Proofs.StatementLoop
import KCompiler.Proofs.Trees.Leaves
import KCompiler.Proofs.Validation

/-! # Parsed trees

Every tree that a parser returns is well formed, whatever its tokens are and whatever was
reported, and its leaves are taken from its tokens. Each combinator says what it makes of what is
known about the values of its parts; the proofs follow the definitions of the parsers.
-/

namespace KCompiler

open Grammar

/-- If the tokens of an input are all good, then so is the value of an outcome. -/
def Outcome.Ensures {input : List Token} {α : Type} (Good : Token → Prop) (P : α → Prop)
    (outcome : Outcome input α) : Prop :=
  (∀ token ∈ input, Good token) → ∀ value, outcome.value = some value → P value

namespace Outcome

variable {Good : Token → Prop} {input inner : List Token} {α β : Type} {P : α → Prop} {Q : β → Prop}

theorem ensures_done {value : α} (hvalue : P value) :
    (done value : Outcome input α).Ensures Good P := by
  intro _ _ hsome
  cases hsome
  exact hvalue

theorem ensures_failed : (failed : Outcome input α).Ensures Good P := by
  intro _ _ hsome
  cases hsome

theorem ensures_true (outcome : Outcome input α) : outcome.Ensures Good fun _ => True :=
  fun _ _ _ => trivial

namespace Ensures

theorem map {outcome : Outcome input α} {f : α → β} (houtcome : outcome.Ensures Good P)
    (hvalue : ∀ value, P value → Q (f value)) : (outcome.map f).Ensures Good Q := by
  intro hinput result hsome
  obtain ⟨value, hvalue', rfl⟩ := Option.map_eq_some_iff.mp hsome
  exact hvalue value (houtcome hinput value hvalue')

theorem reporting {outcome : Outcome input α} (houtcome : outcome.Ensures Good P)
    (findings : List Finding) : (outcome.reporting findings).Ensures Good P :=
  houtcome

theorem within {outcome : Outcome inner α} (houtcome : outcome.Ensures Good P)
    (hsuffix : inner <:+ input) : (outcome.within hsuffix).Ensures Good P :=
  fun hinput => houtcome fun token htoken => hinput token (hsuffix.mem htoken)

/-- The token before an input is good, too. -/
theorem behind {token : Token} {outcome : Outcome input α}
    (houtcome : Good token → outcome.Ensures Good P) : (outcome.behind token).Ensures Good P := by
  intro hinput
  obtain ⟨htoken, hrest⟩ := List.forall_mem_cons.mp hinput
  exact houtcome htoken hrest

theorem andThen {outcome : Outcome input α}
    {next : α → (rest : List Token) → rest.length ≤ input.length → Outcome rest β}
    (houtcome : outcome.Ensures Good P)
    (hnext : ∀ value, P value → ∀ rest hlength, (next value rest hlength).Ensures Good Q) :
    (outcome.andThen next).Ensures Good Q := by
  intro hinput result hsome
  obtain ⟨value, hvalue, hresult, -⟩ := exists_of_value_andThen hsome
  refine hnext value (houtcome hinput value hvalue) _ _ ?_ result hresult
  exact fun token htoken => hinput token (outcome.suffix.mem htoken)

end Ensures
end Outcome

open Outcome

variable {eof : Token} {Good : Token → Prop} {α : Type} {P : α → Prop}

theorem seek_ensures {kind : Kind} {skips : Nat} {input : List Token} :
    (seek kind skips input).Ensures Good fun token => token.kind = kind ∧ Good token := by
  fun_induction seek kind skips input with
  | case1 | case2 | case4 => exact ensures_failed
  | case3 _ token rest hkind => exact .behind fun htoken => ensures_done ⟨hkind, htoken⟩
  | case5 _ token rest _ _ ih => exact .behind fun _ => ih.within _

theorem expect_ensures (kind : Kind) (input : List Token) :
    (expect eof kind input).Ensures Good fun token => token.kind = kind ∧ Good token := by
  unfold expect
  split
  · exact ensures_failed.reporting _
  · split
    next hkind => exact .behind fun htoken => ensures_done ⟨hkind, htoken⟩
    next => exact seek_ensures.reporting _

theorem expecting_ensures {kind : Kind} {input : List Token}
    {next : Token → (rest : List Token) → rest.length < input.length → Outcome rest α}
    (hnext : ∀ token, token.kind = kind → Good token → ∀ rest hlength,
      (next token rest hlength).Ensures Good P) :
    (expecting eof kind input next).Ensures Good P := by
  have hexpect := @expect_ensures eof Good kind input
  rcases expecting_cases eof kind input next with ⟨-, heq⟩ | ⟨token, hlength, hfound, heq⟩
  · rw [heq]
    intro _ _ hsome
    cases hsome
  · rw [heq]
    intro hinput
    obtain ⟨hkind, htoken⟩ := hexpect hinput token hfound
    exact ((hnext token hkind htoken _ hlength).reporting _).within _ hinput

theorem itemsOf_ensures {closing : Kind} (input : List Token)
    {item : (inner : List Token) → inner.length ≤ input.length → Outcome inner α}
    (hitem : ∀ inner hlength, (item inner hlength).Ensures Good P) :
    (itemsOf closing input item).Ensures Good fun items => ∀ item ∈ items, P item := by
  match input with
  | [] =>
      rw [itemsOf_nil]
      exact ensures_done (by simp)
  | token :: tokens =>
      rw [itemsOf_cons]
      split
      · exact ensures_done (by simp)
      · refine (hitem _ _).andThen fun first hfirst rest hrest => ?_
        cases rest with
        | nil => exact ensures_done (by simpa using hfirst)
        | cons comma more =>
            have hmore := length_skipNewlines_le more
            simp only
            split
            · refine .behind fun _ => .within ?_ _
              refine (itemsOf_ensures (skipNewlines more) fun inner _ => hitem inner _).map ?_
              exact fun items hitems => List.forall_mem_cons.mpr ⟨hfirst, hitems⟩
            · exact ensures_done (by simpa using hfirst)
termination_by input.length
decreasing_by simp only [List.length_cons] at *; omega

theorem listOf_ensures {closing : Kind} {input : List Token}
    {item : (inner : List Token) → inner.length ≤ input.length → Outcome inner α}
    (hitem : ∀ inner hlength, (item inner hlength).Ensures Good P) :
    (listOf closing input item).Ensures Good fun items => ∀ item ∈ items, P item := by
  rw [listOf_def]
  exact (itemsOf_ensures (skipNewlines input) fun inner _ => hitem inner _).within _

theorem delimited_ensures {opening closing : Kind} {input : List Token}
    {item : (inner : List Token) → inner.length < input.length → Outcome inner α}
    (hitem : ∀ inner hlength, (item inner hlength).Ensures Good P) :
    (delimited eof opening closing input item).Ensures Good
      fun items? => ∀ items ∈ items?, ∀ item ∈ items, P item := by
  cases input with
  | nil =>
      rw [delimited_nil]
      exact ensures_done (by simp)
  | cons token rest =>
      rw [delimited_cons]
      split
      · refine .behind fun _ => (listOf_ensures fun inner _ => hitem inner _).andThen ?_
        intro items hitems rest _
        exact expecting_ensures fun _ _ _ _ _ => ensures_done (by simpa using hitems)
      · exact ensures_done (by simp)

theorem value_finishStatement {input : List Token} {outcome : Outcome input α} {value : α}
    (hvalue : (finishStatement outcome).value.join = some value) : outcome.value = some value := by
  unfold finishStatement at hvalue
  split at hvalue
  next found hfound =>
    rw [hfound, ← hvalue]
    simp [value_endStatement]
  next => cases hvalue

/-- A finished statement, or none if it was broken, and those behind it. -/
theorem finished_ensures {input : List Token} {outcome : Outcome input α}
    {more : Outcome (finishStatement outcome).rest (List α)} (houtcome : outcome.Ensures Good P)
    (hmore : more.Ensures Good fun items => ∀ item ∈ items, P item) :
    (((more.map fun items => (finishStatement outcome).value.join.toList ++ items).reporting
      (finishStatement outcome).findings).within (finishStatement outcome).suffix).Ensures Good
        fun items => ∀ item ∈ items, P item := by
  intro hinput
  refine ((hmore.map fun items hitems => ?_).reporting _).within _ hinput
  rw [List.forall_mem_append]
  refine ⟨fun item hitem => ?_, hitems⟩
  exact houtcome hinput item (value_finishStatement (Option.mem_toList.mp hitem))

theorem StatementLoop.ensures {inBraces : Bool}
    {loop : (input : List Token) → Outcome input (List α)}
    {parse : (input : List Token) → Outcome input α} (hloop : StatementLoop inBraces loop parse)
    {input : List Token}
    (hparse : ∀ inner, inner.length ≤ input.length → (parse inner).Ensures Good P) :
    (loop input).Ensures Good fun items => ∀ item ∈ items, P item := by
  induction input using statementInduction inBraces parse with
  | nil =>
      rw [hloop.nil]
      exact ensures_done (by simp)
  | stop token rest hstop =>
      rw [hloop.stop hstop]
      exact ensures_done (by simp)
  | blank token rest hends ih =>
      rw [hloop.blank hends]
      exact .behind fun _ => ih fun inner hinner => hparse inner (Nat.le_succ_of_le hinner)
  | stray token rest hbrace hopen ih =>
      have hrest := ih fun inner hinner => hparse inner (Nat.le_succ_of_le hinner)
      rw [hloop.stray hbrace hopen]
      exact .behind fun _ => hrest.reporting _
  | item token rest hinner ih =>
      have hless := length_finishStatement_lt hinner (parse (token :: rest))
      rw [hloop.item hinner]
      exact finished_ensures (hparse _ (Nat.le_refl _)) (ih fun inner hle => hparse inner (by omega))

/-! ## Types and expressions -/

/-- A token that bears only leaves that are known. -/
def Token.BearsOnly (vocabulary : Vocabulary) (token : Token) : Prop :=
  ∀ leaf, token.Bears leaf → vocabulary.Known leaf

variable {vocabulary : Vocabulary}

theorem Ty.fits_of_ofToken? {token : Token} {base : Ty} (hbase : Ty.ofToken? token = some base)
    (htoken : token.BearsOnly vocabulary) : base.isGeneric = false ∧ base.Fits vocabulary := by
  unfold Ty.ofToken? at hbase
  split at hbase
  next hkind =>
    cases hbase
    exact ⟨rfl, trivial, htoken (.name token.text) ⟨hkind, rfl⟩⟩
  next hkind =>
    cases hbase
    exact ⟨rfl, trivial, htoken (.builtin token.text) ⟨by rw [hkind]; rfl, rfl⟩⟩
  next => cases hbase

theorem typeExpr_ensures (input : List Token) :
    (typeExpr eof input).Ensures (Token.BearsOnly vocabulary) (Ty.Fits vocabulary) := by
  cases input with
  | nil =>
      rw [typeExpr_nil]
      exact ensures_failed.reporting _
  | cons token rest =>
      rw [typeExpr_cons]
      split
      next => exact ensures_failed.reporting _
      next base hbase =>
        refine .behind fun htoken => ?_
        obtain ⟨hplain, hfits⟩ := Ty.fits_of_ofToken? hbase htoken
        refine (delimited_ensures fun inner hlength => typeExpr_ensures inner).map ?_
        intro args? hargs
        cases args? with
        | none => exact hfits
        | some args =>
            obtain ⟨hwell, hover⟩ := Ty.fits_all (hargs args rfl)
            exact ⟨⟨hplain, hwell⟩, hfits.2, hover⟩
termination_by input.length
decreasing_by simp only [List.length_cons]; omega

theorem typeArguments_ensures (input : List Token) :
    (typeArguments eof input).Ensures (Token.BearsOnly vocabulary)
      fun types? => ∀ types ∈ types?, ∀ type ∈ types, type.Fits vocabulary := by
  rw [typeArguments_def]
  exact delimited_ensures fun inner _ => typeExpr_ensures inner

/-- What an operand is made of is borne by the token that it begins with. -/
def Opening.Over (vocabulary : Vocabulary) : Opening → Prop
  | .literal value _ => vocabulary.Known (.literal value)
  | .name text => vocabulary.Known (.ident text)
  | .leading _ | .group => True

theorem Opening.over_of_ofToken? {token : Token} {opening : Opening}
    (hopening : Opening.ofToken? token = some opening) (htoken : token.BearsOnly vocabulary) :
    opening.Over vocabulary := by
  unfold Opening.ofToken? at hopening
  split at hopening
  next =>
    obtain ⟨op, -, rfl⟩ := Option.map_eq_some_iff.mp hopening
    trivial
  next hkind =>
    cases hopening
    exact htoken (.ident token.text) ⟨.inl hkind, rfl⟩
  next hkind =>
    cases hopening
    exact htoken (.ident token.text) ⟨.inr (by rw [hkind]; rfl), rfl⟩
  next =>
    cases hopening
    trivial
  next =>
    obtain ⟨⟨value, findings⟩, hvalue, rfl⟩ := Option.map_eq_some_iff.mp hopening
    exact htoken (.literal value) ⟨findings, hvalue⟩

theorem Expr.fits_ofName {name : String} {typeArgs : Option (List Ty)} {args : Option (List Expr)}
    (hname : vocabulary.Known (.ident name))
    (htypeArgs : ∀ types ∈ typeArgs, ∀ type ∈ types, type.Fits vocabulary)
    (hargs : ∀ exprs ∈ args, ∀ expr ∈ exprs, expr.Fits vocabulary) :
    (Expr.ofName name typeArgs args).Fits vocabulary := by
  have hcall : (Expr.call (.ident name) (typeArgs.getD []) (args.getD [])).Fits vocabulary := by
    have htypes : ∀ type ∈ typeArgs.getD [], type.Fits vocabulary := by
      cases typeArgs with
      | none => simp
      | some types => exact htypeArgs types rfl
    have hexprs : ∀ expr ∈ args.getD [], expr.Fits vocabulary := by
      cases args with
      | none => simp
      | some exprs => exact hargs exprs rfl
    obtain ⟨htypes, hover⟩ := Ty.fits_all htypes
    obtain ⟨hexprs, hmore⟩ := Expr.fits_all hexprs
    exact ⟨⟨rfl, htypes, hexprs⟩, hname, hover, hmore⟩
  cases typeArgs with
  | some types => exact hcall
  | none =>
      cases args with
      | some exprs => exact hcall
      | none => exact ⟨trivial, hname⟩

theorem standsOn_of_trailing? {operator : Operator} {op : UnaryOp}
    (hop : UnaryOp.trailing? operator = some op) : op.standsOn .behind := by
  unfold UnaryOp.trailing? at hop
  split at hop <;> cases hop <;> rfl

theorem standsOn_of_continuation {kind : Kind} {op : UnaryOp}
    (hkind : Continuation.ofKind? kind = some (.trailing op)) : op.standsOn .behind := by
  cases kind with
  | op operator =>
      cases htrailing : UnaryOp.trailing? operator with
      | some found =>
          obtain rfl : found = op := by simpa [Continuation.ofKind?, htrailing] using hkind
          exact standsOn_of_trailing? htrailing
      | none => simp [Continuation.ofKind?, htrailing] at hkind
  | keyword word => cases word <;> cases hkind
  | _ => cases hkind

theorem Expr.fits_placeholder : Expr.placeholder.Fits vocabulary :=
  ⟨trivial, vocabulary.known_default _ (.inr (.inl rfl))⟩

mutual
theorem expression_ensures (least : Nat) (input : List Token) :
    (expression eof least input).Ensures (Token.BearsOnly vocabulary) (Expr.Fits vocabulary) := by
  rw [expression_def]
  refine (operand_ensures input).andThen fun first hfirst rest hrest => ?_
  exact operators_ensures least _ hfirst rest
termination_by 3 * input.length + 2
decreasing_by all_goals omega

theorem operand_ensures (input : List Token) :
    (operand eof input).Ensures (Token.BearsOnly vocabulary) (Expr.Fits vocabulary) := by
  have hmissing {inner : List Token} (findings : List Finding) :
      ((Outcome.done .placeholder : Outcome inner Expr).reporting findings).Ensures
        (Token.BearsOnly vocabulary) (Expr.Fits vocabulary) :=
    (ensures_done Expr.fits_placeholder).reporting findings
  cases input with
  | nil =>
      rw [operand_nil]
      exact hmissing _
  | cons token rest =>
      rw [operand_cons]
      split
      next op _ =>
        refine .behind fun _ => (expression_ensures leadingPower rest).map ?_
        exact fun operand hoperand => ⟨⟨rfl, hoperand.1⟩, hoperand.2⟩
      next value findings hopening =>
        refine .behind fun htoken => (ensures_done ?_).reporting _
        exact ⟨trivial, Opening.over_of_ofToken? hopening htoken⟩
      next name hopening =>
        refine .behind fun htoken => (typeArguments_ensures rest).andThen ?_
        intro typeArgs htypeArgs rest' hrest
        refine (delimited_ensures fun inner hinner => expression_ensures 0 inner).map ?_
        exact fun args => Expr.fits_ofName (Opening.over_of_ofToken? hopening htoken) htypeArgs
      next =>
        have hnewlines := length_skipNewlines_le rest
        refine .behind fun _ => .within ?_ _
        refine (expression_ensures 0 (skipNewlines rest)).andThen fun inside hinside rest' _ => ?_
        exact expecting_ensures fun _ _ _ _ _ => ensures_done hinside
      next =>
        simp only
        split
        · exact hmissing _
        · exact .behind fun _ => hmissing _
termination_by 3 * input.length + 1
decreasing_by all_goals simp only [List.length_cons]; omega

theorem operators_ensures (least most : Nat) {first : Expr} (hfirst : first.Fits vocabulary)
    (input : List Token) :
    (operators eof least most first input).Ensures (Token.BearsOnly vocabulary)
      (Expr.Fits vocabulary) := by
  cases input with
  | nil =>
      rw [operators_nil]
      exact ensures_done hfirst
  | cons token rest =>
      rw [operators_cons]
      split
      next op hkind =>
        split
        · refine .behind fun _ => operators_ensures least most ?_ rest
          exact ⟨⟨standsOn_of_continuation hkind, hfirst.1⟩, hfirst.2⟩
        · exact ensures_done hfirst
      next =>
        split
        · refine .behind fun _ => (typeExpr_ensures rest).andThen fun target htarget rest' _ => ?_
          refine operators_ensures least castPower ?_ rest'
          exact ⟨⟨hfirst.1, htarget.1⟩, hfirst.2, htarget.2⟩
        · exact ensures_done hfirst
      next op _ =>
        split
        · refine .behind fun _ => (expression_ensures _ rest).andThen ?_
          intro second hsecond rest' hrest
          refine operators_ensures least _ ?_ rest'
          exact ⟨⟨hfirst.1, hsecond.1⟩, hfirst.2, hsecond.2⟩
        · exact ensures_done hfirst
      next => exact ensures_done hfirst
termination_by 3 * input.length
decreasing_by all_goals simp only [List.length_cons]; omega
end

/-! ## Declarations -/

theorem known_name {token : Token} (hkind : token.kind = .identifier)
    (htoken : token.BearsOnly vocabulary) : vocabulary.Known (.name token.text) :=
  htoken (.name token.text) ⟨hkind, rfl⟩

theorem binding_ensures (scope : Scope) (modifiers : Modifiers) (start : Span)
    (input : List Token) :
    (binding eof scope modifiers start input).Ensures (Token.BearsOnly vocabulary)
      fun decl => decl.Fits vocabulary scope ∧ decl.init = none := by
  rw [binding_def]
  refine expecting_ensures fun name hname htoken rest _ => ?_
  refine (ensures_true _).andThen fun modifiers _ rest _ => ?_
  refine expecting_ensures fun colon _ _ rest _ => ?_
  refine (typeExpr_ensures rest).andThen fun type htype rest _ => ?_
  refine (ensures_done ?_).reporting _
  have hwell : VariableDecl.WellFormed scope
      ⟨name.text, type, none, modifiers.allowed scope .variable, scope⟩ :=
    ⟨rfl, allowed_allowed modifiers scope .variable, htype.1, by simp⟩
  exact ⟨⟨hwell, known_name hname htoken, htype.2, by simp⟩, rfl⟩

theorem initialValue_ensures (input : List Token) :
    (initialValue eof input).Ensures (Token.BearsOnly vocabulary)
      fun init => ∀ value ∈ init, value.Fits vocabulary := by
  cases input with
  | nil =>
      rw [initialValue_nil]
      exact ensures_done (by simp)
  | cons token rest =>
      rw [initialValue_cons]
      split
      · refine .behind fun _ => (expression_ensures 0 _).map fun value hvalue => ?_
        simpa using hvalue
      · exact ensures_done (by simp)

theorem variableDecl_ensures (scope : Scope) (modifiers : Modifiers) (start : Span)
    (input : List Token) :
    (variableDecl eof scope modifiers start input).Ensures (Token.BearsOnly vocabulary)
      fun decl => decl.Fits vocabulary scope := by
  rw [variableDecl_def]
  refine (binding_ensures scope modifiers start input).andThen fun decl hdecl rest _ => ?_
  refine (initialValue_ensures rest).map fun init hinit => ?_
  obtain ⟨⟨hwell, hover⟩, -⟩ := hdecl
  exact ⟨⟨hwell.scope_eq, hwell.allowed, hwell.type, fun value hvalue => (hinit value hvalue).1⟩,
    hover.name, hover.type, fun value hvalue => (hinit value hvalue).2⟩

theorem parameter_ensures (input : List Token) :
    (parameter eof input).Ensures (Token.BearsOnly vocabulary)
      fun decl => decl.Fits vocabulary .parameter ∧ decl.init = none := by
  rw [parameter_def]
  refine (ensures_true _).andThen fun modifiers _ rest _ => ?_
  exact binding_ensures .parameter modifiers _ rest

theorem parameters_ensures (input : List Token) :
    (parameters eof input).Ensures (Token.BearsOnly vocabulary)
      fun params => ∀ param ∈ params, param.Fits vocabulary .parameter ∧ param.init = none := by
  rw [parameters_def]
  refine expecting_ensures fun opening _ _ rest _ => ?_
  refine (listOf_ensures fun inner _ => parameter_ensures inner).andThen ?_
  intro params hparams rest _
  exact expecting_ensures fun _ _ _ _ _ => ensures_done hparams

theorem generics_ensures (input : List Token) :
    (generics eof input).Ensures (Token.BearsOnly vocabulary)
      fun names => ∀ name ∈ names, vocabulary.Known (.name name) := by
  rw [generics_def]
  have hname (inner : List Token) :
      ((expect eof .identifier inner).map Token.text).Ensures (Token.BearsOnly vocabulary)
        fun name => vocabulary.Known (.name name) :=
    (expect_ensures .identifier inner).map fun _ htoken => known_name htoken.1 htoken.2
  refine (delimited_ensures fun inner _ => hname inner).map fun names? hnames => ?_
  cases names? with
  | none => simp
  | some names => exact hnames names rfl

theorem returnType_ensures (input : List Token) :
    (returnType eof input).Ensures (Token.BearsOnly vocabulary) (Ty.Fits vocabulary) := by
  have hunit : Ty.unit.Fits vocabulary := ⟨trivial, vocabulary.known_default _ (.inl rfl)⟩
  cases input with
  | nil =>
      rw [returnType_nil]
      exact ensures_done hunit
  | cons token rest =>
      rw [returnType_cons]
      split
      · exact .behind fun _ => typeExpr_ensures _
      · exact ensures_done hunit

/-- All of a signature but its modifiers. -/
theorem signature_ensures (scope : Scope) (modifiers : Modifiers) (input : List Token) :
    (signature eof scope modifiers input).Ensures (Token.BearsOnly vocabulary)
      fun signature => signature.Over vocabulary ∧ signature.scope = scope ∧
        signature.returnType.WellFormed ∧
        ∀ param ∈ signature.params, param.WellFormed .parameter ∧ param.init = none := by
  rw [signature_def]
  refine expecting_ensures fun name hname htoken rest _ => ?_
  refine (generics_ensures rest).andThen fun names hnames rest _ => ?_
  refine (parameters_ensures rest).andThen fun params hparams rest _ => ?_
  refine (returnType_ensures rest).map fun returnType hreturn => ?_
  have hover (param : VariableDecl) (hmem : param ∈ params) : param.Over vocabulary :=
    (hparams param hmem).1.2
  exact ⟨⟨known_name hname htoken, hnames, hreturn.2, hover⟩, rfl, hreturn.1,
    fun param hmem => ⟨(hparams param hmem).1.1, (hparams param hmem).2⟩⟩

theorem typeAlias_ensures (scope : Scope) (input : List Token) :
    (typeAlias eof input).Ensures (Token.BearsOnly vocabulary) (Stmt.Fits vocabulary scope) := by
  rw [typeAlias_def]
  refine (typeExpr_ensures input).andThen fun target htarget rest _ => ?_
  refine expecting_ensures fun as _ _ rest _ => ?_
  refine expecting_ensures fun name hname htoken rest _ => ensures_done ?_
  exact ⟨htarget.1, htarget.2, known_name hname htoken⟩

/-! ## Statements -/

def Member.Fits (vocabulary : Vocabulary) : Member → Prop
  | .field decl => decl.Fits vocabulary .field
  | .method decl => decl.Fits vocabulary .method

theorem fits_makeRecord (scope : Scope) (modifiers : Modifiers) (start finish : Span) {type : Ty}
    {members : List Member} (htype : type.Fits vocabulary)
    (hmembers : ∀ member ∈ members, member.Fits vocabulary) :
    (makeRecord scope modifiers start finish type members).1.Fits vocabulary scope := by
  have hfields (field : VariableDecl) (hmem : field ∈ members.filterMap Member.field?) :
      field.Fits vocabulary .field := by
    obtain ⟨member, hmember, hfield⟩ := List.mem_filterMap.mp hmem
    cases member with
    | field decl =>
        cases hfield
        exact hmembers _ hmember
    | method decl => cases hfield
  have hmethods (method : FunctionDecl) (hmem : method ∈ members.filterMap Member.method?) :
      method.Fits vocabulary .method := by
    obtain ⟨member, hmember, hmethod⟩ := List.mem_filterMap.mp hmem
    cases member with
    | field decl => cases hmethod
    | method decl =>
        cases hmethod
        exact hmembers _ hmember
  obtain ⟨hwell, hover⟩ := FunctionDecl.fits_all hmethods
  exact ⟨⟨⟨rfl, allowed_allowed modifiers scope .record, htype.1,
    fun field hmem => (hfields field hmem).1⟩, hwell⟩,
    ⟨htype.2, fun field hmem => (hfields field hmem).2⟩, hover⟩

mutual
theorem statements_ensures (scope : Scope) (inBlock : Bool) (input : List Token) :
    (statements eof scope inBlock input).Ensures (Token.BearsOnly vocabulary)
      fun stmts => ∀ stmt ∈ stmts, stmt.Fits vocabulary scope :=
  (statements_loop eof scope inBlock).ensures fun inner _ => statement_ensures scope inner
termination_by 6 * input.length + 5
decreasing_by omega

theorem statement_ensures (scope : Scope) (input : List Token) :
    (statement eof scope input).Ensures (Token.BearsOnly vocabulary)
      (Stmt.Fits vocabulary scope) := by
  rw [statement_def]
  refine (ensures_true _).andThen fun modifiers _ rest hrest => ?_
  exact unmodifiedStatement_ensures scope modifiers _ rest
termination_by 6 * input.length + 4
decreasing_by omega

theorem unmodifiedStatement_ensures (scope : Scope) (modifiers : Modifiers) (start : Span)
    (input : List Token) :
    (unmodifiedStatement eof scope modifiers start input).Ensures (Token.BearsOnly vocabulary)
      (Stmt.Fits vocabulary scope) := by
  have hexpr (inner : List Token) :
      ((expression eof 0 inner).map Stmt.expr).Ensures (Token.BearsOnly vocabulary)
        (Stmt.Fits vocabulary scope) :=
    (expression_ensures 0 inner).map fun _ hvalue => hvalue
  cases input with
  | nil =>
      rw [unmodifiedStatement_nil]
      exact (hexpr []).reporting _
  | cons token rest =>
      rw [unmodifiedStatement_cons]
      split
      next => exact .behind fun _ => record_ensures scope modifiers start rest
      next =>
        exact .behind fun _ =>
          (function_ensures scope modifiers start rest).map fun _ hdecl => hdecl
      next => exact (Ensures.behind fun _ => typeAlias_ensures scope rest).reporting _
      next => exact (Ensures.behind fun _ => branch_ensures scope rest).reporting _
      next =>
        refine (Ensures.behind fun _ => ?_).reporting _
        refine (expression_ensures 0 rest).andThen fun condition hcondition rest' hrest => ?_
        refine (block_ensures rest').map fun body hbody => ?_
        exact ⟨⟨hcondition.1, hbody.1⟩, hcondition.2, hbody.2⟩
      next =>
        refine (Ensures.behind fun _ => ?_).reporting _
        exact (block_ensures rest).map fun _ hbody => hbody
      next => exact (Ensures.behind fun _ => ensures_done ⟨trivial, trivial⟩).reporting _
      next => exact (Ensures.behind fun _ => ensures_done ⟨trivial, trivial⟩).reporting _
      next =>
        split
        · exact (variableDecl_ensures scope modifiers start _).map fun _ hdecl => hdecl
        · exact (hexpr _).reporting _
termination_by 6 * input.length + 3
decreasing_by all_goals simp only [List.length_cons] at *; omega

theorem members_ensures (input : List Token) :
    (members eof input).Ensures (Token.BearsOnly vocabulary)
      fun members => ∀ member ∈ members, member.Fits vocabulary :=
  (members_loop eof).ensures fun inner _ => member_ensures inner
termination_by 6 * input.length + 5
decreasing_by omega

theorem member_ensures (input : List Token) :
    (member eof input).Ensures (Token.BearsOnly vocabulary) (Member.Fits vocabulary) := by
  rw [member_def]
  refine (ensures_true _).andThen fun modifiers _ rest hrest => ?_
  cases rest with
  | nil => exact (variableDecl_ensures .field modifiers _ []).map fun _ hdecl => hdecl
  | cons token tokens =>
      simp only
      split
      · exact .behind fun _ =>
          (function_ensures .method modifiers _ tokens).map fun _ hdecl => hdecl
      · exact (variableDecl_ensures .field modifiers _ _).map fun _ hdecl => hdecl
termination_by 6 * input.length + 4
decreasing_by simp only [List.length_cons] at *; omega

theorem record_ensures (scope : Scope) (modifiers : Modifiers) (start : Span)
    (input : List Token) :
    (record eof scope modifiers start input).Ensures (Token.BearsOnly vocabulary)
      (Stmt.Fits vocabulary scope) := by
  rw [record_eq]
  refine (typeExpr_ensures input).andThen fun type htype rest hrest => ?_
  have hnewlines := length_skipNewlines_le rest
  refine .within (expecting_ensures fun _ _ _ inner hinner => ?_) _
  refine (members_ensures inner).andThen fun members hmembers rest' _ => ?_
  refine expecting_ensures fun brace _ _ rest'' _ => (ensures_done ?_).reporting _
  exact fits_makeRecord scope modifiers start brace.span htype hmembers
termination_by 6 * input.length + 2
decreasing_by omega

theorem function_ensures (scope : Scope) (modifiers : Modifiers) (start : Span)
    (input : List Token) :
    (function eof scope modifiers start input).Ensures (Token.BearsOnly vocabulary)
      (FunctionDecl.Fits vocabulary scope) := by
  rw [function_eq]
  refine (signature_ensures scope modifiers input).andThen fun signature hsignature rest hrest => ?_
  refine (block_ensures rest).andThen fun body hbody rest' _ => (ensures_done ?_).reporting _
  obtain ⟨hover, hscope, hreturn, hparams⟩ := hsignature
  exact ⟨⟨⟨hscope, allowed_allowed modifiers scope .function, hreturn, hparams⟩, hbody.1⟩,
    ⟨hover.name, hover.generics, hover.returnType, hover.params⟩, hbody.2⟩
termination_by 6 * input.length + 2
decreasing_by omega

theorem branch_ensures (scope : Scope) (input : List Token) :
    (branch eof input).Ensures (Token.BearsOnly vocabulary) (Stmt.Fits vocabulary scope) := by
  rw [branch_def]
  refine (expression_ensures 0 input).andThen fun condition hcondition rest hrest => ?_
  refine (block_ensures rest).andThen fun body hbody rest' hrest' => ?_
  split
  · exact ensures_done ⟨⟨hcondition.1, hbody.1⟩, hcondition.2, hbody.2⟩
  next inner helse =>
    have hless := (afterElse?_suffix helse).2
    refine .within ((otherwise_ensures inner).map fun stmts hstmts => ?_) _
    exact ⟨⟨hcondition.1, hbody.1, hstmts.1⟩, hcondition.2, hbody.2, hstmts.2⟩
termination_by 6 * input.length + 2
decreasing_by all_goals omega

theorem otherwise_ensures (input : List Token) :
    (otherwise eof input).Ensures (Token.BearsOnly vocabulary)
      fun stmts => Stmt.AllWellFormed .block stmts ∧ Stmt.AllOver vocabulary stmts := by
  cases input with
  | nil =>
      rw [otherwise_nil]
      exact block_ensures []
  | cons token rest =>
      rw [otherwise_cons]
      split
      · refine .behind fun _ => (branch_ensures .block rest).map fun stmt hstmt => ?_
        exact ⟨⟨hstmt.1, trivial⟩, hstmt.2, trivial⟩
      · exact block_ensures (token :: rest)
termination_by 6 * input.length + 2
decreasing_by all_goals simp only [List.length_cons, List.length_nil]; omega

theorem block_ensures (input : List Token) :
    (block eof input).Ensures (Token.BearsOnly vocabulary)
      fun stmts => Stmt.AllWellFormed .block stmts ∧ Stmt.AllOver vocabulary stmts := by
  rw [block_def]
  have hnewlines := length_skipNewlines_le input
  refine .within (expecting_ensures fun _ _ _ inner hinner => ?_) _
  refine (statements_ensures .block true inner).andThen fun body hbody rest _ => ?_
  exact expecting_ensures fun _ _ _ _ _ => ensures_done (Stmt.fits_all hbody)
termination_by 6 * input.length + 1
decreasing_by omega
end

/-! ## Files -/

theorem moduleHeader_ensures (input : List Token) :
    (moduleHeader eof input).Ensures (Token.BearsOnly vocabulary)
      fun name => vocabulary.Known (.name name) := by
  unfold moduleHeader
  split
  · exact ensures_failed.reporting _
  · split
    · refine .behind fun _ => ?_
      unfold moduleName
      split
      · exact ensures_failed.reporting _
      · split
        next hkind =>
          exact .behind fun htoken => (ensures_true _).map fun _ _ => known_name hkind htoken
        next => exact ensures_failed.reporting _
    · exact ensures_failed.reporting _

/-- The module of a file is well formed, and its leaves are borne by the tokens of the file. -/
theorem parseModule_fits {tokens : List Token}
    (htokens : ∀ token ∈ tokens, token.BearsOnly vocabulary) :
    (parseModule tokens).value.Fits vocabulary := by
  obtain ⟨input, eof, hsplit⟩ : ∃ input eof, splitInput tokens = (input, eof) := ⟨_, _, rfl⟩
  have hinput : ∀ token ∈ skipNewlines input, token.BearsOnly vocabulary := by
    intro token hmem
    have hbody : token ∈ tokens.takeWhile (·.kind ≠ .eof) := by
      rw [show tokens.takeWhile (·.kind ≠ .eof) = input from congrArg Prod.fst hsplit]
      exact (skipNewlines_suffix input).mem hmem
    exact htokens token (List.takeWhile_subset _ hbody)
  rw [parseModule_eq hsplit]
  cases hvalue : (moduleHeader eof (skipNewlines input)).value with
  | none => exact ⟨trivial, vocabulary.known_default _ (.inr (.inr rfl)), trivial⟩
  | some name =>
      have hname := moduleHeader_ensures _ hinput name hvalue
      have hrest : ∀ token ∈ (moduleHeader eof (skipNewlines input)).rest,
          token.BearsOnly vocabulary :=
        fun token hmem => hinput token ((moduleHeader eof _).suffix.mem hmem)
      have hstmts := @statements_ensures eof vocabulary .topLevel false _ hrest
      simp only
      cases hbody : (statements eof .topLevel false
          (moduleHeader eof (skipNewlines input)).rest).value with
      | none => exact ⟨trivial, hname, trivial⟩
      | some stmts =>
          have hfits := Stmt.fits_all (hstmts stmts hbody)
          exact ⟨hfits.1, hname, hfits.2⟩

end KCompiler
