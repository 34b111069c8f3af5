import KCompiler.Proofs.Acceptance
import KCompiler.Proofs.Grammar.Closure
import KCompiler.Proofs.RoundTrip.Declaration

/-! # Declarations of the grammar are read

A declaration that follows the grammar is read to its tree without a finding. Its modifiers are read
first, so that a declaration is told apart into them and what its own parser reads.
-/

namespace KCompiler

open Grammar Outcome

/-! ## Accepted outcomes -/

namespace Outcome

variable {input inner : List Token} {α β : Type} {outcome : Outcome input α} {value : α}
  {rest : List Token}

theorem Yields.gives (hyields : outcome.Yields value rest []) : outcome.Gives value rest := by
  refine ⟨hyields.value_eq, hyields.rest_eq, ?_⟩
  simp [List.map_eq_nil_iff.mp hyields.issues_eq]

namespace Gives

theorem map (hgives : outcome.Gives value rest) (f : α → β) :
    (outcome.map f).Gives (f value) rest :=
  gives_map.mpr ⟨value, hgives, rfl⟩

theorem within {outcome : Outcome inner α} (hgives : outcome.Gives value rest)
    (hsuffix : inner <:+ input) : (outcome.within hsuffix).Gives value rest :=
  gives_within.mpr hgives

theorem behind (hgives : outcome.Gives value rest) (token : Token) :
    (outcome.behind token).Gives value rest :=
  gives_behind.mpr hgives

theorem andThen {middle : List Token}
    {next : α → (rest : List Token) → rest.length ≤ input.length → Outcome rest β} {result : β}
    (hgives : outcome.Gives value middle)
    (hnext : ∀ hlength, (next value middle hlength).Gives result rest) :
    (outcome.andThen next).Gives result rest := by
  have hlength : middle.length ≤ input.length := hgives.rest_eq ▸ outcome.length_rest_le
  exact gives_andThen.mpr ⟨value, middle, hgives, hlength, hnext hlength⟩

end Gives
end Outcome

/-! ## Declarations -/

theorem Kind.endsModifiers_of_startsOperand (kind : Kind) (hkind : kind.startsOperand) :
    kind.endsModifiers := by
  simp only [startsOperand, startsPrimary, Bool.or_eq_true] at hkind
  rcases hkind with (hkind | hkind) | hkind
  · exact endsModifiers_of_startsExpression kind hkind
  · obtain ⟨type, rfl⟩ := exists_of_isBuiltin hkind
    rfl
  · cases kind with
    | op operator => rfl
    | _ => cases hkind

section Declarations

variable {eof : Token} {scope : Scope} {tokens rest : List Token}

theorem headed_of_isModifiers {starts : Kind → Bool} {front back : List Token}
    {modifiers : List Modifier} (hfront : IsModifiers front modifiers)
    (hpub : starts (.keyword .pub)) (hmut : starts (.keyword .mut)) (hback : Headed starts back) :
    Headed starts (front ++ back) := by
  cases hfront with
  | nil => exact hback
  | @cons token _ _ _ hmodifier _ =>
      refine headed_cons ?_ _
      unfold Modifier.ofKind? at hmodifier
      split at hmodifier
      next hkind => rwa [hkind]
      next hkind => rwa [hkind]
      next => cases hmodifier

theorem Modifiers.eq_of_toList {first second : Modifiers} (hlist : first.toList = second.toList) :
    first = second := by
  cases first
  cases second
  simpa using hlist

/-- The modifiers of a declaration are distinct, so that none has been read before. -/
theorem absent_of_toList {before modifiers : Modifiers} {modifier : Modifier}
    {others : List Modifier} (hmodifiers : modifiers.toList = before.toList ++ modifier :: others) :
    before.contains modifier = false := by
  have hnodup := modifiers.nodup
  rw [hmodifiers, List.nodup_append] at hnodup
  simpa [Modifiers.contains] using fun hmem =>
    hnodup.2.2 modifier hmem modifier List.mem_cons_self rfl

theorem modifierList_reads_modifiers {before modifiers : Modifiers} {written : List Modifier}
    (hwritten : IsModifiers tokens written)
    (hmodifiers : modifiers.toList = before.toList ++ written) :
    Recognizes (modifierList before) Kind.endsModifiers tokens modifiers := by
  intro rest hrest
  induction hwritten generalizing before with
  | nil =>
      obtain rfl : modifiers = before := Modifiers.eq_of_toList (by simpa using hmodifiers)
      cases rest with
      | nil => exact yields_done modifiers
      | cons token rest =>
          have hnone : Modifier.ofKind? token.kind = none := by
            simpa [Kind.endsModifiers] using hrest
          rw [List.nil_append, modifierList, hnone]
          exact yields_done modifiers
  | @cons token _ modifier others hmodifier _ ih =>
      have habsent := absent_of_toList hmodifiers
      have hinserted : modifiers.toList = (before.insert modifier).toList ++ others := by
        rw [Modifiers.toList_insert habsent, hmodifiers, List.append_assoc]
        rfl
      rw [List.cons_append, modifierList, hmodifier]
      simp only [repetition_of_absent habsent]
      exact ((ih hinserted).reporting []).behind token

theorem trailingMut_reads_mark {before modifiers : Modifiers} {mark : List Token}
    {behind : List Modifier} {colon : Token} (hmark : IsMark mark behind)
    (hcolon : colon.kind = .punct .colon)
    (hmodifiers : modifiers.toList = before.toList ++ behind) (rest : List Token) :
    (trailingMut before (mark ++ colon :: rest)).Yields modifiers (colon :: rest) [] := by
  cases hmark with
  | none =>
      obtain rfl : modifiers = before := Modifiers.eq_of_toList (by simpa using hmodifiers)
      rw [List.nil_append, trailingMut, if_neg (by simp [hcolon])]
      exact yields_done modifiers
  | @«mut» token hkind =>
      have habsent := absent_of_toList hmodifiers
      obtain rfl : modifiers = before.insert .mut :=
        Modifiers.eq_of_toList (by rw [hmodifiers, Modifiers.toList_insert habsent])
      rw [List.cons_append, trailingMut, if_pos hkind, repetition_of_absent habsent]
      exact ((yields_done _).reporting []).behind token

/-- A declaration behind its modifiers, as a parser reads it. -/
structure Declares (parse : Modifiers → Span → (input : List Token) → Outcome input VariableDecl)
    (ends : Kind → Bool) (tokens : List Token) (decl : VariableDecl) (front : List Token)
    (before : Modifiers) (name : Token) (more : List Token) : Prop where
  tokens_eq : tokens = front ++ name :: more
  modifiers : IsModifiers front before.toList
  isName : name.kind = .identifier
  starts (rest : List Token) : startsVariable (name :: (more ++ rest)) = true
  reads (start : Span) : Recognizes (parse before start) ends (name :: more) decl

theorem exists_declares_binding (eof : Token) {decl : VariableDecl}
    (hbinding : IsBinding scope tokens decl) :
    ∃ front before name more,
      Declares (binding eof scope) Kind.endsType tokens decl front before name more := by
  cases hbinding with
  | @intro front mark type name colon before behind modifiers _ hfront hname hmark hcolon htype
      hmodifiers hallowed =>
      have hnodup := modifiers.nodup
      rw [hmodifiers, List.nodup_append] at hnodup
      refine ⟨front, ⟨before, hnodup.1⟩, name, mark ++ colon :: type, rfl, hfront, hname, ?_, ?_⟩
      · intro rest
        cases hmark with
        | none => simp [startsVariable, hname, hcolon]
        | «mut» hkind => simp [startsVariable, hname, hkind, hcolon]
      · intro start rest hrest
        have hinput : name :: (mark ++ colon :: type) ++ rest =
            name :: (mark ++ colon :: (type ++ rest)) := by simp
        rw [hinput, binding_def, expecting_of_kind hname]
        apply Yields.behind
        refine (trailingMut_reads_mark hmark hcolon hmodifiers _).andThen fun _ => ?_
        rw [expecting_of_kind hcolon]
        apply Yields.behind
        refine (typeExpr_reads_type eof htype rest hrest).andThen fun _ => ?_
        rw [refusals_of_allowed hallowed, Modifiers.allowed_of_allowed hallowed]
        exact (yields_done _).reporting []

theorem initialValue_reads_none (hrest : Followed Kind.endsExpression rest) :
    (initialValue eof rest).Yields none rest [] := by
  cases rest with
  | nil => exact yields_done none
  | cons token rest =>
      rw [followed_cons] at hrest
      have hequals : token.kind ≠ .op .assign := by
        intro hkind
        simp [hkind, Kind.endsExpression, Continuation.ofKind?, UnaryOp.trailing?,
          BinaryOp.ofOperator?] at hrest
      rw [initialValue_cons, if_neg hequals]
      exact yields_done none

theorem init_of_isBinding {decl : VariableDecl} (hbinding : IsBinding scope tokens decl) :
    { decl with init := none } = decl := by
  cases hbinding with
  | intro => rfl

theorem exists_declares_variable (eof : Token) {decl : VariableDecl}
    (hdecl : IsVariable scope tokens decl) :
    ∃ front before name more,
      Declares (variableDecl eof scope) Kind.endsExpression tokens decl front before name more := by
  cases hdecl with
  | bare hbinding =>
      obtain ⟨front, before, name, more, hdeclares⟩ := exists_declares_binding eof hbinding
      refine ⟨front, before, name, more, { hdeclares with reads := fun start rest hrest => ?_ }⟩
      have hread := hdeclares.reads start rest (hrest.mono Kind.endsType_of_endsExpression)
      rw [variableDecl_def, ← init_of_isBinding hbinding]
      exact hread.andThen fun _ => (initialValue_reads_none hrest).map _
  | @initial _ value equals decl init hbinding hequals hvalue =>
      obtain ⟨front, before, name, more, rfl, hmodifiers, hname, hstarts, hreads⟩ :=
        exists_declares_binding eof hbinding
      refine ⟨front, before, name, more ++ equals :: value, by simp, hmodifiers, hname, ?_, ?_⟩
      · intro rest
        rw [List.append_assoc]
        exact hstarts _
      · intro start rest hrest
        have hinput : name :: (more ++ equals :: value) ++ rest =
            name :: more ++ equals :: (value ++ rest) := by simp
        have hends : Followed Kind.endsType (equals :: (value ++ rest)) := by
          rw [followed_cons, hequals]
          rfl
        rw [hinput, variableDecl_def]
        refine (hreads start _ hends).andThen fun _ => ?_
        rw [initialValue_cons, if_pos hequals]
        exact (((expression_reads_assignment eof hvalue rest hrest).map some).behind equals).map _

/-- The modifiers of a declaration are read up to its name. -/
theorem Declares.reads_modifiers
    {parse : Modifiers → Span → (input : List Token) → Outcome input VariableDecl}
    {ends : Kind → Bool} {decl : VariableDecl} {front more : List Token} {before : Modifiers}
    {name : Token} (hdeclares : Declares parse ends tokens decl front before name more)
    (rest : List Token) :
    (modifierList .empty (tokens ++ rest)).Yields before (name :: (more ++ rest)) [] := by
  have hends : Followed Kind.endsModifiers (name :: (more ++ rest)) := by
    rw [followed_cons, hdeclares.isName]
    rfl
  rw [hdeclares.tokens_eq, List.append_assoc]
  exact modifierList_reads_modifiers hdeclares.modifiers rfl _ hends

theorem Declares.headed
    {parse : Modifiers → Span → (input : List Token) → Outcome input VariableDecl}
    {ends : Kind → Bool} {decl : VariableDecl} {front more : List Token} {before : Modifiers}
    {name : Token} (hdeclares : Declares parse ends tokens decl front before name more) :
    Headed Kind.startsStatement tokens := by
  rw [hdeclares.tokens_eq]
  refine headed_of_isModifiers hdeclares.modifiers rfl rfl (headed_cons ?_ more)
  rw [hdeclares.isName]
  rfl

theorem parameter_reads_binding (eof : Token) {decl : VariableDecl}
    (hbinding : IsBinding .parameter tokens decl) :
    ReadItem (parameter eof) .rparen tokens decl := by
  obtain ⟨front, before, name, more, hdeclares⟩ := exists_declares_binding eof hbinding
  refine ⟨hdeclares.headed.mono Kind.startsItem_of_startsStatement, fun rest hrest => ?_⟩
  rw [parameter_def]
  refine (hdeclares.reads_modifiers rest).andThen fun _ => ?_
  exact hdeclares.reads _ rest (hrest.mono (Kind.endsType_of_endsItem .rparen))

theorem parameters_reads_parameters (eof : Token) {decls : List VariableDecl}
    (hparams : Bracketed .lparen .rparen (IsBinding .parameter) tokens decls) (rest : List Token) :
    (parameters eof (tokens ++ rest)).Yields decls rest [] := by
  cases hparams with
  | @intro first last breaks items _ hfirst hbreaks hitems hlast =>
      have hread := hitems.imp fun _ _ => parameter_reads_binding eof
      have hinput : first :: (breaks ++ (items ++ [last])) ++ rest =
          first :: (breaks ++ (items ++ last :: rest)) := by simp
      rw [hinput, parameters_def, expecting_of_kind hfirst]
      apply Yields.behind
      refine (listOf_reads_commas .rparen hlast hbreaks hread).andThen fun _ => ?_
      rw [expecting_of_kind hlast]
      exact (yields_done _).behind last

theorem identifier_reads_name (eof : Token) {name : String} (hname : IsIdentifier tokens name) :
    ReadItem (fun inner => (expect eof .identifier inner).map Token.text) .rbracket tokens name := by
  cases hname with
  | @intro token hkind =>
      refine ⟨headed_cons (by rw [hkind]; rfl) [], fun rest _ => ?_⟩
      change ((expect eof .identifier (token :: rest)).map Token.text).Yields _ _ _
      rw [expect_of_kind hkind]
      exact ((yields_done token).behind token).map Token.text

theorem generics_reads_names (eof : Token) {names : Option (List String)}
    (hnames : Optional .lbracket .rbracket IsIdentifier tokens names)
    (hrest : Followed Kind.endsType rest) :
    (generics eof (tokens ++ rest)).Yields (names.getD []) rest [] := by
  rw [generics_def]
  refine Yields.map (delimited_reads_optional .rbracket ?_ hrest) (Option.getD · [])
  cases hnames with
  | none => exact .none
  | some hitems =>
      cases hitems with
      | intro hfirst hbreaks hitems hlast =>
          have hread := hitems.imp fun _ _ => identifier_reads_name eof
          exact .some (.intro hfirst hbreaks hread hlast)

/-- Kinds that end a signature, so that no type follows. -/
def Kind.endsSignature (kind : Kind) : Bool :=
  kind.endsType && kind ≠ .punct .colon

theorem returnType_reads_return (eof : Token) {type : Ty} (hreturns : IsReturn tokens type) :
    Recognizes (returnType eof) Kind.endsSignature tokens type := by
  intro rest hrest
  cases hreturns with
  | none =>
      cases rest with
      | nil => exact yields_done _
      | cons token rest =>
          rw [followed_cons, Kind.endsSignature, Bool.and_eq_true] at hrest
          rw [List.nil_append, returnType_cons, if_neg (by simpa using hrest.2)]
          exact yields_done _
  | @some colon _ _ hcolon htype =>
      have hends := hrest.mono fun kind hkind => (Bool.and_eq_true_iff.mp hkind).1
      rw [List.cons_append, returnType_cons, if_pos hcolon]
      exact (typeExpr_reads_type eof htype rest hends).behind colon

/-- A function from its name to its result is read behind its modifiers and its keyword. -/
theorem exists_signature (eof : Token) {declared : Signature}
    (hsignature : IsSignature scope tokens declared) :
    ∃ front keyword more, tokens = front ++ keyword :: more ∧
      IsModifiers front declared.modifiers.toList ∧
      Allowed declared.modifiers scope .function ∧ keyword.kind = .keyword .fx ∧
      Recognizes (signature eof scope declared.modifiers) Kind.endsSignature more declared := by
  cases hsignature with
  | @intro front names params returns keyword name modifiers generics decls type hfront hallowed
      hkeyword hname hnames hparams hreturns =>
      refine ⟨front, keyword, _, rfl, hfront, hallowed, hkeyword, fun rest hrest => ?_⟩
      have hends : Followed Kind.endsType (params ++ (returns ++ rest)) := by
        cases hparams with
        | intro hfirst _ _ _ =>
            rw [List.cons_append, followed_cons, hfirst]
            rfl
      have hinput : name :: (names ++ (params ++ returns)) ++ rest =
          name :: (names ++ (params ++ (returns ++ rest))) := by simp
      rw [hinput, signature_def, expecting_of_kind hname]
      apply Yields.behind
      refine (generics_reads_names eof hnames hends).andThen fun _ => ?_
      refine (parameters_reads_parameters eof hparams _).andThen fun _ => ?_
      exact (returnType_reads_return eof hreturns rest hrest).map _

end Declarations

end KCompiler
