import KCompiler.Proofs.Ladder.Agreement
import KCompiler.Proofs.RoundTrip.Expression

/-! # Expressions of the grammar are read

Tokens that follow a rule of the grammar are read by the parser of that rule, to the tree that
they stand for and without a finding. What stands behind them must not go on with them: each rule
comes with the kinds of tokens that end it. Rules that recurse to the left are followed by the loops of
the parser, so that their statements take along what the loop does behind them.
-/

namespace KCompiler

open Grammar Outcome

/-- An input that is used up, or goes on with a token of some kinds. -/
def Followed (ends : Kind → Bool) (rest : List Token) : Prop :=
  ∀ token ∈ rest.head?, ends token.kind

@[simp]
theorem followed_nil (ends : Kind → Bool) : Followed ends [] := by
  simp [Followed]

@[simp]
theorem followed_cons {ends : Kind → Bool} {token : Token} {rest : List Token} :
    Followed ends (token :: rest) ↔ ends token.kind := by
  simp [Followed]

theorem Followed.mono {ends weaker : Kind → Bool} {rest : List Token} (hrest : Followed ends rest)
    (hweaker : ∀ kind, ends kind → weaker kind) : Followed weaker rest :=
  fun token htoken => hweaker _ (hrest token htoken)

/-- Tokens that begin with one of some kinds. -/
def Headed (starts : Kind → Bool) (tokens : List Token) : Prop :=
  ∃ token more, tokens = token :: more ∧ starts token.kind

theorem Headed.append {starts : Kind → Bool} {tokens : List Token} (hheaded : Headed starts tokens)
    (more : List Token) : Headed starts (tokens ++ more) := by
  obtain ⟨token, others, rfl, hstarts⟩ := hheaded
  exact ⟨token, others ++ more, rfl, hstarts⟩

theorem Headed.mono {starts weaker : Kind → Bool} {tokens : List Token}
    (hheaded : Headed starts tokens) (hweaker : ∀ kind, starts kind → weaker kind) :
    Headed weaker tokens := by
  obtain ⟨token, more, rfl, hstarts⟩ := hheaded
  exact ⟨token, more, rfl, hweaker _ hstarts⟩

theorem Headed.ne_nil {starts : Kind → Bool} {tokens : List Token}
    (hheaded : Headed starts tokens) : tokens ≠ [] := by
  obtain ⟨token, more, rfl, -⟩ := hheaded
  simp

theorem headed_cons {starts : Kind → Bool} {token : Token} (hstarts : starts token.kind)
    (more : List Token) : Headed starts (token :: more) :=
  ⟨token, more, rfl, hstarts⟩

theorem skipNewlines_append {breaks : List Token} (hbreaks : Newlines breaks) (rest : List Token) :
    skipNewlines (breaks ++ rest) = skipNewlines rest := by
  apply List.dropWhile_append_of_pos
  intro token htoken
  simpa using hbreaks token htoken

theorem Headed.skipNewlines_eq {tokens : List Token} (hheaded : Headed Kind.startsItem tokens) :
    skipNewlines tokens = tokens := by
  obtain ⟨token, more, rfl, hstarts⟩ := hheaded
  apply skipNewlines_of_kind
  intro hkind
  simp [hkind, Kind.startsItem, Kind.isBoundary] at hstarts

/-! ## Lists -/

section Lists

variable {α : Type} {parse : (input : List Token) → Outcome input α} {opening closing : Punct}
  {tokens rest : List Token} {value : α} {values : List α} {last : Token}

/-- A parser reads tokens to a value if what stands behind them ends them. -/
def Recognizes (parse : (input : List Token) → Outcome input α) (ends : Kind → Bool)
    (tokens : List Token) (value : α) : Prop :=
  ∀ rest, Followed ends rest → (parse (tokens ++ rest)).Yields value rest []

theorem Recognizes.mono {ends stricter : Kind → Bool} (hreads : Recognizes parse ends tokens value)
    (hstricter : ∀ kind, stricter kind → ends kind) : Recognizes parse stricter tokens value :=
  fun rest hrest => hreads rest (hrest.mono hstricter)

/-- An item of a list that a parser reads. -/
structure ReadItem (parse : (input : List Token) → Outcome input α) (closing : Punct)
    (tokens : List Token) (value : α) : Prop where
  headed : Headed Kind.startsItem tokens
  reads : Recognizes parse (Kind.endsItem closing) tokens value

theorem skipNewlines_items (hlast : last.kind = .punct closing)
    (hitems : Commas (ReadItem parse closing) tokens values) :
    skipNewlines (tokens ++ last :: rest) = tokens ++ last :: rest := by
  cases hitems with
  | nil =>
      apply skipNewlines_of_kind
      simp [hlast]
  | last hitem => exact (hitem.headed.append _).skipNewlines_eq
  | cons hitem _ _ _ => exact ((hitem.headed.append _).append _).skipNewlines_eq

theorem itemsOf_reads_commas (hclosing : Closing closing) (hlast : last.kind = .punct closing)
    (hitems : Commas (ReadItem parse closing) tokens values) :
    (itemsOf (.punct closing) (tokens ++ last :: rest) fun inner _ => parse inner).Yields values
      (last :: rest) [] := by
  induction hitems with
  | nil =>
      rw [List.nil_append, itemsOf_cons, if_pos (.inl hlast)]
      exact yields_done []
  | last hitem =>
      obtain ⟨⟨token, more, rfl, hstarts⟩, hreads⟩ := hitem
      exact itemsOf_last_yields hclosing hstarts hlast
        (hreads (last :: rest) (by simp [Kind.endsItem, hlast]))
  | @cons _ breaks more comma _ _ hitem hcomma hbreaks hmore ih =>
      obtain ⟨⟨token, others, rfl, hstarts⟩, hreads⟩ := hitem
      have hinput : token :: others ++ comma :: (breaks ++ more) ++ last :: rest =
          token :: others ++ comma :: (breaks ++ (more ++ last :: rest)) := by simp
      rw [hinput]
      refine itemsOf_cons_yields hclosing hstarts hcomma
        (hreads _ (by simp [Kind.endsItem, hcomma])) ?_
      rwa [skipNewlines_append hbreaks, skipNewlines_items hlast hmore]

theorem listOf_reads_commas {breaks : List Token} (hclosing : Closing closing)
    (hlast : last.kind = .punct closing) (hbreaks : Newlines breaks)
    (hitems : Commas (ReadItem parse closing) tokens values) :
    (listOf (.punct closing) (breaks ++ (tokens ++ last :: rest)) fun inner _ => parse inner).Yields
      values (last :: rest) [] := by
  rw [listOf_def]
  apply Yields.within
  change (itemsOf _ (skipNewlines (breaks ++ (tokens ++ last :: rest))) fun inner _ =>
    parse inner).Yields _ _ _
  rw [skipNewlines_append hbreaks, skipNewlines_items hlast hitems]
  exact itemsOf_reads_commas hclosing hlast hitems

/-- A list in brackets is read whatever stands behind it. -/
theorem delimited_reads_bracketed {eof : Token} (hclosing : Closing closing)
    (hitems : Bracketed opening closing (ReadItem parse closing) tokens values)
    (rest : List Token) :
    (delimited eof (.punct opening) (.punct closing) (tokens ++ rest) fun inner _ =>
      parse inner).Yields (some values) rest [] := by
  cases hitems with
  | @intro first last breaks items _ hfirst hbreaks hitems hlast =>
      have hinput : first :: (breaks ++ (items ++ [last])) ++ rest =
          first :: (breaks ++ (items ++ last :: rest)) := by simp
      rw [hinput, delimited_cons, if_pos hfirst]
      apply Yields.behind
      refine (listOf_reads_commas hclosing hlast hbreaks hitems).andThen fun _ => ?_
      rw [expecting_of_kind hlast]
      exact (yields_done _).behind last

/-- Kinds that open no list. -/
def Kind.opensNot (opening : Punct) (kind : Kind) : Bool :=
  kind ≠ .punct opening

theorem delimited_reads_optional {eof : Token} {values : Option (List α)}
    (hclosing : Closing closing)
    (hitems : Optional opening closing (ReadItem parse closing) tokens values)
    (hrest : Followed (Kind.opensNot opening) rest) :
    (delimited eof (.punct opening) (.punct closing) (tokens ++ rest) fun inner _ =>
      parse inner).Yields values rest [] := by
  cases hitems with
  | none =>
      cases rest with
      | nil => exact yields_done none
      | cons token rest =>
          exact delimited_yields_none (by simpa [Kind.opensNot] using hrest)
  | some hitems => exact delimited_reads_bracketed hclosing hitems rest

/-- What stands behind a list that may be missing: the list itself, or what is behind it. -/
theorem Optional.followed {item : List Token → α → Prop} {values : Option (List α)}
    {ends : Kind → Bool} (hitems : Optional opening closing item tokens values)
    (hopening : ends (.punct opening)) (hrest : Followed ends rest) :
    Followed ends (tokens ++ rest) := by
  cases hitems with
  | none => exact hrest
  | some hitems =>
      cases hitems with
      | intro hfirst _ _ _ =>
          rw [List.cons_append, followed_cons, hfirst]
          exact hopening

end Lists

/-! ## Types -/

section Types

variable {eof : Token} {tokens : List Token} {type : Ty} {types : List Ty}

theorem ofToken?_of_isType {token : Token} {base : Ty} (hbase : IsType [token] base) :
    Ty.ofToken? token = some base := by
  cases hbase with
  | named hkind => simp [Ty.ofToken?, hkind]
  | builtin hkind => simp [Ty.ofToken?, hkind]
  | generic hbase hargs => cases hargs

theorem headed_of_isType (htype : IsType tokens type) : Headed Kind.startsItem tokens := by
  cases htype with
  | named hkind => exact headed_cons (by rw [hkind]; rfl) []
  | builtin hkind => exact headed_cons (by rw [hkind]; rfl) []
  | generic hbase hargs =>
      refine headed_cons ?_ _
      cases hbase with
      | named hkind => rw [hkind]; rfl
      | builtin hkind => rw [hkind]; rfl
      | generic _ hargs => cases hargs

theorem Kind.endsType_of_endsItem {closing : Punct} (hclosing : Closing closing) (kind : Kind)
    (hkind : kind.endsItem closing) : kind.endsType :=
  endsType_of_endsExpression kind (endsExpression_of_endsItem hclosing kind hkind)

theorem typeExpr_reads_named {token : Token} (hbase : Ty.ofToken? token = some type) :
    Recognizes (typeExpr eof) Kind.endsType [token] type := by
  intro rest hrest
  exact typeExpr_yields hbase (delimited_reads_optional .rbracket .none hrest)

mutual
theorem typeExpr_reads_type (eof : Token) :
    ∀ {tokens type}, IsType tokens type → Recognizes (typeExpr eof) Kind.endsType tokens type
  | _, _, .named hkind => typeExpr_reads_named (by simp [Ty.ofToken?, hkind])
  | _, _, .builtin hkind => typeExpr_reads_named (by simp [Ty.ofToken?, hkind])
  | _, _, .generic hbase (.intro hfirst hbreaks hitems hlast) => by
      intro rest _
      have hargs := typeExpr_reads_types eof hitems
      exact typeExpr_yields (ofToken?_of_isType hbase)
        (delimited_reads_bracketed .rbracket (.intro hfirst hbreaks hargs hlast) rest)

theorem typeExpr_reads_types (eof : Token) :
    ∀ {tokens types}, Commas IsType tokens types →
      Commas (ReadItem (typeExpr eof) .rbracket) tokens types
  | _, _, .nil => .nil
  | _, _, .last hitem => .last ⟨headed_of_isType hitem,
      (typeExpr_reads_type eof hitem).mono (Kind.endsType_of_endsItem .rbracket)⟩
  | _, _, .cons hitem hcomma hbreaks hmore => .cons ⟨headed_of_isType hitem,
      (typeExpr_reads_type eof hitem).mono (Kind.endsType_of_endsItem .rbracket)⟩ hcomma hbreaks
        (typeExpr_reads_types eof hmore)
end

end Types

/-! ## Expressions -/

/-- Kinds that end an operand and the operators around it that bind at least as tightly as
`least`. -/
def Kind.endsPower (least : Nat) (kind : Kind) : Bool :=
  kind.endsOperand && (Continuation.ofKind? kind).all (·.power < least)

/-- Kinds that begin an operand without operators. -/
def Kind.startsPrimary (kind : Kind) : Bool :=
  kind.startsExpression || kind.isBuiltin

/-- Kinds that begin an operand. -/
def Kind.startsOperand (kind : Kind) : Bool :=
  kind.startsPrimary || (Ladder.leadingOf? kind).isSome

namespace Kind

variable {least : Nat} {kind : Kind}

theorem endsOperand_of_endsPower (kind : Kind) (hkind : kind.endsPower least) : kind.endsOperand :=
  (Bool.and_eq_true_iff.mp hkind).1

theorem endsType_of_endsOperand (kind : Kind) (hkind : kind.endsOperand) : kind.endsType :=
  (Bool.and_eq_true_iff.mp hkind).1

theorem opensNot_of_endsOperand (kind : Kind) (hkind : kind.endsOperand) :
    kind.opensNot .lparen :=
  (Bool.and_eq_true_iff.mp hkind).2

theorem power_lt_of_endsPower (hkind : kind.endsPower least) {continuation : Continuation}
    (hcontinuation : Continuation.ofKind? kind = some continuation) : continuation.power < least := by
  simpa [endsPower, hcontinuation] using (Bool.and_eq_true_iff.mp hkind).2

theorem endsPower_mono {most : Nat} (hle : least ≤ most) (kind : Kind)
    (hkind : kind.endsPower least) : kind.endsPower most := by
  refine Bool.and_eq_true_iff.mpr ⟨endsOperand_of_endsPower kind hkind, ?_⟩
  cases hcontinuation : Continuation.ofKind? kind with
  | none => rfl
  | some continuation =>
      have hpower := power_lt_of_endsPower hkind hcontinuation
      simpa using Nat.lt_of_lt_of_le hpower hle

theorem endsPower_of_endsExpression (least : Nat) (kind : Kind) (hkind : kind.endsExpression) :
    kind.endsPower least := by
  obtain ⟨hoperand, hnone⟩ := Bool.and_eq_true_iff.mp hkind
  rw [Option.isNone_iff_eq_none] at hnone
  simp [endsPower, hoperand, hnone]

/-- An operator ends what binds more tightly than it does. -/
theorem endsPower_of_continuation {continuation : Continuation}
    (hcontinuation : Continuation.ofKind? kind = some continuation)
    (hpower : continuation.power < least) : kind.endsPower least := by
  have hoperand : kind.endsOperand := by
    cases kind with
    | punct mark => cases hcontinuation
    | _ => rfl
  simp [endsPower, hoperand, hcontinuation, hpower]

end Kind

namespace Ladder

variable {eof token : Token} {ops : List BinaryOp} {op : BinaryOp} {tokens rest left : List Token}
  {value result : Expr} {least : Nat} {ladder : List (List BinaryOp)}

theorem continuation_of_operatorOf? (hop : operatorOf? ops token.kind = some op) :
    Continuation.ofKind? token.kind = some (.binary op) ∧ op ∈ ops := by
  rw [operatorOf?_eq] at hop
  split at hop
  next other hkind =>
    split at hop
    next hmem =>
      cases hop
      exact ⟨hkind, hmem⟩
    next => cases hop
  next => cases hop

theorem operatorOf?_eq_none
    (hops : ∀ op, Continuation.ofKind? token.kind = some (.binary op) → op ∉ ops) :
    operatorOf? ops token.kind = none := by
  cases hop : operatorOf? ops token.kind with
  | none => rfl
  | some op =>
      obtain ⟨hkind, hmem⟩ := continuation_of_operatorOf? hop
      exact absurd hmem (hops op hkind)

theorem continuation_of_trailingOf? {op : UnaryOp} (hop : trailingOf? token.kind = some op) :
    Continuation.ofKind? token.kind = some (.trailing op) := by
  rw [trailingOf?_eq] at hop
  split at hop
  next other hkind =>
    cases hop
    exact hkind
  next => cases hop

/-- What a ladder does behind its first operand: the operators of its loosest level. -/
def climb (eof : Token) (ladder : List (List BinaryOp)) (first : Expr) (input : List Token) :
    Outcome input Expr :=
  match ladder with
  | [] => .done first
  | ops :: tighter => chain eof ops tighter first input

/-- The least power of the operators in the operands of a ladder. -/
def innerPower (least : Nat) : List (List BinaryOp) → Nat
  | [] => least
  | _ :: _ => least + 2

theorem le_innerPower (least : Nat) (ladder : List (List BinaryOp)) :
    least ≤ innerPower least ladder := by
  cases ladder <;> simp [innerPower]

/-- A ladder stops before an operator that is looser than all of its levels. -/
theorem climb_yields (eof : Token) (hgraded : Graded least ladder)
    (hrest : Followed (Kind.endsPower least) rest) (first : Expr) :
    (climb eof ladder first rest).Yields first rest [] := by
  cases ladder with
  | nil => exact yields_done first
  | cons ops tighter =>
      cases rest with
      | nil =>
          rw [climb, chain]
          exact yields_done first
      | cons token rest =>
          rw [followed_cons] at hrest
          have hnone : operatorOf? ops token.kind = none := by
            refine operatorOf?_eq_none fun op hkind hmem => ?_
            have hpower := Kind.power_lt_of_endsPower hrest hkind
            have hleast := ((hgraded.1 op).mp hmem).1
            simp only [Continuation.power] at hpower
            omega
          rw [climb, chain]
          simp only [hnone]
          exact yields_done first

theorem isName_opening (hname : IsName token) : Opening.ofToken? token = some (.name token.text) := by
  rcases hname with hkind | hkind
  · exact Opening.ofToken?_name hkind
  · obtain ⟨type, hkind⟩ := Kind.exists_of_isBuiltin hkind
    simp [Opening.ofToken?, hkind]

theorem startsPrimary_of_isName (hname : IsName token) : token.kind.startsPrimary := by
  rcases hname with hkind | hkind
  · rw [hkind]; rfl
  · simp [Kind.startsPrimary, hkind]

theorem headed_of_isPrimary (hprimary : IsPrimary tokens value) :
    Headed Kind.startsPrimary tokens := by
  cases hprimary with
  | literal hvalue =>
      refine headed_cons ?_ []
      simp [Kind.startsPrimary, Literal.startsExpression_of_ofToken? hvalue]
  | name hname => exact headed_cons (startsPrimary_of_isName hname) []
  | call hname _ _ _ => exact headed_cons (startsPrimary_of_isName hname) _
  | group hfirst _ _ _ => exact headed_cons (by rw [hfirst]; rfl) _

theorem headed_of_isTrailing : ∀ {tokens value}, IsTrailing tokens value →
    Headed Kind.startsPrimary tokens
  | _, _, .primary hprimary => headed_of_isPrimary hprimary
  | _, _, .trailing hvalue _ => (headed_of_isTrailing hvalue).append _

theorem headed_of_isUnary (hunary : IsUnary tokens value) : Headed Kind.startsOperand tokens := by
  cases hunary with
  | trailing htrailing =>
      refine (headed_of_isTrailing htrailing).mono fun kind hkind => ?_
      simp [Kind.startsOperand, hkind]
  | leading hop _ =>
      refine headed_cons ?_ _
      simp [Kind.startsOperand, hop]

theorem headed_of_isLevel : ∀ {ladder tokens value}, IsLevel ladder tokens value →
    Headed Kind.startsOperand tokens
  | _, _, _, .unary hunary => headed_of_isUnary hunary
  | _, _, _, .tighter hlevel => headed_of_isLevel hlevel
  | _, _, _, .binary hleft _ _ => (headed_of_isLevel hleft).append _

theorem headed_of_isCast : ∀ {tokens value}, IsCast tokens value →
    Headed Kind.startsOperand tokens
  | _, _, .level hlevel => headed_of_isLevel hlevel
  | _, _, .cast hvalue _ _ => (headed_of_isCast hvalue).append _

theorem headed_of_isAssignment (hvalue : IsAssignment tokens value) :
    Headed Kind.startsOperand tokens := by
  cases hvalue with
  | cast hcast => exact headed_of_isCast hcast
  | assign hleft _ _ => exact (headed_of_isCast hleft).append _

end Ladder

theorem Kind.startsStatement_of_startsOperand (kind : Kind) (hkind : kind.startsOperand) :
    kind.startsStatement := by
  simp only [startsOperand, startsPrimary, Bool.or_eq_true] at hkind
  rcases hkind with (hkind | hkind) | hkind
  · exact startsStatement_of_startsExpression kind hkind
  · obtain ⟨type, rfl⟩ := exists_of_isBuiltin hkind
    rfl
  · cases kind with
    | op operator => rfl
    | _ => cases hkind

theorem Kind.startsItem_of_startsOperand (kind : Kind) (hkind : kind.startsOperand) :
    kind.startsItem :=
  startsItem_of_startsStatement kind (startsStatement_of_startsOperand kind hkind)

theorem Kind.leadingOf?_of_startsPrimary (kind : Kind) (hkind : kind.startsPrimary) :
    Ladder.leadingOf? kind = none := by
  cases kind with
  | op operator => cases hkind
  | _ => rfl

namespace Ladder

variable (eof : Token)

theorem casts_yields {rest : List Token} (hrest : Followed (Kind.endsPower castPower) rest)
    (first : Expr) : (casts eof first rest).Yields first rest [] := by
  cases rest with
  | nil =>
      rw [casts]
      exact yields_done first
  | cons token rest =>
      rw [followed_cons] at hrest
      have hkind : token.kind ≠ .keyword .as := by
        intro has
        have hpower := Kind.power_lt_of_endsPower hrest ((eq_as_iff _).mp has)
        exact Nat.lt_irrefl _ hpower
      rw [casts, if_neg hkind]
      exact yields_done first

theorem trailers_yields {rest : List Token} (hrest : Followed (Kind.endsPower trailingPower) rest)
    (first : Expr) : (trailers first rest).Yields first rest [] := by
  cases rest with
  | nil => exact yields_done first
  | cons token rest =>
      rw [followed_cons] at hrest
      have hnone : trailingOf? token.kind = none := by
        cases hop : trailingOf? token.kind with
        | none => rfl
        | some op =>
            have hpower := Kind.power_lt_of_endsPower hrest (continuation_of_trailingOf? hop)
            exact absurd hpower (Nat.lt_irrefl _)
      rw [trailers]
      simp only [hnone]
      exact yields_done first

mutual
theorem assignment_reads_assignment : ∀ {tokens value}, IsAssignment tokens value →
    Recognizes (assignment eof) Kind.endsExpression tokens value
  | _, value, .cast hcast => by
      intro rest hrest
      have hcasts := casts_yields eof (hrest.mono (Kind.endsPower_of_endsExpression _)) value
      rw [assignment]
      refine (cast_climbs hcast (hrest.mono (Kind.endsPower_of_endsExpression _))
        hcasts).andThen fun _ => ?_
      cases rest with
      | nil => exact yields_done value
      | cons token rest =>
          rw [followed_cons] at hrest
          have hnone : operatorOf? assignments token.kind = none := by
            refine operatorOf?_eq_none fun op hkind _ => ?_
            have hpower :=
              Kind.power_lt_of_endsPower (Kind.endsPower_of_endsExpression 2 _ hrest) hkind
            exact absurd op.two_le_powers (Nat.not_le_of_lt hpower)
          simp only [hnone]
          exact yields_done value
  | _, _, @IsAssignment.assign left right token _ lhs _ hleft hop hright => by
      intro rest hrest
      obtain ⟨hkind, hmem⟩ := continuation_of_operatorOf? hop
      have hends (least : Nat) (hleast : castPower ≤ least) :
          Followed (Kind.endsPower least) (token :: (right ++ rest)) := by
        refine followed_cons.mpr (Kind.endsPower_of_continuation hkind ?_)
        refine Nat.lt_of_lt_of_le ?_ hleast
        simp [Continuation.power, powers_of_mem_assignments hmem, castPower]
      have hinput : left ++ token :: right ++ rest = left ++ token :: (right ++ rest) := by simp
      rw [hinput, assignment]
      refine (cast_climbs hleft (hends _ (Nat.le_succ _))
        (casts_yields eof (hends _ (Nat.le_refl _)) lhs)).andThen fun _ => ?_
      simp only [hop]
      exact ((assignment_reads_assignment hright rest hrest).map _).behind token

theorem cast_climbs : ∀ {tokens value}, IsCast tokens value → ∀ ⦃rest left result⦄,
    Followed (Kind.endsPower (castPower + 1)) rest →
      (casts eof value rest).Yields result left [] →
        (cast eof (tokens ++ rest)).Yields result left []
  | _, value, .level hlevel => by
      intro rest left result hrest hcasts
      have hclimb := climb_yields eof levels_graded hrest value
      rw [cast]
      refine (level_climbs hlevel levels_graded ?_ hclimb).andThen fun _ => hcasts
      exact hrest.mono (Kind.endsPower_mono (le_innerPower _ _))
  | _, _, @IsCast.cast tokens type token value target hvalue has htype => by
      intro rest left result hrest hcasts
      have hends : Followed (Kind.endsPower (castPower + 1)) (token :: (type ++ rest)) := by
        refine followed_cons.mpr (Kind.endsPower_of_continuation ((eq_as_iff _).mp has) ?_)
        exact Nat.lt_succ_self _
      have hinput : tokens ++ token :: type ++ rest = tokens ++ token :: (type ++ rest) := by simp
      rw [hinput]
      refine cast_climbs hvalue hends ?_
      rw [casts, if_pos has]
      refine ((typeExpr_reads_type eof htype rest ?_).andThen fun _ => hcasts).behind token
      exact (hrest.mono Kind.endsOperand_of_endsPower).mono Kind.endsType_of_endsOperand

theorem level_climbs : ∀ {ladder tokens value}, IsLevel ladder tokens value →
    ∀ ⦃least rest left result⦄, Graded least ladder →
      Followed (Kind.endsPower (innerPower least ladder)) rest →
        (climb eof ladder value rest).Yields result left [] →
          (level eof ladder (tokens ++ rest)).Yields result left []
  | _, _, value, .unary hunary => by
      intro least rest left result hgraded hrest hclimb
      obtain rfl : value = result := Option.some.inj hclimb.value_eq
      obtain rfl : rest = left := hclimb.rest_eq
      rw [level]
      refine unary_reads_unary hunary rest (hrest.mono (Kind.endsPower_mono ?_))
      have hleast : least + 1 = leadingPower := hgraded
      have htrailing : leadingPower ≤ trailingPower := by decide
      simp only [innerPower]
      omega
  | _, _, value, .tighter hlevel => by
      intro least rest left result hgraded hrest hclimb
      have hinner := climb_yields eof hgraded.2.2 hrest value
      rw [level]
      refine (level_climbs hlevel hgraded.2.2 ?_ hinner).andThen fun _ => hclimb
      exact hrest.mono (Kind.endsPower_mono (le_innerPower _ _))
  | _, _, _, @IsLevel.binary ops tighter first second token op lhs rhs hleft hop hright => by
      intro least rest left result hgraded hrest hclimb
      obtain ⟨hkind, hmem⟩ := continuation_of_operatorOf? hop
      have hends : Followed (Kind.endsPower (least + 2)) (token :: (second ++ rest)) := by
        refine followed_cons.mpr (Kind.endsPower_of_continuation hkind ?_)
        simp [Continuation.power, hgraded.2.1 op hmem]
      have hinput : first ++ token :: second ++ rest = first ++ token :: (second ++ rest) := by simp
      rw [hinput]
      refine level_climbs hleft hgraded hends ?_
      rw [climb, chain]
      simp only [hop]
      have hinner := climb_yields eof hgraded.2.2 hrest rhs
      have hoperand := level_climbs hright hgraded.2.2
        (hrest.mono (Kind.endsPower_mono (le_innerPower _ _))) hinner
      exact (hoperand.andThen fun _ => hclimb).behind token

theorem unary_reads_unary : ∀ {tokens value}, IsUnary tokens value →
    Recognizes (unary eof) (Kind.endsPower trailingPower) tokens value
  | _, value, .trailing htrailing => by
      intro rest hrest
      have hyields := trailing_climbs htrailing (hrest.mono Kind.endsOperand_of_endsPower)
        (trailers_yields hrest value)
      obtain ⟨token, more, rfl, hstarts⟩ := headed_of_isTrailing htrailing
      rw [List.cons_append, unary]
      simp only [Kind.leadingOf?_of_startsPrimary _ hstarts]
      exact hyields
  | _, _, @IsUnary.leading token _ _ _ hop hvalue => by
      intro rest hrest
      rw [List.cons_append, unary]
      simp only [hop]
      exact ((unary_reads_unary hvalue rest hrest).map _).behind token

theorem trailing_climbs : ∀ {tokens value}, IsTrailing tokens value → ∀ ⦃rest left result⦄,
    Followed Kind.endsOperand rest → (trailers value rest).Yields result left [] →
      (trailing eof (tokens ++ rest)).Yields result left []
  | _, _, .primary hprimary => by
      intro rest left result hrest htrailers
      rw [trailing]
      exact (primary_reads_primary hprimary rest hrest).andThen fun _ => htrailers
  | _, _, @IsTrailing.trailing tokens token _ _ hvalue hop => by
      intro rest left result hrest htrailers
      have hends : Followed Kind.endsOperand ([token] ++ rest) := by
        have hpower : token.kind.endsPower (trailingPower + 1) :=
          Kind.endsPower_of_continuation (continuation_of_trailingOf? hop) (Nat.lt_succ_self _)
        exact followed_cons.mpr (Kind.endsOperand_of_endsPower _ hpower)
      rw [List.append_assoc]
      refine trailing_climbs hvalue hends ?_
      rw [List.cons_append, List.nil_append, trailers]
      simp only [hop]
      exact htrailers.behind token

theorem primary_reads_primary : ∀ {tokens value}, IsPrimary tokens value →
    Recognizes (primary eof) Kind.endsOperand tokens value
  | _, _, @IsPrimary.literal token _ hvalue => by
      intro rest _
      rw [List.cons_append, List.nil_append, primary]
      simp only [Opening.ofToken?_literal hvalue]
      exact ((yields_done _).reporting []).behind token
  | _, _, @IsPrimary.name token hname => by
      intro rest hrest
      rw [List.cons_append, List.nil_append, primary]
      simp only [isName_opening hname]
      have htypes : (typeArguments eof rest).Yields none rest [] := by
        rw [typeArguments_def]
        exact delimited_reads_optional .rbracket .none (hrest.mono Kind.endsType_of_endsOperand)
      have hargs : (delimited eof (.punct .lparen) (.punct .rparen) rest fun inner _ =>
          assignment eof inner).Yields none rest [] :=
        delimited_reads_optional .rparen .none (hrest.mono Kind.opensNot_of_endsOperand)
      exact (htypes.andThen fun _ => hargs.map _).behind token
  | _, _, @IsPrimary.call token types args typeArgs arguments hname htypes hargs hcall => by
      intro rest hrest
      have hread : (delimited eof (.punct .lparen) (.punct .rparen) (args ++ rest) fun inner _ =>
          assignment eof inner).Yields arguments rest [] :=
        delimited_reads_optional .rparen (arguments_read hargs)
          (hrest.mono Kind.opensNot_of_endsOperand)
      have htypeArgs : (typeArguments eof (types ++ (args ++ rest))).Yields typeArgs
          (args ++ rest) [] := by
        rw [typeArguments_def]
        refine delimited_reads_optional .rbracket ?_
          (Optional.followed hargs rfl (hrest.mono Kind.endsType_of_endsOperand))
        cases htypes with
        | none => exact .none
        | some hitems =>
            cases hitems with
            | intro hfirst hbreaks hitems hlast =>
                exact .some (.intro hfirst hbreaks (typeExpr_reads_types eof hitems) hlast)
      have hvalue : Expr.ofName token.text typeArgs arguments =
          .call (.ident token.text) (typeArgs.getD []) (arguments.getD []) := by
        cases typeArgs with
        | none =>
            cases arguments with
            | none => simp at hcall
            | some arguments => rfl
        | some typeArgs => rfl
      rw [List.cons_append, List.append_assoc, primary]
      simp only [isName_opening hname]
      rw [← hvalue]
      exact (htypeArgs.andThen fun _ => hread.map _).behind token
  | _, _, @IsPrimary.group first last breaks tokens value hfirst hbreaks hvalue hlast => by
      intro rest _
      have hopening : Opening.ofToken? first = some .group := by simp [Opening.ofToken?, hfirst]
      have hends : Followed Kind.endsExpression (last :: rest) := by
        rw [followed_cons, hlast]
        rfl
      have hskip : skipNewlines (breaks ++ (tokens ++ last :: rest)) = tokens ++ last :: rest := by
        rw [skipNewlines_append hbreaks]
        have hheaded := (headed_of_isAssignment hvalue).mono Kind.startsItem_of_startsOperand
        exact (hheaded.append _).skipNewlines_eq
      have hinput : first :: (breaks ++ (tokens ++ [last])) ++ rest =
          first :: (breaks ++ (tokens ++ last :: rest)) := by simp
      rw [hinput, primary]
      simp only [hopening]
      refine Yields.behind (Yields.within ?_ _) first
      rw [hskip]
      refine (assignment_reads_assignment hvalue _ hends).andThen fun _ => ?_
      rw [expecting_of_kind hlast]
      exact (yields_done _).behind last

theorem arguments_read : ∀ {tokens arguments},
    Optional .lparen .rparen IsAssignment tokens arguments →
      Optional .lparen .rparen (ReadItem (assignment eof) .rparen) tokens arguments
  | _, _, .none => .none
  | _, _, .some (.intro hfirst hbreaks hitems hlast) =>
      .some (.intro hfirst hbreaks (items_read hitems) hlast)

theorem items_read : ∀ {tokens values}, Commas IsAssignment tokens values →
    Commas (ReadItem (assignment eof) .rparen) tokens values
  | _, _, .nil => .nil
  | _, _, .last hitem => .last
      ⟨(headed_of_isAssignment hitem).mono Kind.startsItem_of_startsOperand,
        (assignment_reads_assignment hitem).mono (Kind.endsExpression_of_endsItem .rparen)⟩
  | _, _, .cons hitem hcomma hbreaks hmore => .cons
      ⟨(headed_of_isAssignment hitem).mono Kind.startsItem_of_startsOperand,
        (assignment_reads_assignment hitem).mono (Kind.endsExpression_of_endsItem .rparen)⟩
      hcomma hbreaks (items_read hmore)
end

end Ladder

/-- An expression of the grammar is read to its tree. -/
theorem expression_reads_assignment (eof : Token) {tokens : List Token} {value : Expr}
    (hvalue : IsAssignment tokens value) :
    Recognizes (expression eof 0) Kind.endsExpression tokens value := by
  intro rest hrest
  rw [Ladder.expression_eq_assignment (Nat.zero_le 1)]
  exact Ladder.assignment_reads_assignment eof hvalue rest hrest

end KCompiler
