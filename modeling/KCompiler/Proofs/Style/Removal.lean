import KCompiler.Proofs.Completeness.Module
import KCompiler.Proofs.Grammar.Replacement

/-! # Parentheses that could go

The remark on a pair of parentheses advises to remove it. For a file that is parsed without errors
the advice is good: without the two tokens it is parsed to the same module, again without errors.
There is one exception. A parenthesis lets its contents begin on the next line, and the keyword of a
condition does not: where a line break stands behind the opening parenthesis of a whole condition,
the file is not accepted without the pair.
-/

namespace KCompiler

namespace Grammar

open Style

variable {tokens inside : List Token} {first last : Token} {value : Expr}

/-! ## One operand

A pair of parentheses, or a single token, is not put together from smaller balanced parts. If it
is an expression, it is one without operators.
-/

/-- Tokens of which no balanced part can be split off. -/
def Indivisible (tokens : List Token) : Prop :=
  ∀ front back, tokens = front ++ back → Balanced front → front = [] ∨ back = []

theorem indivisible_singleton (token : Token) : Indivisible [token] := by
  intro front back htokens _
  rcases List.singleton_eq_append_iff.mp htokens with ⟨rfl, -⟩ | ⟨-, rfl⟩
  · exact .inl rfl
  · exact .inr rfl

theorem indivisible_of_paired (hpair : Paired tokens) : Indivisible tokens := by
  rintro front back rfl hfront
  by_contra hboth
  rw [not_or] at hboth
  have hless := hpair.closes_lt hboth.1 hboth.2
  have heven := hfront.even
  omega

namespace Indivisible

theorem trailing (hwhole : Indivisible tokens) (hvalue : IsTrailing tokens value) :
    IsPrimary tokens value := by
  cases hvalue with
  | primary hprimary => exact hprimary
  | trailing hvalue _ =>
      have hnil := hwhole _ _ rfl (closed_balanced.expressions.trailing hvalue)
      simp [(Ladder.headed_of_isTrailing hvalue).ne_nil] at hnil

theorem unary (hwhole : Indivisible tokens) (hvalue : IsUnary tokens value) :
    IsPrimary tokens value := by
  cases hvalue with
  | trailing htrailing => exact hwhole.trailing htrailing
  | @leading token operand _ _ hop hvalue =>
      have hsingle : Balanced [token] :=
        closed_balanced.expressions.token (Kind.inExpression_of_leadingOf? hop)
      have hnil := hwhole [token] operand rfl hsingle
      simp [(Ladder.headed_of_isUnary hvalue).ne_nil] at hnil

theorem level (hwhole : Indivisible tokens) {ladder : List (List BinaryOp)}
    (hvalue : IsLevel ladder tokens value) : IsPrimary tokens value := by
  induction ladder with
  | nil =>
      cases hvalue with
      | unary hunary => exact hwhole.unary hunary
  | cons ops tighter ih =>
      cases hvalue with
      | tighter hlevel => exact ih hlevel
      | binary hleft _ _ =>
          have hnil := hwhole _ _ rfl (closed_balanced.expressions.level hleft)
          simp [(Ladder.headed_of_isLevel hleft).ne_nil] at hnil

theorem cast (hwhole : Indivisible tokens) (hvalue : IsCast tokens value) :
    IsPrimary tokens value := by
  cases hvalue with
  | level hlevel => exact hwhole.level hlevel
  | cast hvalue _ _ =>
      have hnil := hwhole _ _ rfl (closed_balanced.expressions.cast hvalue)
      simp [(Ladder.headed_of_isCast hvalue).ne_nil] at hnil

theorem assignment (hwhole : Indivisible tokens) (hvalue : IsAssignment tokens value) :
    IsPrimary tokens value := by
  cases hvalue with
  | cast hcast => exact hwhole.cast hcast
  | assign hleft _ _ =>
      have hnil := hwhole _ _ rfl (closed_balanced.expressions.cast hleft)
      simp [(Ladder.headed_of_isCast hleft).ne_nil] at hnil

end Indivisible

/-! ## Taking a pair away -/

/-- Tokens that do not begin with a line break. -/
def BeginsHere (tokens : List Token) : Prop :=
  ∀ token ∈ tokens.head?, token.kind ≠ .newline

theorem BeginsHere.eq_of_newlines {breaks : List Token} (hbegins : BeginsHere (breaks ++ tokens))
    (hbreaks : Newlines breaks) : breaks = [] := by
  cases breaks with
  | nil => rfl
  | cons token breaks => exact absurd (hbreaks token (by simp)) (hbegins token (by simp))

theorem beginsHere_of_paired (hpair : Paired tokens) : BeginsHere tokens := by
  obtain ⟨opening, more, rfl, hopening, -⟩ := Edit.exists_cons_of_paired hpair
  simp [BeginsHere, hopening]

/-- A pair that is an operand encloses an expression of the same value, behind line breaks. -/
theorem exists_of_group (hfirst : first.kind = .punct .lparen)
    (hvalue : IsPrimary (first :: (inside ++ [last])) value) :
    ∃ breaks tokens, inside = breaks ++ tokens ∧ Newlines breaks ∧ IsAssignment tokens value := by
  generalize hpair : first :: (inside ++ [last]) = pair at hvalue
  cases hvalue with
  | literal _ => simp at hpair
  | name _ => simp at hpair
  | call hname _ _ _ =>
      obtain ⟨rfl, -⟩ := List.cons.inj hpair
      simp [IsName, hfirst, Kind.isBuiltin] at hname
  | @group _ _ breaks tokens _ _ hbreaks hvalue _ =>
      obtain ⟨rfl, hrest⟩ := List.cons.inj hpair
      rw [← List.append_assoc] at hrest
      obtain ⟨rfl, -⟩ := List.append_inj' hrest rfl
      exact ⟨breaks, tokens, rfl, hbreaks, hvalue⟩

theorem isAssignment_of_group (hfirst : first.kind = .punct .lparen) (hbegins : BeginsHere inside)
    (hvalue : IsPrimary (first :: (inside ++ [last])) value) : IsAssignment inside value := by
  obtain ⟨breaks, tokens, rfl, hbreaks, hinside⟩ := exists_of_group hfirst hvalue
  obtain rfl := hbegins.eq_of_newlines hbreaks
  exact hinside

/-- A list in parentheses, by what stands between them. -/
theorem commas_of_bracketed {α : Type} {item : List Token → α → Prop} {values : List α}
    (hbegins : BeginsHere inside)
    (hitems : Bracketed .lparen .rparen item (first :: (inside ++ [last])) values) :
    Commas item inside values := by
  generalize hpair : first :: (inside ++ [last]) = pair at hitems
  cases hitems with
  | intro _ hbreaks hitems _ =>
      obtain ⟨rfl, hrest⟩ := List.cons.inj hpair
      rw [← List.append_assoc] at hrest
      obtain ⟨rfl, -⟩ := List.append_inj' hrest rfl
      obtain rfl := hbegins.eq_of_newlines hbreaks
      exact hitems

/-- The one argument in doubled parentheses needs only one pair of them. -/
theorem bracketed_of_commas {values : List Expr} (hpair : Paired inside)
    (hitems : Commas IsAssignment inside values) :
    Bracketed .lparen .rparen IsAssignment inside values := by
  have hwhole := indivisible_of_paired hpair
  cases hitems with
  | nil =>
      obtain ⟨opening, more, hnil, -, -⟩ := Edit.exists_cons_of_paired hpair
      cases hnil
  | last hvalue =>
      have hgroup := hwhole.assignment hvalue
      cases hpair with
      | intro hfirst _ hlast =>
          obtain ⟨breaks, tokens, rfl, hbreaks, hvalue⟩ := exists_of_group hfirst hgroup
          rw [List.append_assoc]
          exact .intro hfirst hbreaks (.last hvalue) hlast
  | cons hitem _ _ _ =>
      have hnil := hwhole _ _ rfl (closed_balanced.expressions.assignment hitem)
      simp [(Ladder.headed_of_isAssignment hitem).ne_nil] at hnil

theorem not_inExpression_of_takesCondition {kind : Kind} (hkind : kind.takesCondition) :
    ¬(kind.inExpression ∨ kind.isParen) := by
  rcases Kind.eq_of_takesCondition hkind with rfl | rfl
  · simp [Kind.inExpression, Kind.isParen]
  · simp [Kind.inExpression, Kind.isParen]

namespace Edit

variable {before behind : List Token}

/-- A pair of parentheses goes and what it encloses stays. -/
def unwrap (before : List Token) (first : Token) (inside : List Token) (last : Token)
    (behind : List Token) : Edit where
  before := before
  pair := first :: (inside ++ [last])
  instead := inside
  behind := behind

/-- One pair of two that enclose the same can go, from a group as well as from the argument of a
call; parameters are never in doubled parentheses. -/
theorem swapsIn_of_doubled (hfirst : first.kind = .punct .lparen)
    (hlast : last.kind = .punct .rparen) (hinside : Paired inside) :
    (unwrap before first inside last behind).SwapsIn := by
  have hbegins := beginsHere_of_paired hinside
  have hswaps : (unwrap before first inside last behind).SwapsOperands :=
    { paired := .intro hfirst hinside.balanced hlast
      group := fun hvalue =>
        (indivisible_of_paired hinside).assignment (isAssignment_of_group hfirst hbegins hvalue)
      arguments := fun _ hargs => bracketed_of_commas hinside (commas_of_bracketed hbegins hargs) }
  refine ⟨hswaps.paired, hswaps.assignment, fun _ hparams => ?_⟩
  have hbindings := (commas_of_bracketed hbegins hparams).imp fun _ _ => closed_opensNone.binding
  have hopens : OpensNone inside := closed_opensNone.inExpressions.commas hbindings
  obtain ⟨opening, more, rfl, hopening, -⟩ := exists_cons_of_paired hinside
  exact hopens opening (by simp) hopening

theorem isPlain_of_isAtom {kind : Kind} (hatom : isAtom kind) :
    kind.isPlain ∧ kind ≠ .newline := by
  unfold isAtom at hatom
  split at hatom
  case h_8 => cases hatom
  all_goals exact ⟨rfl, by simp⟩

/-- A single token can do without parentheses where they are neither arguments nor parameters. -/
theorem swapsIn_of_single {atom : Token} (hfirst : first.kind = .punct .lparen)
    (hlast : last.kind = .punct .rparen) (hatom : isAtom atom.kind)
    (hbefore : ∀ callee ∈ before.getLast?, ¬endsCallee callee.kind) :
    (unwrap before first [atom] last behind).SwapsIn := by
  have hcallee : ¬(unwrap before first [atom] last behind).FollowsCallee := by
    rintro ⟨callee, hmem, hends⟩
    exact hbefore callee hmem hends
  have hkind := isPlain_of_isAtom hatom
  have hswaps : (unwrap before first [atom] last behind).SwapsOperands :=
    { paired := .intro hfirst (closed_balanced.token hkind.1) hlast
      group := fun hvalue => (indivisible_singleton atom).assignment
        (isAssignment_of_group hfirst (by simpa [BeginsHere] using hkind.2) hvalue)
      arguments := fun hfollows => absurd hfollows hcallee }
  exact ⟨hswaps.paired, hswaps.assignment, fun hfollows => absurd hfollows hcallee⟩

/-- The parentheses around a whole condition can go unless the condition begins on the next
line. -/
theorem swapsIn_of_condition {front back : List Token} {keyword brace : Token}
    (hfirst : first.kind = .punct .lparen) (hlast : last.kind = .punct .rparen)
    (hinside : Balanced inside) (hbegins : BeginsHere inside)
    (hkeyword : keyword.kind.takesCondition) (hbrace : brace.kind = .punct .lbrace) :
    (unwrap (front ++ [keyword]) first inside last (brace :: back)).SwapsIn where
  paired := .intro hfirst hinside hlast
  expression {tokens value} hvalue := by
    rintro pre post hpre hpost rfl
    -- No expression contains the keyword or the brace, so that the pair is all of it.
    obtain rfl : pre = [] := by
      rcases List.suffix_concat_iff.mp hpre with hnil | ⟨more, rfl, -⟩
      · exact hnil
      · exact absurd (kinds_of_isAssignment hvalue (by simp))
          (not_inExpression_of_takesCondition hkeyword)
    obtain rfl : post = [] := by
      rcases List.prefix_cons_iff.mp hpost with hnil | ⟨more, rfl, -⟩
      · exact hnil
      · have hkind := kinds_of_isAssignment hvalue (by simp : brace ∈ _)
        simp [hbrace, Kind.inExpression, Kind.isParen] at hkind
    have hpair : Paired (first :: (inside ++ [last])) := .intro hfirst hinside hlast
    rw [List.nil_append, List.append_nil] at hvalue ⊢
    exact isAssignment_of_group hfirst hbegins ((indivisible_of_paired hpair).assignment hvalue)
  parameters := by
    rintro decls ⟨callee, hmem, hends⟩
    obtain rfl : keyword = callee := by simpa [unwrap] using hmem
    rcases Kind.eq_of_takesCondition hkeyword with hkind | hkind <;> simp [hkind, endsCallee] at hends

end Edit

/-! ## Where a condition begins -/

/-- Every keyword of a condition has an operand right behind it. -/
def Guarded (tokens : List Token) : Prop :=
  ∀ pre keyword post, tokens = pre ++ keyword :: post → keyword.kind.takesCondition →
    Headed Kind.startsOperand post

theorem Guarded.append {front back : List Token} (hfront : Guarded front) (hback : Guarded back) :
    Guarded (front ++ back) := by
  intro pre keyword post htokens hkeyword
  rcases List.append_eq_append_iff.mp htokens with ⟨between, rfl, rfl⟩ | ⟨taken, rfl, hpost⟩
  · exact hback between keyword post rfl hkeyword
  · cases taken with
    | nil => exact hback [] keyword post hpost.symm hkeyword
    | cons token taken =>
        obtain ⟨rfl, rfl⟩ := List.cons.inj hpost
        exact (hfront pre keyword taken rfl hkeyword).append back

theorem guarded_singleton {token : Token} (hkind : ¬token.kind.takesCondition) :
    Guarded [token] := by
  intro pre keyword post htokens hkeyword
  obtain rfl : keyword = token := by
    have hmem : keyword ∈ [token] := by simp [htokens]
    simpa using hmem
  exact absurd hkeyword hkind

theorem closed_guarded : ClosedInPrograms Guarded where
  nil := by simp [Guarded]
  append := .append
  token hkind := by
    refine guarded_singleton fun hkeyword => ?_
    simp [Kind.isPlain, hkeyword] at hkind
  enclosed {first last inside} hfirst hlast hinside := by
    have hopening : Guarded [first] := guarded_singleton (by simp [hfirst, Kind.takesCondition])
    have hclosing : Guarded [last] := guarded_singleton (by simp [hlast, Kind.takesCondition])
    exact hopening.append (hinside.append hclosing)
  condition {keyword tokens} _ hheaded htokens := by
    intro pre other post hsplit hother
    cases pre with
    | nil =>
        obtain ⟨rfl, rfl⟩ := List.cons.inj hsplit
        exact hheaded
    | cons _ pre =>
        obtain ⟨rfl, rfl⟩ := List.cons.inj hsplit
        exact htokens pre other post rfl hother

/-- A module has no condition that begins on the line behind its keyword. -/
theorem not_isModule_of_newline {pre post : List Token} {keyword newline : Token}
    (hkeyword : keyword.kind.takesCondition) (hnewline : newline.kind = .newline)
    (program : Module) : ¬IsModule (pre ++ keyword :: newline :: post) program := by
  intro hmodule
  have hguarded := closed_guarded.module hmodule pre keyword (newline :: post) rfl hkeyword
  obtain ⟨head, more, hpost, hstarts⟩ := hguarded
  obtain ⟨rfl, -⟩ := List.cons.inj hpost
  rw [hnewline] at hstarts
  cases hstarts

end Grammar

/-! ## What is reported -/

namespace Style

variable {tokens before inside behind : List Token} {first last : Token}

/-- A pair of parentheses that could go, by the indices of its tokens. -/
structure Pair where
  opened : Nat
  closed : Nat
  why : Redundancy
  deriving DecidableEq

/-- The pairs that are remarked on, by where they open. -/
def reported (tokens : List Token) : List Pair :=
  (matchParens tokens).zipIdx.filterMap fun (closed?, opened) => do
    let closed ← closed?
    let why ← redundancy? tokens (matchParens tokens) opened closed
    return ⟨opened, closed, why⟩

namespace Pair

/-- The remark on a pair. -/
def finding (tokens : List Token) (pair : Pair) : Finding :=
  ⟨.redundantParens pair.why, spanBetween tokens pair.opened pair.closed⟩

/-- The tokens without the two of a pair. -/
def remove (tokens : List Token) (pair : Pair) : List Token :=
  (tokens.eraseIdx pair.closed).eraseIdx pair.opened

/-- A pair and what stands around it. -/
structure Splits (pair : Pair) (tokens before : List Token) (first : Token) (inside : List Token)
    (last : Token) (behind : List Token) : Prop where
  tokens_eq : tokens = before ++ first :: (inside ++ last :: behind)
  opened_eq : pair.opened = before.length
  closed_eq : pair.closed = before.length + inside.length + 1
  opening : first.kind = .punct .lparen
  closing : last.kind = .punct .rparen
  balanced : Balanced inside

end Pair

theorem redundantParens_eq (tokens : List Token) :
    redundantParens tokens = (reported tokens).map (Pair.finding tokens) := by
  rw [reported, List.map_filterMap, redundantParens]
  refine List.filterMap_congr fun entry _ => ?_
  obtain ⟨closed?, opened⟩ := entry
  cases closed? with
  | none => rfl
  | some closed =>
      cases hwhy : redundancy? tokens (matchParens tokens) opened closed with
      | none => simp [hwhy]
      | some why => simp [hwhy, Pair.finding]

theorem mem_reported {pair : Pair} : pair ∈ reported tokens ↔
    (matchParens tokens)[pair.opened]? = some (some pair.closed) ∧
      redundancy? tokens (matchParens tokens) pair.opened pair.closed = some pair.why := by
  simp only [reported, List.mem_filterMap, Prod.exists, List.mem_zipIdx_iff_getElem?]
  constructor
  · rintro ⟨closed?, opened, hclosed, hpair⟩
    cases closed? with
    | none => cases hpair
    | some closed =>
        cases hwhy : redundancy? tokens (matchParens tokens) opened closed with
        | none => simp [hwhy] at hpair
        | some why =>
            obtain rfl : ⟨opened, closed, why⟩ = pair := by simpa [hwhy] using hpair
            exact ⟨hclosed, hwhy⟩
  · rintro ⟨hclosed, hwhy⟩
    exact ⟨some pair.closed, pair.opened, hclosed, by simp [hwhy]⟩

theorem exists_splits {pair : Pair} (hpair : pair ∈ reported tokens) :
    ∃ before first inside last behind, pair.Splits tokens before first inside last behind := by
  obtain ⟨before, first, inside, last, behind, htokens, hopened, hclosed, hfirst, hinside, hlast⟩ :=
    exists_of_matchFrom (mem_reported.mp hpair).1
  exact ⟨before, first, inside, last, behind, htokens, hopened.symm, by omega, hfirst, hlast,
    hinside⟩

/-- Why a pair of parentheses could go, by what stands before, in and behind it. -/
inductive Unneeded : List Token → List Token → List Token → Redundancy → Prop
  | condition {front inside back : List Token} {keyword brace : Token}
      (hkeyword : keyword.kind.takesCondition) (hbrace : brace.kind = .punct .lbrace) :
      Unneeded (front ++ [keyword]) inside (brace :: back) .condition
  | doubled {before inside behind : List Token} (hinside : Paired inside) :
      Unneeded before inside behind .doubled
  | singleValue {before behind : List Token} {atom : Token} (hatom : isAtom atom.kind)
      (hbefore : ∀ callee ∈ before.getLast?, ¬endsCallee callee.kind) :
      Unneeded before [atom] behind .singleValue

theorem kindAt_length (front back : List Token) (token : Token) :
    kindAt (front ++ token :: back) front.length = token.kind := by
  simp [kindAt]

theorem kindAt_of_head {index : Nat} {front back : List Token} (hindex : index = front.length) :
    kindAt (front ++ back) index = (back.head?.map Token.kind).getD .eof := by
  subst hindex
  cases back with
  | nil => simp [kindAt]
  | cons token back => exact kindAt_length front back token

namespace Pair.Splits

variable {pair : Pair} (hsplits : pair.Splits tokens before first inside last behind)

include hsplits

theorem kindAt_before : (if pair.opened = 0 then none else some (kindAt tokens (pair.opened - 1))) =
    before.getLast?.map Token.kind := by
  rw [hsplits.opened_eq, hsplits.tokens_eq]
  rcases List.eq_nil_or_concat before with rfl | ⟨front, token, rfl⟩
  · rfl
  · simp [kindAt]

theorem kindAt_inside : kindAt tokens (pair.opened + 1) =
    (((inside ++ last :: behind).head?).map Token.kind).getD .eof := by
  rw [hsplits.tokens_eq, List.append_cons]
  exact kindAt_of_head (by simp [hsplits.opened_eq])

theorem kindAt_behind : kindAt tokens (pair.closed + 1) =
    (behind.head?.map Token.kind).getD .eof := by
  have htokens : tokens = before ++ first :: (inside ++ [last]) ++ behind := by
    simp [hsplits.tokens_eq]
  rw [htokens]
  refine kindAt_of_head ?_
  simp only [hsplits.closed_eq, List.length_append, List.length_cons, List.length_nil]
  omega

theorem remove_eq : pair.remove tokens = before ++ (inside ++ behind) := by
  have htokens : tokens = (before ++ first :: inside) ++ last :: behind := by
    simp [hsplits.tokens_eq]
  have hclosed : pair.closed = (before ++ first :: inside).length := by
    simp only [hsplits.closed_eq, List.length_append, List.length_cons]
    omega
  rw [remove, htokens, hclosed, hsplits.opened_eq, List.eraseIdx_append_of_length_le (Nat.le_refl _)]
  simp [List.eraseIdx_append_of_length_le]

/-- Of two pairs that open and close next to each other the inner one is all that the outer one
encloses. -/
theorem paired_of_doubled
    (hinner : (matchParens tokens)[pair.opened + 1]? = some (some (pair.closed - 1))) :
    Paired inside := by
  obtain ⟨front, opening, middle, closing, back, htokens, hfront, hclosed, hopening, hmiddle,
    hclosing⟩ := exists_of_matchFrom hinner
  have hlength : inside.length = (opening :: (middle ++ [closing])).length := by
    have hopened := hsplits.opened_eq
    have hlast := hsplits.closed_eq
    simp only [List.length_cons, List.length_append, List.length_nil]
    omega
  have hsame : before ++ [first] ++ (inside ++ last :: behind) =
      front ++ (opening :: (middle ++ [closing]) ++ back) := by
    rw [← List.append_cons, ← hsplits.tokens_eq, htokens]
    simp
  obtain ⟨-, hrest⟩ := List.append_inj hsame (by simp [hfront, hsplits.opened_eq])
  obtain ⟨rfl, -⟩ := List.append_inj hrest hlength
  exact .intro hopening hmiddle hclosing

/-- The reasons that are given for a pair. -/
theorem unneeded
    (hwhy : redundancy? tokens (matchParens tokens) pair.opened pair.closed = some pair.why) :
    Unneeded before inside behind pair.why := by
  unfold redundancy? at hwhy
  simp only [hsplits.kindAt_before] at hwhy
  split at hwhy
  next hcondition =>
    obtain ⟨hkeyword, hbrace⟩ := hcondition
    rw [← Option.some.inj hwhy]
    obtain ⟨keyword, hlast, hkind⟩ : ∃ keyword, before.getLast? = some keyword ∧
        keyword.kind.takesCondition := by
      rcases hkeyword with hkind | hkind <;>
        obtain ⟨keyword, hlast, heq⟩ := Option.map_eq_some_iff.mp hkind <;>
        exact ⟨keyword, hlast, by rw [heq]; rfl⟩
    obtain ⟨front, rfl⟩ := List.getLast?_eq_some_iff.mp hlast
    rw [hsplits.kindAt_behind] at hbrace
    cases behind with
    | nil => cases hbrace
    | cons brace back => exact .condition hkind hbrace
  next =>
    split at hwhy
    next hdoubled =>
      rw [← Option.some.inj hwhy]
      exact .doubled (hsplits.paired_of_doubled (Option.join_eq_some_iff.mp hdoubled.2))
    next =>
      split at hwhy
      next hsingle =>
        obtain ⟨hclosed, hatom, hcallee⟩ := hsingle
        rw [← Option.some.inj hwhy]
        obtain ⟨atom, rfl⟩ : ∃ atom, inside = [atom] := by
          apply List.length_eq_one_iff.mp
          have hopened := hsplits.opened_eq
          have hlast := hsplits.closed_eq
          omega
        rw [hsplits.kindAt_inside] at hatom
        refine .singleValue hatom fun callee hmem => ?_
        rw [Option.mem_def.mp hmem] at hcallee
        simpa using hcallee
      next => cases hwhy

end Pair.Splits

/-! ## Following the advice -/

namespace Pair

variable {pair : Pair} {eof : Token} {body back : List Token} {program : Module}

/-- A pair around a whole condition that begins on the next line. -/
def HoldsLine (tokens : List Token) (pair : Pair) : Prop :=
  pair.why = .condition ∧ kindAt tokens (pair.opened + 1) = .newline

instance (tokens : List Token) (pair : Pair) : Decidable (pair.HoldsLine tokens) :=
  inferInstanceAs (Decidable (pair.why = .condition ∧ kindAt tokens (pair.opened + 1) = .newline))

/-- The token that ends the input stands behind every pair. -/
theorem Splits.exists_back (hsplits : pair.Splits (body ++ [eof]) before first inside last behind)
    (heof : eof.kind = .eof) :
    ∃ back, behind = back ++ [eof] ∧ body = before ++ (first :: (inside ++ [last]) ++ back) := by
  have htokens := hsplits.tokens_eq
  rcases List.eq_nil_or_concat behind with rfl | ⟨back, token, rfl⟩
  · rw [← List.cons_append, ← List.append_assoc] at htokens
    obtain ⟨-, hlast⟩ := List.append_inj' htokens rfl
    have hclosing := hsplits.closing
    rw [← List.singleton_inj.mp hlast, heof] at hclosing
    cases hclosing
  · have hsame : body ++ [eof] = before ++ (first :: (inside ++ [last]) ++ back) ++ [token] := by
      simp [htokens]
    obtain ⟨rfl, htoken⟩ := List.append_inj' hsame rfl
    exact ⟨back, by simp [htoken], rfl⟩

/-- A pair that is not needed can be taken away from every program. -/
theorem Splits.swapsIn
    (hsplits : pair.Splits (body ++ [eof]) before first inside last (back ++ [eof]))
    (heof : eof.kind = .eof) (hunneeded : Unneeded before inside (back ++ [eof]) pair.why)
    (hline : ¬pair.HoldsLine (body ++ [eof])) :
    (Grammar.Edit.unwrap before first inside last back).SwapsIn := by
  generalize hbehind : back ++ [eof] = behind at hunneeded
  generalize hwhy : pair.why = why at hunneeded
  cases hunneeded with
  | condition hkeyword hbrace =>
      have hbegins : Grammar.BeginsHere inside := by
        intro token htoken hkind
        refine hline ⟨hwhy, ?_⟩
        simp [hsplits.kindAt_inside, List.head?_append, Option.mem_def.mp htoken, hkind]
      cases back with
      | nil =>
          obtain ⟨rfl, -⟩ := List.cons.inj hbehind
          rw [heof] at hbrace
          cases hbrace
      | cons brace back =>
          obtain ⟨rfl, -⟩ := List.cons.inj hbehind
          exact Grammar.Edit.swapsIn_of_condition hsplits.opening hsplits.closing hsplits.balanced
            hbegins hkeyword hbrace
  | doubled hinside =>
      exact Grammar.Edit.swapsIn_of_doubled hsplits.opening hsplits.closing hinside
  | singleValue hatom hbefore =>
      exact Grammar.Edit.swapsIn_of_single hsplits.opening hsplits.closing hatom hbefore

/-- Without the pair the line would end behind the keyword of the condition. -/
theorem Splits.not_isModule
    (hsplits : pair.Splits (body ++ [eof]) before first inside last (back ++ [eof]))
    (hunneeded : Unneeded before inside (back ++ [eof]) pair.why)
    (hline : pair.HoldsLine (body ++ [eof])) (program : Module) :
    ¬Grammar.IsModule (before ++ (inside ++ back)) program := by
  obtain ⟨hwhy, hkind⟩ := hline
  rw [hsplits.kindAt_inside] at hkind
  generalize back ++ [eof] = behind at hunneeded
  rw [hwhy] at hunneeded
  cases hunneeded with
  | condition hkeyword _ =>
      cases inside with
      | nil => exact absurd (hsplits.closing.symm.trans hkind) (by simp)
      | cons newline inside =>
          rw [List.append_assoc]
          exact Grammar.not_isModule_of_newline hkeyword hkind program

end Pair

/-- Without a pair that is reported a file is parsed to the same module, unless the pair holds a
condition that begins on the next line: then it is not parsed at all. -/
theorem reported_pairs_removable {eof : Token} {body : List Token} {program : Module}
    (hbody : ∀ token ∈ body, token.kind ≠ .eof) (heof : eof.kind = .eof)
    (haccepted : Accepted (body ++ [eof]) program) :
    check (body ++ [eof]) =
        (reported (body ++ [eof])).map (Pair.finding (body ++ [eof])) ++
          blankLines true (body ++ [eof]) ∧
      ∀ pair ∈ reported (body ++ [eof]),
        (¬pair.HoldsLine (body ++ [eof]) → Accepted (pair.remove (body ++ [eof])) program) ∧
        (pair.HoldsLine (body ++ [eof]) →
          ∀ other, ¬Accepted (pair.remove (body ++ [eof])) other) := by
  refine ⟨by rw [check, redundantParens_eq], fun pair hpair => ?_⟩
  obtain ⟨before, first, inside, last, behind, hsplits⟩ := exists_splits hpair
  obtain ⟨back, rfl, hsplit⟩ := hsplits.exists_back heof
  have hunneeded := hsplits.unneeded (mem_reported.mp hpair).2
  have hleft : ∀ token ∈ before ++ (inside ++ back), token.kind ≠ .eof := by
    intro token htoken
    refine hbody token ?_
    rw [hsplit]
    simp only [List.mem_append, List.mem_cons] at htoken ⊢
    tauto
  have hremove : pair.remove (body ++ [eof]) = before ++ (inside ++ back) ++ [eof] := by
    simp [hsplits.remove_eq]
  rw [hremove]
  constructor
  · intro hline
    have hmodule := (accepted_iff hbody heof).mp haccepted
    have hswaps := hsplits.swapsIn heof hunneeded hline
    have hkept := hswaps.program hmodule before back (List.suffix_refl _) (List.prefix_refl _) hsplit
    exact (accepted_iff hleft heof).mpr hkept
  · intro hline other hother
    exact hsplits.not_isModule hunneeded hline other ((accepted_iff hleft heof).mp hother)

/-- A condition in two pairs, and a call with an argument in two pairs. -/
theorem reported_pairs_removable_nested :
    let tokens := (lex "mod m\nif ((a)) \x7b\n f((b + 1))\n\x7d").tokens
    reported tokens = [⟨4, 8, .condition⟩, ⟨5, 7, .singleValue⟩, ⟨12, 18, .doubled⟩] ∧
      ∀ pair ∈ reported tokens, Accepted (pair.remove tokens) (parseModule tokens).value := by
  intro tokens
  have htokens : tokens.dropLast ++ [tokens.getLastD default] = tokens := by decide +kernel
  have haccepted : Accepted tokens (parseModule tokens).value := ⟨rfl, by decide +kernel⟩
  have hlines : ∀ pair ∈ reported tokens, ¬pair.HoldsLine tokens := by decide +kernel
  rw [← htokens] at haccepted
  have hremovable := reported_pairs_removable (by decide +kernel) (by decide +kernel) haccepted
  rw [htokens] at hremovable
  exact ⟨by decide +kernel, fun pair hpair => (hremovable.2 pair hpair).1 (hlines pair hpair)⟩

/-- A condition that begins on the line behind its parenthesis is reported, and the file without the
parentheses has an error. -/
theorem condition_on_next_line_not_removable :
    let tokens := (lex "mod m\nif (\nx) \x7b\n\x7d\n").tokens
    Accepted tokens (parseModule tokens).value ∧ reported tokens = [⟨4, 7, .condition⟩] ∧
      ∀ program, ¬Accepted (Pair.remove tokens ⟨4, 7, .condition⟩) program := by
  intro tokens
  refine ⟨⟨rfl, by decide +kernel⟩, by decide +kernel, fun program haccepted => ?_⟩
  have herror : ∃ finding ∈ (parseModule (Pair.remove tokens ⟨4, 7, .condition⟩)).findings,
      finding.isError := by decide +kernel
  obtain ⟨finding, hmem, hfinding⟩ := herror
  exact absurd hfinding (by simp [haccepted.harmless finding hmem])

end Style
end KCompiler
