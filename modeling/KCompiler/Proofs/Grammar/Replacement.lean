import KCompiler.Proofs.Grammar.Closure
import KCompiler.Proofs.Style.Matching

/-! # Replacing a pair of parentheses

A pair of parentheses with all that it encloses is replaced by other tokens. Every rule of the grammar
puts balanced parts together, so that the pair lies inside one of the parts, and the rule holds of
the new tokens if it holds of the new part. What is left to show is that the new tokens can
stand where the pair stood: as an operand, as arguments of a call, or as a whole condition.
-/

namespace KCompiler.Grammar

open Style

theorem closed_balanced : ClosedInPrograms Balanced where
  nil := .nil
  append := .append
  token {token} hkind := by
    refine .singleton ?_ ?_
    · intro hparen
      simp [hparen, Kind.isPlain, Kind.isParen] at hkind
    · intro hparen
      simp [hparen, Kind.isPlain, Kind.isParen] at hkind
  enclosed := .enclosed
  condition {keyword tokens} hkeyword _ htokens := by
    have hkind : ∀ paren, Kind.isParen paren → keyword.kind ≠ paren := by
      rintro paren hparen rfl
      rcases Kind.eq_of_takesCondition hkeyword with heq | heq <;>
        simp [heq, Kind.isParen] at hparen
    have hsingle : Balanced [keyword] := .singleton (hkind _ rfl) (hkind _ rfl)
    exact hsingle.append htokens

/-- Tokens that open no parenthesis. -/
def OpensNone (tokens : List Token) : Prop :=
  ∀ token ∈ tokens, token.kind ≠ .punct .lparen

theorem closed_opensNone : ClosedUnder Kind.isPlain OpensNone where
  nil := by simp [OpensNone]
  append hfront hback := List.forall_mem_append.mpr ⟨hfront, hback⟩
  token hkind := by
    rintro _ (_ | ⟨_, ⟨⟩⟩) hparen
    simp [hparen, Kind.isPlain, Kind.isParen] at hkind

/-- A pair of parentheses in a list of tokens, and the tokens that take its place. -/
structure Edit where
  before : List Token
  pair : List Token
  instead : List Token
  behind : List Token

namespace Edit

variable {α : Type} {edit : Edit} {tokens front back inside : List Token}
  {holds other : List Token → Prop}

/-- Wherever the pair stands in a part of the tokens, something holds of the part with the
other tokens in its place. -/
def Keeps (edit : Edit) (tokens : List Token) (holds : List Token → Prop) : Prop :=
  ∀ pre post, pre <:+ edit.before → post <+: edit.behind → tokens = pre ++ (edit.pair ++ post) →
    holds (pre ++ (edit.instead ++ post))

theorem Keeps.imp (hkeeps : edit.Keeps tokens holds)
    (himp : ∀ tokens, holds tokens → other tokens) : edit.Keeps tokens other :=
  fun pre post hpre hpost htokens => himp _ (hkeeps pre post hpre hpost htokens)

theorem exists_cons_of_paired (hpair : Paired tokens) :
    ∃ first more, tokens = first :: more ∧ first.kind = .punct .lparen ∧ more ≠ [] := by
  cases hpair with
  | intro hfirst _ _ => exact ⟨_, _, rfl, hfirst, by simp⟩

theorem keeps_of_opensNone (hpair : Paired edit.pair) (htokens : OpensNone tokens) :
    edit.Keeps tokens holds := by
  rintro pre post - - rfl
  obtain ⟨first, more, hmore, hfirst, -⟩ := exists_cons_of_paired hpair
  exact absurd hfirst (htokens first (by simp [hmore]))

theorem Keeps.append (hpair : Paired edit.pair) (hbalanced : Balanced front)
    (hfront : edit.Keeps front fun tokens => holds (tokens ++ back))
    (hback : edit.Keeps back fun tokens => holds (front ++ tokens)) :
    edit.Keeps (front ++ back) holds := by
  intro pre post hpre hpost htokens
  rcases hpair.cases_append hbalanced htokens with
    ⟨between, rfl, rfl⟩ | ⟨between, rfl, rfl⟩
  · have hkept := hfront pre between hpre ((List.prefix_append _ _).trans hpost) rfl
    simpa only [List.append_assoc] using hkept
  · have hkept := hback between post ((List.suffix_append _ _).trans hpre) hpost rfl
    simpa only [List.append_assoc] using hkept

/-- A pair stands behind tokens that open no parenthesis. -/
theorem exists_between {pair pre post : List Token} (hpair : Paired pair)
    (hfront : OpensNone front) (htokens : front ++ back = pre ++ (pair ++ post)) :
    ∃ between, pre = front ++ between ∧ back = between ++ (pair ++ post) := by
  rcases List.append_eq_append_iff.mp htokens with ⟨between, hpre, hback⟩ | ⟨taken, rfl, hback⟩
  · exact ⟨between, hpre, hback⟩
  · cases taken with
    | nil => exact ⟨[], by simp, hback.symm⟩
    | cons token taken =>
        obtain ⟨first, more, rfl, hfirst, -⟩ := exists_cons_of_paired hpair
        obtain ⟨rfl, -⟩ := List.cons.inj hback
        exact absurd hfirst (hfront first (by simp))

/-- Tokens without parentheses before a part. -/
theorem Keeps.after (hpair : Paired edit.pair) (hfront : OpensNone front)
    (hback : edit.Keeps back fun tokens => holds (front ++ tokens)) :
    edit.Keeps (front ++ back) holds := by
  intro pre post hpre hpost htokens
  obtain ⟨between, rfl, rfl⟩ := exists_between hpair hfront htokens
  have hkept := hback between post ((List.suffix_append _ _).trans hpre) hpost rfl
  simpa only [List.append_assoc] using hkept

theorem Keeps.cons {token : Token} (hpair : Paired edit.pair)
    (htoken : token.kind ≠ .punct .lparen)
    (hback : edit.Keeps back fun tokens => holds (token :: tokens)) :
    edit.Keeps (token :: back) holds := by
  have hopens : OpensNone [token] := by simpa [OpensNone] using htoken
  exact Keeps.after hpair hopens hback

/-- Of two pairs at the same place one is the other. -/
theorem eq_of_paired {pair other post : List Token} (hpair : Paired pair) (hother : Paired other)
    (htokens : pair = other ++ post) : other = pair ∧ post = [] := by
  have hsame : other ++ post = [] ++ (pair ++ []) := by simp [htokens]
  rcases hpair.cases_append hother.balanced hsame with
    ⟨between, hother', hnil⟩ | ⟨between, hnil, -⟩
  · obtain ⟨rfl, rfl⟩ := List.append_eq_nil_iff.mp hnil.symm
    exact ⟨by simpa using hother', rfl⟩
  · obtain ⟨first, more, rfl, -, -⟩ := exists_cons_of_paired hother
    simp at hnil

/-- Tokens in parentheses behind others without any: the pair is those parentheses, or lies
between them. -/
theorem Keeps.enclosed {first last : Token} (hpair : Paired edit.pair) (hfront : OpensNone front)
    (hfirst : first.kind = .punct .lparen) (hlast : last.kind = .punct .rparen)
    (hbalanced : Balanced inside)
    (houter : edit.pair = first :: (inside ++ [last]) → front <:+ edit.before →
      holds (front ++ edit.instead))
    (hinside : edit.Keeps inside fun tokens => holds (front ++ first :: (tokens ++ [last]))) :
    edit.Keeps (front ++ first :: (inside ++ [last])) holds := by
  intro pre post hpre hpost htokens
  obtain ⟨between, rfl, hrest⟩ := exists_between hpair hfront htokens
  cases between with
  | nil =>
      obtain ⟨hsame, rfl⟩ := eq_of_paired (.intro hfirst hbalanced hlast) hpair hrest
      have hkept := houter hsame (by simpa using hpre)
      simpa using hkept
  | cons token between =>
      obtain ⟨rfl, hmore⟩ := List.cons.inj hrest
      rcases hpair.cases_append hbalanced hmore with ⟨inner, rfl, rfl⟩ | ⟨inner, rfl, hlast'⟩
      · have hpre' : between <:+ edit.before :=
          (List.suffix_append (front ++ [first]) between).trans (by simpa using hpre)
        have hpost' : inner <+: edit.behind := (List.prefix_append _ _).trans hpost
        have hkept := hinside between inner hpre' hpost' rfl
        simpa only [List.append_assoc, List.cons_append] using hkept
      · -- The closing parenthesis alone is no pair.
        obtain ⟨opening, others, hpair', -, hne⟩ := exists_cons_of_paired hpair
        have hlength := congrArg List.length hlast'
        have hpos := List.length_pos_iff.mpr hne
        simp only [hpair', List.length_cons, List.length_append, List.length_nil] at hlength
        omega

/-- The pair stands where arguments or parameters do. -/
def FollowsCallee (edit : Edit) : Prop :=
  ∃ callee ∈ edit.before.getLast?, endsCallee callee.kind

theorem followsCallee_of_suffix {name : Token} {more : List Token}
    (hsuffix : name :: more <:+ edit.before) (hname : endsCallee name.kind)
    (hmore : ∀ last ∈ more.getLast?, endsCallee last.kind) : edit.FollowsCallee := by
  obtain ⟨front, hbefore⟩ := hsuffix
  rw [FollowsCallee, ← hbefore, List.getLast?_append_cons, List.getLast?_cons]
  cases hlast : more.getLast? with
  | none => exact ⟨name, by simp, hname⟩
  | some last => exact ⟨last, by simp, hmore last hlast⟩

/-- The other tokens can stand for the pair in every expression. -/
structure SwapsOperands (edit : Edit) : Prop where
  paired : Paired edit.pair
  group {value : Expr} : IsPrimary edit.pair value → IsPrimary edit.instead value
  arguments {values : List Expr} : edit.FollowsCallee →
    Bracketed .lparen .rparen IsAssignment edit.pair values →
      Bracketed .lparen .rparen IsAssignment edit.instead values

theorem ne_lparen_of_operatorOf? {ops : List BinaryOp} {token : Token} {op : BinaryOp}
    (hop : Ladder.operatorOf? ops token.kind = some op) : token.kind ≠ .punct .lparen := by
  intro hkind
  simp [hkind, Ladder.operatorOf?] at hop

theorem endsCallee_of_isName {token : Token} (hname : IsName token) : endsCallee token.kind := by
  rcases hname with hkind | hkind
  · rw [hkind]
    rfl
  · obtain ⟨type, hkind⟩ := Kind.exists_of_isBuiltin hkind
    rw [hkind]
    rfl

/-- A list in brackets ends with the closing one. -/
theorem endsCallee_of_optional {item : List Token → α → Prop} {values : Option (List α)}
    (hitems : Optional .lbracket .rbracket item tokens values) :
    ∀ last ∈ tokens.getLast?, endsCallee last.kind := by
  cases hitems with
  | none => simp
  | some hitems =>
      cases hitems with
      | intro _ _ _ hlast =>
          rw [← List.append_assoc, ← List.cons_append, List.getLast?_concat]
          rintro _ ⟨⟩
          rw [hlast]
          rfl

namespace SwapsOperands

mutual
theorem assignment (hswaps : edit.SwapsOperands) : ∀ {tokens value}, IsAssignment tokens value →
    edit.Keeps tokens (IsAssignment · value)
  | _, _, .cast hcast => (hswaps.cast hcast).imp fun _ => .cast
  | _, _, .assign hleft hop hright =>
      .append hswaps.paired (closed_balanced.expressions.cast hleft)
        ((hswaps.cast hleft).imp fun _ hnew => .assign hnew hop hright)
        (.cons hswaps.paired (ne_lparen_of_operatorOf? hop)
          ((hswaps.assignment hright).imp fun _ => .assign hleft hop))

theorem cast (hswaps : edit.SwapsOperands) : ∀ {tokens value}, IsCast tokens value →
    edit.Keeps tokens (IsCast · value)
  | _, _, .level hlevel => (hswaps.level hlevel).imp fun _ => .level
  | _, _, .cast hvalue has htype =>
      .append hswaps.paired (closed_balanced.expressions.cast hvalue)
        ((hswaps.cast hvalue).imp fun _ hnew => .cast hnew has htype)
        (keeps_of_opensNone hswaps.paired (closed_opensNone.inExpressions.cons (by rw [has]; rfl)
          (closed_opensNone.inExpressions.type htype)))

theorem level (hswaps : edit.SwapsOperands) : ∀ {ladder tokens value},
    IsLevel ladder tokens value → edit.Keeps tokens (IsLevel ladder · value)
  | _, _, _, .unary hunary => (hswaps.unary hunary).imp fun _ => .unary
  | _, _, _, .tighter hlevel => (hswaps.level hlevel).imp fun _ => .tighter
  | _, _, _, .binary hleft hop hright =>
      .append hswaps.paired (closed_balanced.expressions.level hleft)
        ((hswaps.level hleft).imp fun _ hnew => .binary hnew hop hright)
        (.cons hswaps.paired (ne_lparen_of_operatorOf? hop)
          ((hswaps.level hright).imp fun _ => .binary hleft hop))

theorem unary (hswaps : edit.SwapsOperands) : ∀ {tokens value}, IsUnary tokens value →
    edit.Keeps tokens (IsUnary · value)
  | _, _, .trailing htrailing => (hswaps.trailing htrailing).imp fun _ => .trailing
  | _, _, @IsUnary.leading token _ _ _ hop hvalue => by
      have htoken : token.kind ≠ .punct .lparen := by
        intro hkind
        simp [hkind, Ladder.leadingOf?] at hop
      exact .cons hswaps.paired htoken ((hswaps.unary hvalue).imp fun _ => .leading hop)

theorem trailing (hswaps : edit.SwapsOperands) : ∀ {tokens value}, IsTrailing tokens value →
    edit.Keeps tokens (IsTrailing · value)
  | _, _, .primary hprimary => (hswaps.primary hprimary).imp fun _ => .primary
  | _, _, @IsTrailing.trailing _ token _ _ hvalue hop => by
      have htoken : OpensNone [token] := by
        rintro _ (_ | ⟨_, ⟨⟩⟩) hkind
        simp [hkind, Ladder.trailingOf?] at hop
      exact .append hswaps.paired (closed_balanced.expressions.trailing hvalue)
        ((hswaps.trailing hvalue).imp fun _ hnew => .trailing hnew hop)
        (keeps_of_opensNone hswaps.paired htoken)

theorem primary (hswaps : edit.SwapsOperands) : ∀ {tokens value}, IsPrimary tokens value →
    edit.Keeps tokens (IsPrimary · value)
  | _, _, @IsPrimary.literal token _ hvalue => by
      refine keeps_of_opensNone hswaps.paired ?_
      rintro _ (_ | ⟨_, ⟨⟩⟩) hkind
      simp [Literal.ofToken?, hkind] at hvalue
  | _, _, .name hname =>
      keeps_of_opensNone hswaps.paired (closed_opensNone.inExpressions.name hname)
  | _, _, @IsPrimary.call token types _ typeArgs _ hname htypes .none hcall => by
      refine keeps_of_opensNone hswaps.paired ?_
      rw [List.append_nil]
      exact closed_opensNone.append (closed_opensNone.inExpressions.name hname)
        (closed_opensNone.inExpressions.typeArguments htypes)
  | _, _, @IsPrimary.call token types _ typeArgs _ hname htypes
      (.some (@Bracketed.intro _ _ _ _ first last breaks items values hfirst hbreaks hitems hlast))
      hcall => by
      have hopens : OpensNone (token :: types) :=
        closed_opensNone.append (closed_opensNone.inExpressions.name hname)
          (closed_opensNone.inExpressions.typeArguments htypes)
      have hbalanced : Balanced (breaks ++ items) :=
        closed_balanced.append (closed_balanced.inExpressions.newlines hbreaks)
          (closed_balanced.inExpressions.commas (closed_balanced.expressions.assignments hitems))
      rw [← List.append_assoc breaks, ← List.cons_append]
      refine .enclosed hswaps.paired hopens hfirst hlast hbalanced ?_ ?_
      · intro hpair hsuffix
        have hcallee : edit.FollowsCallee :=
          followsCallee_of_suffix hsuffix (endsCallee_of_isName hname)
            (endsCallee_of_optional htypes)
        have hargs : Bracketed .lparen .rparen IsAssignment edit.pair values := by
          rw [hpair, List.append_assoc]
          exact .intro hfirst hbreaks hitems hlast
        exact .call hname htypes (.some (hswaps.arguments hcallee hargs)) hcall
      · refine .after hswaps.paired (closed_opensNone.inExpressions.newlines hbreaks) ?_
        refine (hswaps.assignments hitems).imp fun tokens hnew => ?_
        rw [List.append_assoc]
        exact .call hname htypes (.some (.intro hfirst hbreaks hnew hlast)) hcall
  | _, _, @IsPrimary.group first last breaks tokens value hfirst hbreaks hvalue hlast => by
      have hbalanced : Balanced (breaks ++ tokens) :=
        closed_balanced.append (closed_balanced.inExpressions.newlines hbreaks)
          (closed_balanced.expressions.assignment hvalue)
      rw [← List.append_assoc]
      refine .enclosed hswaps.paired closed_opensNone.nil hfirst hlast hbalanced ?_ ?_
      · intro hpair _
        refine hswaps.group ?_
        rw [hpair, List.append_assoc]
        exact .group hfirst hbreaks hvalue hlast
      · refine .after hswaps.paired (closed_opensNone.inExpressions.newlines hbreaks) ?_
        refine (hswaps.assignment hvalue).imp fun tokens hnew => ?_
        rw [List.append_assoc]
        exact .group hfirst hbreaks hnew hlast

theorem assignments (hswaps : edit.SwapsOperands) : ∀ {tokens values},
    Commas IsAssignment tokens values → edit.Keeps tokens (Commas IsAssignment · values)
  | _, _, .nil => keeps_of_opensNone hswaps.paired closed_opensNone.nil
  | _, _, .last hitem => (hswaps.assignment hitem).imp fun _ => .last
  | _, _, .cons hitem hcomma hbreaks hmore =>
      .append hswaps.paired (closed_balanced.expressions.assignment hitem)
        ((hswaps.assignment hitem).imp fun _ hnew => .cons hnew hcomma hbreaks hmore)
        (.cons hswaps.paired (by simp [hcomma])
          (.after hswaps.paired (closed_opensNone.inExpressions.newlines hbreaks)
            ((hswaps.assignments hmore).imp fun _ => .cons hitem hcomma hbreaks)))
end

end SwapsOperands

/-- The other tokens can stand for the pair in every program. -/
structure SwapsIn (edit : Edit) : Prop where
  paired : Paired edit.pair
  expression {tokens : List Token} {value : Expr} : IsAssignment tokens value →
    edit.Keeps tokens (IsAssignment · value)
  parameters {decls : List VariableDecl} : edit.FollowsCallee →
    ¬Bracketed .lparen .rparen (IsBinding .parameter) edit.pair decls

namespace SwapsIn

variable {scope : Scope}

theorem declaration (hswaps : edit.SwapsIn) {decl : VariableDecl}
    (hdecl : IsVariable scope tokens decl) : edit.Keeps tokens (IsVariable scope · decl) := by
  cases hdecl with
  | bare hbinding => exact keeps_of_opensNone hswaps.paired (closed_opensNone.binding hbinding)
  | initial hbinding hequals hvalue =>
      refine .after hswaps.paired (closed_opensNone.binding hbinding) ?_
      refine .cons hswaps.paired (by simp [hequals]) ?_
      exact (hswaps.expression hvalue).imp fun _ => .initial hbinding hequals

/-- The parentheses of a signature are those of its parameters. -/
theorem signature (hswaps : edit.SwapsIn) {declared : Signature}
    (hsignature : IsSignature scope tokens declared) : edit.Keeps tokens holds := by
  obtain @⟨front, names, _, returns, keyword, name, _, _, decls, _, hfront, -, hkeyword, hname, hnames,
    @⟨first, last, breaks, items, _, hfirst, hbreaks, hitems, hlast⟩, hreturns⟩ := hsignature
  have hhead {holds : List Token → Prop} (hclosed : ClosedUnder Kind.isPlain holds) :
      holds (front ++ keyword :: name :: names) := by
    refine hclosed.append (hclosed.modifiers hfront) (hclosed.cons (by rw [hkeyword]; rfl) ?_)
    exact hclosed.cons (by rw [hname]; rfl) (hclosed.names hnames)
  have hinside {holds : List Token → Prop} (hclosed : ClosedUnder Kind.isPlain holds) :
      holds (breaks ++ items) := by
    refine hclosed.append (hclosed.inExpressions.newlines hbreaks) ?_
    exact hclosed.inExpressions.commas (hitems.imp fun _ _ => hclosed.binding)
  have hbalanced : Balanced (breaks ++ items) := hinside closed_balanced.toClosedUnder
  have htokens : front ++ keyword :: name ::
      (names ++ (first :: (breaks ++ (items ++ [last])) ++ returns)) =
        front ++ keyword :: name :: names ++ first :: (breaks ++ items ++ [last]) ++ returns := by
    simp
  rw [htokens]
  refine .append hswaps.paired ?_ ?_
    (keeps_of_opensNone hswaps.paired (closed_opensNone.returns hreturns))
  · exact closed_balanced.append (hhead closed_balanced.toClosedUnder)
      (.enclosed hfirst hlast hbalanced)
  · refine .enclosed hswaps.paired (hhead closed_opensNone) hfirst hlast hbalanced ?_
      (keeps_of_opensNone hswaps.paired (hinside closed_opensNone))
    intro hpair hsuffix
    have hbefore : name :: names <:+ edit.before :=
      (List.suffix_append (front ++ [keyword]) _).trans (by simpa using hsuffix)
    have hcallee : edit.FollowsCallee :=
      followsCallee_of_suffix hbefore (by rw [hname]; rfl) (endsCallee_of_optional hnames)
    have hparams : Bracketed .lparen .rparen (IsBinding .parameter) edit.pair decls := by
      rw [hpair, List.append_assoc]
      exact .intro hfirst hbreaks hitems hlast
    exact absurd hparams (hswaps.parameters hcallee)

/-- Statements one behind the other, each of which keeps its rule. -/
theorem items (hswaps : edit.SwapsIn) {item : List Token → α → Prop} {values : List α}
    (hbalanced : ∀ tokens value, item tokens value → Balanced tokens)
    (hitems : Items (fun tokens value => item tokens value ∧ edit.Keeps tokens (item · value))
      tokens values) :
    edit.Keeps tokens (Items item · values) := by
  induction hitems with
  | nil => exact keeps_of_opensNone hswaps.paired closed_opensNone.nil
  | blank hends _ ih =>
      exact .after hswaps.paired (closed_opensNone.ends hends) (ih.imp fun _ => .blank hends)
  | last hitem => exact hitem.2.imp fun _ => .last
  | cons hitem hends hmore ih =>
      have hothers := hmore.imp fun _ _ => And.left
      refine .append hswaps.paired (hbalanced _ _ hitem.1)
        (hitem.2.imp fun _ hnew => .cons hnew hends hothers) ?_
      exact .after hswaps.paired (closed_opensNone.ends hends)
        (ih.imp fun _ => .cons hitem.1 hends)

/-- A body in braces, behind tokens without parentheses. -/
theorem braces (hswaps : edit.SwapsIn) {body : List Token} {first last : Token}
    (hfront : OpensNone front) (hfirst : first.kind = .punct .lbrace)
    (hlast : last.kind = .punct .rbrace) (hbalanced : Balanced body)
    (hbody : edit.Keeps body fun tokens => holds (front ++ first :: (tokens ++ [last]))) :
    edit.Keeps (front ++ first :: (body ++ [last])) holds := by
  refine .after hswaps.paired hfront (.cons hswaps.paired (by simp [hfirst]) ?_)
  exact .append hswaps.paired hbalanced hbody
    (keeps_of_opensNone hswaps.paired (closed_opensNone.token (by rw [hlast]; rfl)))

/-- A condition behind its keyword, and what stands behind it. -/
theorem conditional (hswaps : edit.SwapsIn) {keyword : Token} {word : Keyword} {condition : Expr}
    {more : List Token} (hkeyword : keyword.kind = .keyword word)
    (hcondition : IsAssignment tokens condition)
    (hleft : ∀ tokens, IsAssignment tokens condition → holds (keyword :: (tokens ++ more)))
    (hmore : edit.Keeps more fun more => holds (keyword :: (tokens ++ more))) :
    edit.Keeps (keyword :: (tokens ++ more)) holds := by
  refine .cons hswaps.paired (by simp [hkeyword]) ?_
  exact .append hswaps.paired (closed_balanced.expressions.assignment hcondition)
    ((hswaps.expression hcondition).imp hleft) hmore

mutual
theorem stmt (hswaps : edit.SwapsIn) : ∀ {scope tokens stmt}, IsStmt scope tokens stmt →
    edit.Keeps tokens (IsStmt scope · stmt)
  | _, _, _, .expr hvalue => (hswaps.expression hvalue).imp fun _ => .expr
  | _, _, _, .variable hdecl => (hswaps.declaration hdecl).imp fun _ => .variable
  | _, _, _, .typeAlias hkeyword htype has hname => by
      refine keeps_of_opensNone hswaps.paired (closed_opensNone.cons (by rw [hkeyword]; rfl) ?_)
      refine closed_opensNone.append (closed_opensNone.inExpressions.type htype) ?_
      exact closed_opensNone.cons (by rw [has]; rfl) (closed_opensNone.token (by rw [hname]; rfl))
  | _, _, _, .record hfront hallowed hkeyword htype hbreaks hfirst hmembers hlast => by
      refine .after hswaps.paired (closed_opensNone.modifiers hfront) ?_
      refine .cons hswaps.paired (by simp [hkeyword]) ?_
      refine .after hswaps.paired (closed_opensNone.inExpressions.type htype) ?_
      refine hswaps.braces (closed_opensNone.inExpressions.newlines hbreaks) hfirst hlast
        (closed_balanced.items (closed_balanced.members hmembers)) ?_
      have hkept := hswaps.items (fun _ _ => closed_balanced.member) (hswaps.members hmembers)
      exact hkept.imp fun _ hnew =>
        .record hfront hallowed hkeyword htype hbreaks hfirst hnew hlast
  | _, _, _, .branch hbranch => (hswaps.branch hbranch).imp fun _ => .branch
  | _, _, _, .loop hkeyword hcondition hbody =>
      hswaps.conditional hkeyword hcondition (fun _ hnew => .loop hkeyword hnew hbody)
        ((hswaps.block hbody).imp fun _ => .loop hkeyword hcondition)
  | _, _, _, .defer hkeyword hbody =>
      .cons hswaps.paired (by simp [hkeyword]) ((hswaps.block hbody).imp fun _ => .defer hkeyword)
  | _, _, _, .break hkeyword =>
      keeps_of_opensNone hswaps.paired (closed_opensNone.token (by rw [hkeyword]; rfl))
  | _, _, _, .continue hkeyword =>
      keeps_of_opensNone hswaps.paired (closed_opensNone.token (by rw [hkeyword]; rfl))
  | _, _, _, .function hdecl => (hswaps.function hdecl).imp fun _ => .function

theorem function (hswaps : edit.SwapsIn) : ∀ {scope tokens decl}, IsFunction scope tokens decl →
    edit.Keeps tokens (IsFunction scope · decl)
  | _, _, _, .intro hsignature hbody =>
      .append hswaps.paired (closed_balanced.signature hsignature) (hswaps.signature hsignature)
        ((hswaps.block hbody).imp fun _ => .intro hsignature)

theorem member (hswaps : edit.SwapsIn) : ∀ {tokens decl}, IsMember tokens decl →
    edit.Keeps tokens (IsMember · decl)
  | _, _, .field hdecl => (hswaps.declaration hdecl).imp fun _ => .field
  | _, _, .method hdecl => (hswaps.function hdecl).imp fun _ => .method

theorem branch (hswaps : edit.SwapsIn) : ∀ {tokens stmt}, IsBranch tokens stmt →
    edit.Keeps tokens (IsBranch · stmt)
  | _, _, .alone hkeyword hcondition hbody =>
      hswaps.conditional hkeyword hcondition (fun _ hnew => .alone hkeyword hnew hbody)
        ((hswaps.block hbody).imp fun _ => .alone hkeyword hcondition)
  | _, _, .otherwise hkeyword hcondition hbody hbreaks hlast hother => by
      refine hswaps.conditional hkeyword hcondition
        (fun _ hnew => .otherwise hkeyword hnew hbody hbreaks hlast hother) ?_
      refine .append hswaps.paired (closed_balanced.block hbody) ((hswaps.block hbody).imp
        fun _ hnew => .otherwise hkeyword hcondition hnew hbreaks hlast hother) ?_
      refine .after hswaps.paired (closed_opensNone.inExpressions.newlines hbreaks) ?_
      exact .cons hswaps.paired (by simp [hlast]) ((hswaps.otherwise hother).imp
        fun _ => .otherwise hkeyword hcondition hbody hbreaks hlast)

theorem otherwise (hswaps : edit.SwapsIn) : ∀ {tokens stmts}, IsOtherwise tokens stmts →
    edit.Keeps tokens (IsOtherwise · stmts)
  | _, _, .block hblock => (hswaps.block hblock).imp fun _ => .block
  | _, _, .branch hbranch => (hswaps.branch hbranch).imp fun _ => .branch

theorem block (hswaps : edit.SwapsIn) : ∀ {tokens stmts}, IsBlock tokens stmts →
    edit.Keeps tokens (IsBlock · stmts)
  | _, _, .intro hbreaks hfirst hbody hlast =>
      hswaps.braces (closed_opensNone.inExpressions.newlines hbreaks) hfirst hlast
        (closed_balanced.items (closed_balanced.stmts hbody))
        ((hswaps.items (fun _ _ => closed_balanced.stmt) (hswaps.stmts hbody)).imp
          fun _ hnew => .intro hbreaks hfirst hnew hlast)

theorem stmts (hswaps : edit.SwapsIn) : ∀ {tokens stmts}, Items (IsStmt .block) tokens stmts →
    Items (fun tokens stmt => IsStmt .block tokens stmt ∧ edit.Keeps tokens (IsStmt .block · stmt))
      tokens stmts
  | _, _, .nil => .nil
  | _, _, .blank hends hitems => .blank hends (hswaps.stmts hitems)
  | _, _, .last hitem => .last ⟨hitem, hswaps.stmt hitem⟩
  | _, _, .cons hitem hends hmore => .cons ⟨hitem, hswaps.stmt hitem⟩ hends (hswaps.stmts hmore)

theorem members (hswaps : edit.SwapsIn) : ∀ {tokens decls}, Items IsMember tokens decls →
    Items (fun tokens decl => IsMember tokens decl ∧ edit.Keeps tokens (IsMember · decl)) tokens
      decls
  | _, _, .nil => .nil
  | _, _, .blank hends hitems => .blank hends (hswaps.members hitems)
  | _, _, .last hitem => .last ⟨hitem, hswaps.member hitem⟩
  | _, _, .cons hitem hends hmore =>
      .cons ⟨hitem, hswaps.member hitem⟩ hends (hswaps.members hmore)
end

/-- A module stays what it is. -/
theorem program (hswaps : edit.SwapsIn) {program : Module} (hmodule : IsModule tokens program) :
    edit.Keeps tokens (IsModule · program) := by
  cases hmodule with
  | header hbreaks hkeyword hname =>
      refine keeps_of_opensNone hswaps.paired ?_
      refine closed_opensNone.append (closed_opensNone.inExpressions.newlines hbreaks) ?_
      exact closed_opensNone.cons (by rw [hkeyword]; rfl)
        (closed_opensNone.token (by rw [hname]; rfl))
  | body hbreaks hkeyword hname hlast hstmts =>
      have hkept := hswaps.items (fun _ _ => closed_balanced.stmt)
        (hstmts.imp fun _ _ hitem => ⟨hitem, hswaps.stmt hitem⟩)
      refine .after hswaps.paired (closed_opensNone.inExpressions.newlines hbreaks) ?_
      refine .cons hswaps.paired (by simp [hkeyword]) (.cons hswaps.paired (by simp [hname]) ?_)
      exact .after hswaps.paired (closed_opensNone.ends hlast)
        (hkept.imp fun _ => .body hbreaks hkeyword hname hlast)

end SwapsIn

end Edit

end KCompiler.Grammar
