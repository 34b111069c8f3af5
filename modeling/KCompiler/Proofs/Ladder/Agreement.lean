import KCompiler.Proofs.Ladder.Basic
import KCompiler.Proofs.Ladder.Operators

/-! # Binding powers and the ladder

Parsing by binding powers does the same as layered descent on every input, well formed or not:
it gives the same tree or gives up at the same place, leaves the same tokens and finds the same.
Each level of the ladder is a pair of binding powers, and by induction over the levels every
one of them parses the operands of the next.
-/

namespace KCompiler

/-! ## Levels and their powers -/

namespace Ladder

theorem operatorOf?_eq (ops : List BinaryOp) (kind : Kind) :
    operatorOf? ops kind =
      match Continuation.ofKind? kind with
      | some (.binary op) => if op ∈ ops then some op else none
      | _ => none := by
  cases kind with
  | op operator =>
      cases operator <;>
        simp [operatorOf?, Continuation.ofKind?, UnaryOp.trailing?, BinaryOp.ofOperator?,
          Option.filter]
  | keyword word => cases word <;> rfl
  | _ => rfl

theorem trailingOf?_eq (kind : Kind) :
    trailingOf? kind =
      match Continuation.ofKind? kind with
      | some (.trailing op) => some op
      | _ => none := by
  cases kind with
  | op operator => cases operator <;> rfl
  | keyword word => cases word <;> rfl
  | _ => rfl

theorem eq_as_iff (kind : Kind) :
    kind = .keyword .as ↔ Continuation.ofKind? kind = some .cast := by
  cases kind with
  | op operator => cases operator <;> simp [Continuation.ofKind?, UnaryOp.trailing?,
      BinaryOp.ofOperator?]
  | keyword word => cases word <;> simp [Continuation.ofKind?]
  | _ => simp [Continuation.ofKind?]

theorem leadingOf?_eq_some_iff {token : Token} {op : UnaryOp} :
    leadingOf? token.kind = some op ↔ Opening.ofToken? token = some (.leading op) := by
  unfold Opening.ofToken?
  split <;> simp_all [leadingOf?]

/-- A ladder whose levels hold the operators of growing powers, two powers a level: the first
level begins at `least`, and behind the last one only unary operators are left. -/
def Graded (least : Nat) : List (List BinaryOp) → Prop
  | [] => least + 1 = leadingPower
  | ops :: tighter =>
    (∀ op, op ∈ ops ↔ least ≤ op.powers.1 ∧ op.powers.1 ≤ least + 1) ∧
      (∀ op ∈ ops, op.powers = (least + 1, least + 2)) ∧ Graded (least + 2) tighter

theorem Graded.least_lt {least : Nat} {ladder : List (List BinaryOp)}
    (hgraded : Graded least ladder) : least < leadingPower := by
  induction ladder generalizing least with
  | nil => exact Nat.lt_of_succ_le (Nat.le_of_eq hgraded)
  | cons ops tighter ih => exact Nat.lt_trans (Nat.lt_add_of_pos_right (by decide)) (ih hgraded.2.2)

theorem levels_graded : Graded (castPower + 1) levels := by
  and_intros
  rotate_right
  · rfl
  all_goals
    intro op
    cases op <;> decide

theorem mem_assignments_iff (op : BinaryOp) : op ∈ assignments ↔ op.powers.1 ≤ 2 := by
  cases op <;> decide

theorem powers_of_mem_assignments {op : BinaryOp} (hop : op ∈ assignments) :
    op.powers = (2, 1) := by
  revert hop
  cases op <;> decide

end Ladder

theorem BinaryOp.two_le_powers (op : BinaryOp) : 2 ≤ op.powers.1 := by
  cases op <;> decide

theorem BinaryOp.powers_ne_castPower (op : BinaryOp) : op.powers.1 ≠ castPower := by
  cases op <;> decide

theorem Continuation.two_le_power (continuation : Continuation) : 2 ≤ continuation.power := by
  cases continuation with
  | trailing op => exact show 2 ≤ trailingPower by decide
  | cast => exact show 2 ≤ castPower by decide
  | binary op => exact op.two_le_powers

theorem BinaryOp.powers_lt (op : BinaryOp) : op.powers.1 + 1 < leadingPower := by
  cases op <;> decide

/-! ## Both parsers agree -/

namespace Ladder

variable {eof : Token} {input : List Token}

/-- Agreement on all inputs that are shorter than the given one, where groups and arguments
of calls are parsed. -/
def AgreeBelow (eof : Token) (input : List Token) : Prop :=
  ∀ inner : List Token, inner.length < input.length →
    expression eof 0 inner = assignment eof inner

theorem AgreeBelow.mono {inner : List Token} (hagree : AgreeBelow eof input)
    (hle : inner.length ≤ input.length) : AgreeBelow eof inner :=
  fun shorter hshorter => hagree shorter (Nat.lt_of_lt_of_le hshorter hle)

theorem operand_eq_primary (hagree : AgreeBelow eof input)
    (hleading : ∀ token ∈ input.head?, leadingOf? token.kind = none) :
    operand eof input = primary eof input := by
  cases input with
  | nil => rw [operand_nil, primary]
  | cons token rest =>
      have hnone := hleading token rfl
      rw [operand_cons, primary]
      cases hopening : Opening.ofToken? token with
      | none => rfl
      | some opening =>
          cases opening with
          | leading op =>
              rw [leadingOf?_eq_some_iff.mpr hopening] at hnone
              simp at hnone
          | literal value findings => rfl
          | name name =>
              simp only
              congr 2
              funext typeArgs rest' hrest
              congr 2
              funext inner hinner
              exact hagree inner (by simp only [List.length_cons]; omega)
          | group =>
              have hle := length_skipNewlines_le rest
              simp only
              rw [hagree _ (by simp only [List.length_cons]; omega)]

theorem operators_eq_trailers {least : Nat}
    (hleast : least = leadingPower ∨ least + 1 = leadingPower) (first : Expr) (input : List Token) :
    operators eof least unboundedPower first input = trailers first input := by
  have htrailing : least ≤ trailingPower := by simp only [leadingPower, trailingPower] at *; omega
  have hcast : ¬ least ≤ castPower := by simp only [leadingPower, castPower] at *; omega
  induction input generalizing first with
  | nil => simp [trailers]
  | cons token rest ih =>
      rw [trailers, trailingOf?_eq]
      cases hkind : Continuation.ofKind? token.kind with
      | none => exact operators_of_none hkind first
      | some continuation =>
          cases continuation with
          | trailing op =>
              rw [operators_of_trailing hkind, if_pos ⟨htrailing, by decide⟩, ih]
          | cast => rw [operators_of_cast hkind, if_neg hcast]
          | binary op =>
              have hpower := op.powers_lt
              rw [operators_of_binary hkind, if_neg (by omega)]

theorem expression_eq_unary {least : Nat} (hleast : least = leadingPower ∨ least + 1 = leadingPower)
    (hagree : AgreeBelow eof input) : expression eof least input = unary eof input := by
  induction input generalizing least with
  | nil =>
      rw [expression_def, unary, trailing, operand_eq_primary hagree (by simp)]
      congr 1
      funext first rest hrest
      exact operators_eq_trailers hleast first rest
  | cons token rest ih =>
      rw [unary]
      cases hleading : leadingOf? token.kind with
      | none =>
          rw [expression_def, trailing, operand_eq_primary hagree (by simp [hleading])]
          congr 1
          funext first rest hrest
          exact operators_eq_trailers hleast first rest
      | some op =>
          have hrest := ih (.inl rfl) (hagree.mono (by simp))
          rw [expression_def, operand_cons]
          simp only [leadingOf?_eq_some_iff.mp hleading]
          rw [Outcome.andThen_behind, Outcome.map_andThen, ← hrest]
          congr 1
          -- The operand has taken all unary operators behind it, and none is left here.
          apply Outcome.andThen_eq_map
          intro value hvalue
          refine operators_of_refused ?_ (Nat.le_refl unboundedPower) _
          refine (expression_rest_refused (Nat.le_refl _) (.inr (by decide)) ?_ hvalue).mono ?_
          · intro op hpower
            have hless := op.powers_lt
            omega
          · intro continuation hpower
            cases continuation with
            | trailing op => exact show leadingPower ≤ trailingPower by decide
            | cast =>
                simp only [Continuation.power, leadingPower, castPower] at *
                omega
            | binary op =>
                have hless := op.powers_lt
                simp only [Continuation.power] at *
                omega

theorem operators_eq_chain {least : Nat} {ops : List BinaryOp} {tighter : List (List BinaryOp)}
    (hcast : castPower < least) (hleast : least + 1 < trailingPower)
    (hops : ∀ op, op ∈ ops ↔ least ≤ op.powers.1 ∧ op.powers.1 ≤ least + 1)
    (hpowers : ∀ op ∈ ops, op.powers = (least + 1, least + 2)) (first : Expr) (input : List Token)
    (hlevel : ∀ inner : List Token, inner.length < input.length →
      expression eof (least + 2) inner = level eof tighter inner) :
    operators eof least (least + 1) first input = chain eof ops tighter first input := by
  match input with
  | [] => simp [chain]
  | token :: rest =>
      rw [chain, operatorOf?_eq]
      cases hkind : Continuation.ofKind? token.kind with
      | none => exact operators_of_none hkind first
      | some continuation =>
          cases continuation with
          | trailing op => rw [operators_of_trailing hkind, if_neg (by omega)]
          | cast => rw [operators_of_cast hkind, if_neg (by omega)]
          | binary op =>
              rw [operators_of_binary hkind]
              by_cases hmem : op ∈ ops
              · rw [if_pos ((hops op).mp hmem)]
                simp only [if_pos hmem, hpowers op hmem, Nat.min_self, hlevel rest (by simp)]
                congr 2
                funext second rest' hrest
                apply operators_eq_chain hcast hleast hops hpowers
                intro inner hinner
                exact hlevel inner (by simp only [List.length_cons]; omega)
              · simp only [if_neg (fun hpower => hmem ((hops op).mpr hpower)), if_neg hmem]
termination_by input.length

/-- Binding powers from `least` on give the levels of a graded ladder. By induction on the
ladder from its tight end: the tighter levels parse the operands of the loosest one. -/
theorem expression_eq_level {least : Nat} {ladder : List (List BinaryOp)}
    (hgraded : Graded least ladder) (hcast : castPower < least) (hagree : AgreeBelow eof input) :
    expression eof least input = level eof ladder input := by
  induction ladder generalizing least input with
  | nil =>
      rw [level]
      exact expression_eq_unary (.inr hgraded) hagree
  | cons ops tighter ih =>
      obtain ⟨hops, hpowers, htighter⟩ := hgraded
      have hnext := htighter.least_lt
      rw [level, ← ih htighter (by omega) hagree,
        expression_split (Nat.le_add_right least 2) (by omega)
          (Nat.le_trans (Nat.le_of_lt hnext) (by decide))]
      congr 1
      funext first rest hrest
      -- The right operands of this level are parsed by the tighter ones.
      apply operators_eq_chain hcast (by simp only [leadingPower, trailingPower] at *; omega) hops
        hpowers
      intro inner hinner
      exact ih htighter (by omega) (hagree.mono (by omega))

theorem operators_eq_casts (first : Expr) (input : List Token) :
    operators eof castPower castPower first input = casts eof first input := by
  match input with
  | [] => simp [casts]
  | token :: rest =>
      rw [casts]
      cases hkind : Continuation.ofKind? token.kind with
      | none =>
          rw [if_neg (by simp [eq_as_iff, hkind])]
          exact operators_of_none hkind first
      | some continuation =>
          cases continuation with
          | trailing op =>
              rw [if_neg (by simp [eq_as_iff, hkind]), operators_of_trailing hkind,
                if_neg (by decide)]
          | cast =>
              rw [if_pos ((eq_as_iff _).mpr hkind), operators_of_cast hkind,
                if_pos (Nat.le_refl _)]
              congr 2
              funext target rest' hrest
              exact operators_eq_casts _ rest'
          | binary op =>
              rw [if_neg (by simp [eq_as_iff, hkind]), operators_of_binary hkind,
                if_neg (fun hpower => op.powers_ne_castPower (by omega))]
termination_by input.length

theorem expression_eq_cast (hagree : AgreeBelow eof input) :
    expression eof castPower input = cast eof input := by
  rw [cast, ← expression_eq_level levels_graded (Nat.lt_succ_self _) hagree,
    expression_split (Nat.le_succ castPower) (Nat.le_succ castPower) (by decide)]
  congr 1
  funext first rest hrest
  exact operators_eq_casts first rest

/-- Behind an assignment no cast and no further assignment is left. -/
theorem assignment_rest_refused {least : Nat} {result : Expr}
    (hvalue : (expression eof 1 input).value = some result) :
    Refused least 2 (expression eof 1 input).rest := by
  refine (expression_rest_refused (by decide) (.inl (by decide)) ?_ hvalue).mono ?_
  · exact fun op _ => op.two_le_powers
  · exact fun continuation _ => Nat.le_of_succ_le continuation.two_le_power

theorem expression_eq_assignment {least : Nat} (hleast : least ≤ 1) (input : List Token) :
    expression eof least input = assignment eof input := by
  -- The induction is on the length of the input: groups and arguments are shorter, and so is
  -- what stands behind an assignment operator.
  have hagree : AgreeBelow eof input := fun inner hinner =>
    expression_eq_assignment (Nat.zero_le 1) inner
  rw [assignment, ← expression_eq_cast hagree,
    expression_split (Nat.le_trans hleast (by decide)) (Nat.le_refl _) (by decide)]
  apply Outcome.andThen_congr
  intro first hvalue hlength
  have hrefused : Refused castPower castPower (expression eof castPower input).rest :=
    expression_rest_refused (by decide) (.inl (Nat.le_refl _)) (fun op hpower => hpower) hvalue
  generalize (expression eof castPower input).rest = rest at hrefused hlength
  match rest with
  | [] => simp
  | token :: rest =>
      simp only [operatorOf?_eq]
      cases hkind : Continuation.ofKind? token.kind with
      | none => exact operators_of_none hkind first
      | some continuation =>
          cases continuation with
          | trailing op =>
              rw [operators_of_trailing hkind, if_neg (fun htaken => absurd htaken.2 (by decide))]
          | cast => exact absurd rfl (hrefused token rfl _ hkind (Nat.le_refl _)).1
          | binary op =>
              rw [operators_of_binary hkind]
              by_cases hmem : op ∈ assignments
              · have hpowers := powers_of_mem_assignments hmem
                simp only [if_pos hmem, hpowers]
                rw [if_pos ⟨by omega, by decide⟩, ← expression_eq_assignment (Nat.le_refl 1) rest]
                congr 1
                -- The right operand has taken all further assignments.
                apply Outcome.andThen_eq_map
                intro second hsecond
                exact operators_of_refused (assignment_rest_refused hsecond) (by decide) _
              · simp only [if_neg hmem]
                rw [if_neg]
                intro hpower
                exact hmem ((mem_assignments_iff op).mpr hpower.2)
termination_by input.length

end Ladder

/-- Parsing by binding powers is layered descent: on every input, value, rest and findings
are the same. -/
theorem expression_eq_ladder (eof : Token) (input : List Token) :
    expression eof 0 input = Ladder.assignment eof input :=
  Ladder.expression_eq_assignment (Nat.zero_le 1) input

end KCompiler
