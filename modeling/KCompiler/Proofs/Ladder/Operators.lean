import KCompiler.Parse.Expression
import KCompiler.Proofs.Outcome

/-! # Operators by binding powers

The operators behind an operand can be taken in two turns, first the tight ones and then the
loose ones. What was refused in the first turn is refused in the second, and no cast is ever
left behind.
-/

namespace KCompiler

section Operators

variable {eof token : Token} {least next most : Nat} {rest : List Token}

theorem operators_of_none (hkind : Continuation.ofKind? token.kind = none) (first : Expr) :
    operators eof least most first (token :: rest) = .done first := by
  rw [operators_cons]
  simp only [hkind]

theorem operators_of_trailing {op : UnaryOp}
    (hkind : Continuation.ofKind? token.kind = some (.trailing op)) (first : Expr) :
    operators eof least most first (token :: rest) =
      if least ≤ trailingPower ∧ trailingPower ≤ most then
        (operators eof least most (.unary op .behind first) rest).behind token
      else .done first := by
  rw [operators_cons]
  simp only [hkind]

theorem operators_of_cast (hkind : Continuation.ofKind? token.kind = some .cast) (first : Expr) :
    operators eof least most first (token :: rest) =
      if least ≤ castPower then
        ((typeExpr eof rest).andThen fun target rest _ =>
          operators eof least castPower (.cast first target) rest).behind token
      else .done first := by
  rw [operators_cons]
  simp only [hkind]

theorem operators_of_binary {op : BinaryOp}
    (hkind : Continuation.ofKind? token.kind = some (.binary op)) (first : Expr) :
    operators eof least most first (token :: rest) =
      if least ≤ op.powers.1 ∧ op.powers.1 ≤ most then
        ((expression eof op.powers.2 rest).andThen fun second rest _ =>
          operators eof least (min most op.powers.1) (.binary op first second) rest).behind token
      else .done first := by
  rw [operators_cons]
  simp only [hkind]

/-- The operators that bind at least as tightly as `least` are those that bind at least as
tightly as `next`, and behind them the looser ones: whatever tighter operator was refused
there is refused here. -/
theorem operators_split {most : Nat} (hle : least ≤ next) (hcast : castPower ≤ next)
    (hnext : next ≤ trailingPower) (hmost : next ≤ most + 1) (first : Expr) (input : List Token) :
    operators eof least most first input =
      (operators eof next most first input).andThen fun result rest _ =>
        operators eof least (next - 1) result rest := by
  match input with
  | [] => simp
  | token :: rest =>
      cases hkind : Continuation.ofKind? token.kind with
      | none => simp [operators_of_none hkind]
      | some continuation =>
          cases continuation with
          | trailing op =>
              -- Unary operators behind an operand are never loose: they are taken first or not
              -- at all.
              rw [operators_of_trailing hkind, operators_of_trailing hkind]
              by_cases hbound : trailingPower ≤ most
              · rw [if_pos ⟨by omega, hbound⟩, if_pos ⟨hnext, hbound⟩, Outcome.andThen_behind,
                  operators_split hle hcast hnext hmost]
              · rw [if_neg (by omega), if_neg (by omega), Outcome.andThen_done,
                  operators_of_trailing hkind, if_neg (by omega)]
          | cast =>
              rw [operators_of_cast hkind, operators_of_cast hkind]
              by_cases hbound : next ≤ castPower
              · rw [if_pos (by omega), if_pos hbound, Outcome.andThen_behind,
                  Outcome.andThen_assoc]
                congr 2
                funext target rest hrest
                exact operators_split hle hcast hnext (by omega) _ rest
              · rw [if_neg hbound, Outcome.andThen_done, operators_of_cast hkind]
          | binary op =>
              rw [operators_of_binary hkind, operators_of_binary hkind]
              by_cases hbound : next ≤ op.powers.1 ∧ op.powers.1 ≤ most
              · rw [if_pos (by omega), if_pos hbound, Outcome.andThen_behind,
                  Outcome.andThen_assoc]
                congr 2
                funext second rest hrest
                exact operators_split hle hcast hnext (by omega) _ rest
              · -- An operator that was refused is looser than `next`, or too tight for both sides.
                rw [if_neg hbound, Outcome.andThen_done, operators_of_binary hkind]
                by_cases hloose : least ≤ op.powers.1 ∧ op.powers.1 ≤ next - 1
                · rw [if_pos (by omega), if_pos hloose, Nat.min_eq_right (by omega),
                    Nat.min_eq_right (by omega)]
                · rw [if_neg (by omega), if_neg hloose]
termination_by input.length

theorem expression_split (hle : least ≤ next) (hcast : castPower ≤ next)
    (hnext : next ≤ trailingPower) (input : List Token) :
    expression eof least input =
      (expression eof next input).andThen fun result rest _ =>
        operators eof least (next - 1) result rest := by
  have hmost : next ≤ unboundedPower + 1 := Nat.le_trans hnext (by decide)
  rw [expression_def, expression_def, Outcome.andThen_assoc]
  congr 1
  funext first rest hrest
  exact operators_split hle hcast hnext hmost first rest

end Operators

/-- How tightly an operator binds to what stands before it. -/
def Continuation.power : Continuation → Nat
  | .trailing _ => trailingPower
  | .cast => castPower
  | .binary op => op.powers.1

/-- An input that goes on with no cast, and with no operator that binds at least as tightly
as `least` unless it is tighter than `bound`. -/
def Refused (least bound : Nat) (input : List Token) : Prop :=
  ∀ token ∈ input.head?, ∀ continuation, Continuation.ofKind? token.kind = some continuation →
    least ≤ continuation.power → continuation ≠ .cast ∧ bound < continuation.power

theorem Refused.mono {least least' bound : Nat} {input : List Token}
    (hrefused : Refused least bound input)
    (hpower : ∀ continuation : Continuation, least' ≤ continuation.power →
      least ≤ continuation.power) : Refused least' bound input :=
  fun token htoken continuation hkind hleast =>
    hrefused token htoken continuation hkind (hpower continuation hleast)

/-- Operators that have been refused are not taken later. -/
theorem operators_of_refused {eof : Token} {least most bound : Nat} {input : List Token}
    (hrefused : Refused least bound input) (hmost : most ≤ bound) (first : Expr) :
    operators eof least most first input = .done first := by
  cases input with
  | nil => simp
  | cons token rest =>
      have hhead := hrefused token rfl
      cases hkind : Continuation.ofKind? token.kind with
      | none => exact operators_of_none hkind first
      | some continuation =>
          have hpower := hhead continuation hkind
          cases continuation with
          | trailing op =>
              rw [operators_of_trailing hkind, if_neg]
              rintro ⟨hleast, htaken⟩
              have hbound := (hpower hleast).2
              simp only [Continuation.power] at hbound
              omega
          | cast =>
              rw [operators_of_cast hkind, if_neg]
              intro hleast
              exact (hpower hleast).1 rfl
          | binary op =>
              rw [operators_of_binary hkind, if_neg]
              rintro ⟨hleast, htaken⟩
              have hbound := (hpower hleast).2
              simp only [Continuation.power] at hbound
              omega

theorem refused_of_none {least bound : Nat} {token : Token}
    (hkind : Continuation.ofKind? token.kind = none) (rest : List Token) :
    Refused least bound (token :: rest) := by
  rintro _ ⟨⟩ continuation hsome
  rw [hkind] at hsome
  cases hsome

/-- A token that is left stands at the front, with the test that it failed. -/
theorem refused_of_kind {least bound : Nat} {token : Token} {continuation : Continuation}
    (hkind : Continuation.ofKind? token.kind = some continuation)
    (hpower : least ≤ continuation.power → continuation ≠ .cast ∧ bound < continuation.power)
    (rest : List Token) : Refused least bound (token :: rest) := by
  rintro _ ⟨⟩ other hother hleast
  obtain rfl : continuation = other := Option.some.inj (hkind.symm.trans hother)
  exact hpower hleast

/-- Behind the operators that were taken, a cast is never left, and of the operators that
bind tightly enough only those that are tighter than every operator taken. -/
theorem operators_rest_refused {eof : Token} {least most bound : Nat} {first result : Expr}
    {input : List Token} (hmost : bound ≤ most) (hcast : bound ≤ castPower ∨ castPower < least)
    (hpowers : ∀ op : BinaryOp, least ≤ op.powers.1 → bound ≤ op.powers.1)
    (hvalue : (operators eof least most first input).value = some result) :
    Refused least bound (operators eof least most first input).rest := by
  match input with
  | [] => simp [Refused]
  | token :: rest =>
      cases hkind : Continuation.ofKind? token.kind with
      | none =>
          rw [operators_of_none hkind]
          exact refused_of_none hkind rest
      | some continuation =>
          cases continuation with
          | trailing op =>
              rw [operators_of_trailing hkind] at hvalue ⊢
              split at hvalue
              next htaken =>
                rw [Outcome.value_behind] at hvalue
                rw [if_pos htaken, Outcome.rest_behind]
                exact operators_rest_refused hmost hcast hpowers hvalue
              next hfailed =>
                rw [if_neg hfailed]
                refine refused_of_kind hkind (fun hleast => ⟨by simp, ?_⟩) rest
                simp only [Continuation.power] at hleast ⊢
                omega
          | cast =>
              rw [operators_of_cast hkind] at hvalue ⊢
              split at hvalue
              next htaken =>
                rw [Outcome.value_behind] at hvalue
                rw [if_pos htaken, Outcome.rest_behind]
                obtain ⟨target, -, hinner, hrest⟩ := Outcome.exists_of_value_andThen hvalue
                rw [hrest]
                have hless := (typeExpr eof rest).length_rest_le
                -- The cast was taken, so that casts bind tightly enough here.
                exact operators_rest_refused (by omega) hcast hpowers hinner
              next hfailed =>
                rw [if_neg hfailed]
                exact refused_of_kind hkind (fun hleast => absurd hleast hfailed) rest
          | binary op =>
              rw [operators_of_binary hkind] at hvalue ⊢
              split at hvalue
              next htaken =>
                rw [Outcome.value_behind] at hvalue
                rw [if_pos htaken, Outcome.rest_behind]
                obtain ⟨second, -, hinner, hrest⟩ := Outcome.exists_of_value_andThen hvalue
                rw [hrest]
                -- What was taken lowers the upper bound, but not below that of any operator.
                have hpower := hpowers op htaken.1
                have hless := (expression eof op.powers.2 rest).length_rest_le
                exact operators_rest_refused (by omega) hcast hpowers hinner
              next hfailed =>
                rw [if_neg hfailed]
                refine refused_of_kind hkind (fun hleast => ⟨by simp, ?_⟩) rest
                simp only [Continuation.power] at hleast ⊢
                omega
termination_by input.length
decreasing_by all_goals simp only [List.length_cons]; omega

theorem expression_rest_refused {eof : Token} {least bound : Nat} {input : List Token}
    {result : Expr} (hbound : bound ≤ unboundedPower)
    (hcast : bound ≤ castPower ∨ castPower < least)
    (hpowers : ∀ op : BinaryOp, least ≤ op.powers.1 → bound ≤ op.powers.1)
    (hvalue : (expression eof least input).value = some result) :
    Refused least bound (expression eof least input).rest := by
  rw [expression_def] at hvalue ⊢
  obtain ⟨first, -, hinner, hrest⟩ := Outcome.exists_of_value_andThen hvalue
  rw [hrest]
  exact operators_rest_refused hbound hcast hpowers hinner

end KCompiler
