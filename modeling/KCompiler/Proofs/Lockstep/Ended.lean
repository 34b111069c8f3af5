import KCompiler.Parse.Program
import KCompiler.Proofs.StatementLoop

/-! # At the end of an input

An input has ended if no token is left, and also if the next token is the end of the input. Parsers
make no difference between the two: they take nothing, and what they miss is reported at the end of
the input.
-/

namespace KCompiler

open Outcome

/-- Nothing is left but the end of the input. -/
inductive Ended : List Token → Prop
  | nil : Ended []
  | eof {token : Token} {rest : List Token} (hkind : token.kind = .eof) : Ended (token :: rest)

variable {input : List Token} {α : Type}

namespace Ended

variable (hended : Ended input)

include hended

/-! ## Skipping -/

theorem skipNewlines_eq : skipNewlines input = input := by
  cases hended with
  | nil => rfl
  | eof hkind => simp [skipNewlines, hkind]

theorem skipBlock_eq (depth : Nat) : skipBlock depth input = input := by
  cases hended with
  | nil => cases depth <;> rfl
  | eof hkind => cases depth <;> simp [skipBlock, hkind]

theorem recover_eq : recover input = input := by
  cases hended with
  | nil => rw [recover]
  | eof hkind => rw [recover, if_pos (by rw [hkind]; rfl)]

theorem endStatement_eq : endStatement input = .done () := by
  cases hended with
  | nil => rfl
  | eof hkind => simp [endStatement, hkind, Kind.isBoundary]

/-! ## Tokens -/

theorem seek_eq {kind : Kind} (hkind : kind ≠ .eof) (skips : Nat) :
    seek kind skips input = .failed := by
  cases skips with
  | zero => rw [seek]
  | succ skips =>
      cases hended with
      | nil => rw [seek]
      | eof heof => simp [seek, heof, hkind.symm, Kind.isBoundary]

theorem expect_eq (eof : Token) {kind : Kind} (hkind : kind ≠ .eof) :
    expect eof kind input =
      failed.reporting [⟨.unexpected kind (peek eof input).kind, (peek eof input).span⟩] := by
  have hseek := hended.seek_eq hkind maxSkips
  cases hended with
  | nil => rfl
  | eof heof =>
      rw [expect, if_neg (by rw [heof]; exact hkind.symm), hseek]
      rfl

theorem startsVariable_eq : startsVariable input = false := by
  cases hended with
  | nil => rfl
  | @eof token rest hkind => cases rest <;> simp [startsVariable, hkind]

/-! ## Parsers that take nothing -/

theorem itemsOf_eq {closing : Kind}
    {item : (inner : List Token) → inner.length ≤ input.length → Outcome inner α} :
    itemsOf closing input item = .done [] := by
  cases hended with
  | nil => rw [itemsOf_nil]
  | eof hkind => rw [itemsOf_cons, if_pos (.inr hkind)]

theorem delimited_eq (eof : Token) {opening closing : Kind} (hopening : opening ≠ .eof)
    {item : (inner : List Token) → inner.length < input.length → Outcome inner α} :
    delimited eof opening closing input item = .done none := by
  cases hended with
  | nil => rfl
  | eof hkind => rw [delimited_cons, if_neg (by rw [hkind]; exact hopening.symm)]

theorem modifierList_eq (modifiers : Modifiers) : modifierList modifiers input = .done modifiers := by
  cases hended with
  | nil => rfl
  | eof hkind => simp [modifierList, hkind, Modifier.ofKind?]

theorem trailingMut_eq (modifiers : Modifiers) : trailingMut modifiers input = .done modifiers := by
  cases hended with
  | nil => rfl
  | eof hkind => simp [trailingMut, hkind]

theorem initialValue_eq (eof : Token) : initialValue eof input = .done none := by
  cases hended with
  | nil => rfl
  | eof hkind => simp [initialValue_cons, hkind]

theorem returnType_eq (eof : Token) : returnType eof input = .done .unit := by
  cases hended with
  | nil => rfl
  | eof hkind => simp [returnType_cons, hkind]

theorem operators_eq (eof : Token) (least most : Nat) (first : Expr) :
    operators eof least most first input = .done first := by
  cases hended with
  | nil => rw [operators_nil]
  | eof hkind => rw [operators_cons, hkind]; rfl

theorem loop_eq {α : Type} {inBraces : Bool} {loop : (input : List Token) → Outcome input (List α)}
    {parse : (input : List Token) → Outcome input α} (hloop : StatementLoop inBraces loop parse) :
    loop input = .done [] := by
  cases hended with
  | nil => exact hloop.nil
  | eof hkind => exact hloop.stop (.inl hkind)

theorem leftover_eq : leftover input = [] := by
  cases hended with
  | nil => rfl
  | eof hkind => simp [leftover, hkind]

/-! ## Parsers that miss something -/

theorem typeExpr_eq (eof : Token) :
    typeExpr eof input =
      failed.reporting [⟨.expectedType (peek eof input).kind, (peek eof input).span⟩] := by
  cases hended with
  | nil => rw [typeExpr_nil]; rfl
  | eof hkind => rw [typeExpr_cons]; simp [Ty.ofToken?, hkind, peek]

theorem operand_eq (eof : Token) :
    operand eof input = (done .placeholder).reporting
      [⟨.expectedExpression (peek eof input).kind, (peek eof input).span⟩] := by
  cases hended with
  | nil => rw [operand_nil]; rfl
  | eof hkind =>
      rw [operand_cons]
      simp [Opening.ofToken?, Literal.ofToken?, hkind, peek, Kind.isBoundary]

theorem unmodifiedStatement_eq (eof : Token) (scope : Scope) (modifiers : Modifiers) (start : Span) :
    unmodifiedStatement eof scope modifiers start input =
      ((expression eof 0 input).map Stmt.expr).reporting (misplaced modifiers .eof start) := by
  have hvariable := hended.startsVariable_eq
  cases hended with
  | nil => rw [unmodifiedStatement_nil]
  | eof hkind => rw [unmodifiedStatement_cons]; simp [hkind, hvariable]

theorem otherwise_eq (eof : Token) : otherwise eof input = block eof input := by
  cases hended with
  | nil => rw [otherwise_nil]
  | eof hkind => rw [otherwise_cons, if_neg (by simp [hkind])]

theorem moduleName_eq (eof : Token) :
    moduleName eof input =
      failed.reporting [⟨.invalidModuleName (peek eof input).kind, (peek eof input).span⟩] := by
  cases hended with
  | nil => rfl
  | eof hkind => simp [moduleName, hkind, peek]

theorem moduleHeader_eq (eof : Token) :
    moduleHeader eof input = failed.reporting [⟨.missingModule, (peek eof input).span⟩] := by
  cases hended with
  | nil => rfl
  | eof hkind => simp [moduleHeader, hkind, peek]

end Ended

end KCompiler
