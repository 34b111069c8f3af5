import KCompiler.Parse.Sequence
import KCompiler.Tree.Basic

/-! # Parsing types

A type is a name, with arguments in brackets if it has any.
-/

namespace KCompiler

/-- The type that a token names on its own. -/
def Ty.ofToken? (token : Token) : Option Ty :=
  match token.kind with
  | .identifier => some (.named token.text)
  | .builtin _ => some (.builtin token.text)
  | _ => none

/-- A type applied to arguments, if a list of them is given. -/
def Ty.apply (base : Ty) : Option (List Ty) → Ty
  | none => base
  | some args => .generic base args

namespace Traced

/-- Parses a type. -/
def typeExpr (eof : Token) (input : List Token) : Traced input Ty :=
  entering .type <|
  match input with
  | [] => silent (Outcome.failed.reporting [⟨.expectedType eof.kind, eof.span⟩])
  | token :: rest =>
    match Ty.ofToken? token with
    | none => silent (Outcome.failed.reporting [⟨.expectedType token.kind, token.span⟩])
    | some base =>
      ((delimited eof (.punct .lbracket) (.punct .rbracket) rest fun inner _ =>
        typeExpr eof inner).map base.apply).behind token
termination_by input.length
decreasing_by simp only [List.length_cons]; omega

/-- Parses type arguments in brackets, if there are any. -/
def typeArguments (eof : Token) (input : List Token) : Traced input (Option (List Ty)) :=
  delimited eof (.punct .lbracket) (.punct .rbracket) input fun inner _ => typeExpr eof inner

end Traced

/-! ## Outcomes -/

def typeExpr (eof : Token) (input : List Token) : Outcome input Ty :=
  (Traced.typeExpr eof input).outcome

def typeArguments (eof : Token) (input : List Token) : Outcome input (Option (List Ty)) :=
  (Traced.typeArguments eof input).outcome

section Equations

variable (eof token : Token) (input rest : List Token)

theorem typeArguments_def :
    typeArguments eof input =
      delimited eof (.punct .lbracket) (.punct .rbracket) input fun inner _ =>
        typeExpr eof inner :=
  Traced.outcome_delimited eof _

theorem typeExpr_nil :
    typeExpr eof [] = Outcome.failed.reporting [⟨.expectedType eof.kind, eof.span⟩] := by
  rw [typeExpr, Traced.typeExpr]
  rfl

theorem typeExpr_cons :
    typeExpr eof (token :: rest) =
      match Ty.ofToken? token with
      | none => Outcome.failed.reporting [⟨.expectedType token.kind, token.span⟩]
      | some base =>
        ((delimited eof (.punct .lbracket) (.punct .rbracket) rest fun inner _ =>
          typeExpr eof inner).map base.apply).behind token := by
  rw [typeExpr, Traced.typeExpr]
  cases Ty.ofToken? token with
  | none => rfl
  | some base =>
      rw [← typeArguments_def]
      rfl

end Equations

end KCompiler
