import KCompiler.Parse.TypeExpr
import KCompiler.Token.Value

/-! # Parsing expressions

Expressions are parsed by binding powers. An operator is taken as long as it binds at
least as tightly as the least power of the context; once an operand has been cast, or a
looser operator has been taken, tighter ones no longer apply to what has been read.
-/

namespace KCompiler

/-- The binding power of unary operators before their operand. -/
def leadingPower : Nat := 25

/-- The binding power of unary operators behind their operand. -/
def trailingPower : Nat := 27

/-- The binding power of a cast. -/
def castPower : Nat := 3

/-- More than any binding power. -/
def unboundedPower : Nat := 255

/-- The binding powers of a binary operator to its left and to its right. The tighter right
side makes an operator group to the left, the looser one of assignments to the right. -/
def BinaryOp.powers : BinaryOp → Nat × Nat
  | .assign | .addAssign | .subAssign | .mulAssign | .divAssign | .remAssign | .andAssign
  | .orAssign | .xorAssign | .shlAssign | .shrAssign => (2, 1)
  | .logicalOr => (5, 6)
  | .logicalAnd => (7, 8)
  | .bitOr => (9, 10)
  | .bitXor => (11, 12)
  | .bitAnd => (13, 14)
  | .eq | .ne => (15, 16)
  | .lt | .le | .gt | .ge => (17, 18)
  | .shl | .shr => (19, 20)
  | .add | .sub => (21, 22)
  | .mul | .div | .rem => (23, 24)

/-- What an operator token can do behind an operand. -/
inductive Continuation where
  | trailing (op : UnaryOp)
  | cast
  | binary (op : BinaryOp)
  deriving DecidableEq, Repr

/-- What a token does behind an operand, if it goes on with the expression. -/
def Continuation.ofKind? : Kind → Option Continuation
  | .keyword .as => some .cast
  | .op operator => ((UnaryOp.trailing? operator).map trailing).or
      ((BinaryOp.ofOperator? operator).map binary)
  | _ => none

/-- The value of a literal token, with a finding if it has none. -/
def Literal.ofToken? (token : Token) : Option (Literal × List Finding) :=
  match token.kind with
  | .integer =>
    match integerValue token.text with
    | .ok value => some (.int value, [])
    | .error _ => some (.int 0, [⟨.invalidNumber .integer token.text, token.span⟩])
  | .float =>
    match floatValue token.text with
    | .ok value => some (.float value, [])
    | .error _ => some (.float .zero, [⟨.invalidNumber .float token.text, token.span⟩])
  | .string => some (.string token.text, [])
  | .char => some (.char (charValue token.text), [])
  | .keyword .true => some (.bool true, [])
  | .keyword .false => some (.bool false, [])
  | _ => none

/-- What a token does at the beginning of an operand. -/
inductive Opening where
  | leading (op : UnaryOp)
  | literal (value : Literal) (findings : List Finding)
  | name (name : String)
  | group

/-- What a token begins, if it begins an operand. -/
def Opening.ofToken? (token : Token) : Option Opening :=
  match token.kind with
  | .op operator => (UnaryOp.leading? operator).map leading
  | .identifier | .builtin _ => some (.name token.text)
  | .punct .lparen => some .group
  | _ => (Literal.ofToken? token).map fun (value, findings) => literal value findings

/-- A name, or a call if it is given type arguments or arguments. -/
def Expr.ofName (name : String) : Option (List Ty) → Option (List Expr) → Expr
  | none, none => .ident name
  | typeArgs, args => .call (.ident name) (typeArgs.getD []) (args.getD [])

namespace Traced

mutual
/-- Parses an expression whose operators bind at least as tightly as `least`. -/
def expression (eof : Token) (least : Nat) (input : List Token) : Traced input Expr :=
  entering .expression <|
  (operand eof input).andThen fun first rest _ =>
    operators eof least unboundedPower first rest
termination_by 3 * input.length + 2
decreasing_by all_goals omega

/-- Parses an operand: operators before it, a literal, a name or call, or a group. A token
that begins none is reported and, unless it bounds the statement, taken. -/
def operand (eof : Token) (input : List Token) : Traced input Expr :=
  entering .operand <|
  match input with
  | [] => silent ((Outcome.done .placeholder).reporting [⟨.expectedExpression eof.kind, eof.span⟩])
  | token :: rest =>
    match Opening.ofToken? token with
    | some (.leading op) =>
      ((expression eof leadingPower rest).map (.unary op .before)).behind token
    | some (.literal value findings) =>
      silent (((Outcome.done (.literal value)).reporting findings).behind token)
    | some (.name name) =>
      ((typeArguments eof rest).andThen fun typeArgs rest _ =>
        (delimited eof (.punct .lparen) (.punct .rparen) rest fun inner _ =>
          expression eof 0 inner).map (Expr.ofName name typeArgs)).behind token
    | some .group =>
      (within (skipNewlines_suffix rest) <|
        (expression eof 0 (skipNewlines rest)).andThen fun inside rest _ =>
          expecting eof (.punct .rparen) rest fun _ _ _ => silent (.done inside)).behind token
    | none =>
      let missing := [⟨.expectedExpression token.kind, token.span⟩]
      if token.kind.isBoundary then silent ((Outcome.done .placeholder).reporting missing)
      else silent (((Outcome.done .placeholder).reporting missing).behind token)
termination_by 3 * input.length + 1
decreasing_by
  all_goals
    have hnewlines := length_skipNewlines_le rest
    simp only [List.length_cons]
    omega

/-- Parses the operators behind an operand: those that bind at least as tightly as `least`
and no tighter than `most`. -/
def operators (eof : Token) (least most : Nat) (first : Expr) (input : List Token) :
    Traced input Expr :=
  match input with
  | [] => silent (.done first)
  | token :: rest =>
    match Continuation.ofKind? token.kind with
    | some (.trailing op) =>
      if least ≤ trailingPower ∧ trailingPower ≤ most then
        (turning .operators (token :: rest) <|
          operators eof least most (.unary op .behind first) rest).behind token
      else silent (.done first)
    | some .cast =>
      if least ≤ castPower then
        ((typeExpr eof rest).andThen fun target behind _ =>
          turning .operators (token :: rest) <|
            operators eof least castPower (.cast first target) behind).behind token
      else silent (.done first)
    | some (.binary op) =>
      if least ≤ op.powers.1 ∧ op.powers.1 ≤ most then
        ((expression eof op.powers.2 rest).andThen fun second behind _ =>
          turning .operators (token :: rest) <|
            operators eof least (min most op.powers.1) (.binary op first second)
              behind).behind token
      else silent (.done first)
    | none => silent (.done first)
termination_by 3 * input.length
decreasing_by all_goals simp only [List.length_cons]; omega
end

end Traced

/-! ## Outcomes -/

def expression (eof : Token) (least : Nat) (input : List Token) : Outcome input Expr :=
  (Traced.expression eof least input).outcome

def operand (eof : Token) (input : List Token) : Outcome input Expr :=
  (Traced.operand eof input).outcome

def operators (eof : Token) (least most : Nat) (first : Expr) (input : List Token) :
    Outcome input Expr :=
  (Traced.operators eof least most first input).outcome

section Equations

variable (eof token : Token) (least most : Nat) (first : Expr) (input rest : List Token)

theorem expression_def :
    expression eof least input =
      (operand eof input).andThen fun first rest _ =>
        operators eof least unboundedPower first rest := by
  rw [expression, Traced.expression, Traced.outcome_entering, Traced.outcome_andThen]
  rfl

theorem operand_nil :
    operand eof [] =
      (Outcome.done .placeholder).reporting [⟨.expectedExpression eof.kind, eof.span⟩] := by
  rw [operand, Traced.operand]
  rfl

theorem operand_cons :
    operand eof (token :: rest) =
      match Opening.ofToken? token with
      | some (.leading op) =>
        ((expression eof leadingPower rest).map (.unary op .before)).behind token
      | some (.literal value findings) =>
        ((Outcome.done (.literal value)).reporting findings).behind token
      | some (.name name) =>
        ((typeArguments eof rest).andThen fun typeArgs rest _ =>
          (delimited eof (.punct .lparen) (.punct .rparen) rest fun inner _ =>
            expression eof 0 inner).map (Expr.ofName name typeArgs)).behind token
      | some .group =>
        (Outcome.within (skipNewlines_suffix rest) <|
          (expression eof 0 (skipNewlines rest)).andThen fun inside rest _ =>
            expecting eof (.punct .rparen) rest fun _ _ _ => .done inside).behind token
      | none =>
        let missing := [⟨.expectedExpression token.kind, token.span⟩]
        if token.kind.isBoundary then (Outcome.done .placeholder).reporting missing
        else ((Outcome.done .placeholder).reporting missing).behind token := by
  rw [operand, Traced.operand]
  cases Opening.ofToken? token with
  | none =>
      simp only [Traced.outcome_entering]
      split <;> rfl
  | some opening =>
      cases opening with
      | leading op => rfl
      | literal value findings => rfl
      | name name =>
          simp only [Traced.outcome_entering, Traced.outcome_behind, Traced.outcome_andThen,
            Traced.outcome_map, Traced.outcome_delimited]
          rfl
      | group =>
          simp only [Traced.outcome_entering, Traced.outcome_behind, Traced.outcome_within,
            Traced.outcome_andThen, Traced.outcome_expecting]
          rfl

@[simp]
theorem operators_nil : operators eof least most first [] = .done first := by
  rw [operators, Traced.operators]
  rfl

theorem operators_cons :
    operators eof least most first (token :: rest) =
      match Continuation.ofKind? token.kind with
      | some (.trailing op) =>
        if least ≤ trailingPower ∧ trailingPower ≤ most then
          (operators eof least most (.unary op .behind first) rest).behind token
        else .done first
      | some .cast =>
        if least ≤ castPower then
          ((typeExpr eof rest).andThen fun target rest _ =>
            operators eof least castPower (.cast first target) rest).behind token
        else .done first
      | some (.binary op) =>
        if least ≤ op.powers.1 ∧ op.powers.1 ≤ most then
          ((expression eof op.powers.2 rest).andThen fun second rest _ =>
            operators eof least (min most op.powers.1) (.binary op first second) rest).behind token
        else .done first
      | none => .done first := by
  rw [operators, Traced.operators]
  cases Continuation.ofKind? token.kind with
  | none => rfl
  | some continuation =>
      cases continuation <;> simp only [apply_ite Traced.outcome, Traced.outcome_behind,
        Traced.outcome_andThen] <;> rfl

end Equations

end KCompiler
