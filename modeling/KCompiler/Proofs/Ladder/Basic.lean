import KCompiler.Parse.Expression

/-! # The precedence ladder

Expressions by layered descent, one function for each level of precedence: assignments
group to the right, casts take only further casts and assignments behind them, and ten levels
of binary operators group to the left. There are no binding powers here.
-/

namespace KCompiler

namespace Ladder

/-- The operators that store into their left operand; they are the loosest. -/
def assignments : List BinaryOp :=
  [.assign, .addAssign, .subAssign, .mulAssign, .divAssign, .remAssign, .andAssign, .orAssign,
    .xorAssign, .shlAssign, .shrAssign]

/-- The levels of operators that group to the left, from the loosest to the tightest. -/
def levels : List (List BinaryOp) :=
  [[.logicalOr], [.logicalAnd], [.bitOr], [.bitXor], [.bitAnd], [.eq, .ne], [.lt, .le, .gt, .ge],
    [.shl, .shr], [.add, .sub], [.mul, .div, .rem]]

/-- The operator of a level that a token writes. -/
def operatorOf? (ops : List BinaryOp) : Kind → Option BinaryOp
  | .op operator => (BinaryOp.ofOperator? operator).filter (· ∈ ops)
  | _ => none

/-- The operator before an operand that a token writes. -/
def leadingOf? : Kind → Option UnaryOp
  | .op operator => UnaryOp.leading? operator
  | _ => none

/-- The operator behind an operand that a token writes. -/
def trailingOf? : Kind → Option UnaryOp
  | .op operator => UnaryOp.trailing? operator
  | _ => none

/-- Parses the casts behind an operand. -/
def casts (eof : Token) (first : Expr) (input : List Token) : Outcome input Expr :=
  match input with
  | [] => .done first
  | token :: rest =>
    if token.kind = .keyword .as then
      ((typeExpr eof rest).andThen fun target rest _ =>
        casts eof (.cast first target) rest).behind token
    else .done first
termination_by input.length
decreasing_by simp only [List.length_cons]; omega

/-- Parses the unary operators behind an operand. -/
def trailers (first : Expr) : (input : List Token) → Outcome input Expr
  | [] => .done first
  | token :: rest =>
    match trailingOf? token.kind with
    | some op => (trailers (.unary op .behind first) rest).behind token
    | none => .done first

mutual
/-- Parses a cast and, behind an assignment operator, another assignment. -/
def assignment (eof : Token) (input : List Token) : Outcome input Expr :=
  (cast eof input).andThen fun first rest _ =>
    match rest with
    | [] => .done first
    | token :: rest =>
      match operatorOf? assignments token.kind with
      | some op => ((assignment eof rest).map (.binary op first)).behind token
      | none => .done first
termination_by (input.length, 16)
decreasing_by all_goals grind

/-- Parses an operand of assignments: an operand of casts, and the casts. -/
def cast (eof : Token) (input : List Token) : Outcome input Expr :=
  (level eof levels input).andThen fun first rest _ => casts eof first rest
termination_by (input.length, 15)
decreasing_by simp [Prod.lex_def, levels]

/-- Parses a level of binary operators and all that are tighter. -/
def level (eof : Token) (ladder : List (List BinaryOp)) (input : List Token) :
    Outcome input Expr :=
  match ladder with
  | [] => unary eof input
  | ops :: tighter =>
    (level eof tighter input).andThen fun first rest _ => chain eof ops tighter first rest
termination_by (input.length, 4 + ladder.length)
decreasing_by all_goals grind

/-- Parses the operators of one level behind an operand, each with the operand to its
right. -/
def chain (eof : Token) (ops : List BinaryOp) (tighter : List (List BinaryOp)) (first : Expr)
    (input : List Token) : Outcome input Expr :=
  match input with
  | [] => .done first
  | token :: rest =>
    match operatorOf? ops token.kind with
    | some op =>
      ((level eof tighter rest).andThen fun second rest _ =>
        chain eof ops tighter (.binary op first second) rest).behind token
    | none => .done first
termination_by (input.length, 3)
decreasing_by all_goals grind

/-- Parses an operand of binary operators: the unary operators before an operand, and the
operand with those behind it. -/
def unary (eof : Token) (input : List Token) : Outcome input Expr :=
  match input with
  | [] => trailing eof []
  | token :: rest =>
    match leadingOf? token.kind with
    | some op => ((unary eof rest).map (.unary op .before)).behind token
    | none => trailing eof (token :: rest)
termination_by (input.length, 3)
decreasing_by all_goals grind

/-- Parses an operand without operators, and the unary operators behind it. -/
def trailing (eof : Token) (input : List Token) : Outcome input Expr :=
  (primary eof input).andThen fun first rest _ => trailers first rest
termination_by (input.length, 2)
decreasing_by all_goals grind

/-- Parses an operand without operators: a literal, a name or call, or a group. A token that
begins none is reported and, unless it bounds the statement, taken. -/
def primary (eof : Token) (input : List Token) : Outcome input Expr :=
  match input with
  | [] => (Outcome.done .placeholder).reporting [⟨.expectedExpression eof.kind, eof.span⟩]
  | token :: rest =>
    match Opening.ofToken? token with
    | some (.literal value findings) =>
      ((Outcome.done (.literal value)).reporting findings).behind token
    | some (.name name) =>
      ((typeArguments eof rest).andThen fun typeArgs rest _ =>
        (delimited eof (.punct .lparen) (.punct .rparen) rest fun inner _ =>
          assignment eof inner).map (Expr.ofName name typeArgs)).behind token
    | some .group =>
      (Outcome.within (skipNewlines_suffix rest) <|
        (assignment eof (skipNewlines rest)).andThen fun inside rest _ =>
          expecting eof (.punct .rparen) rest fun _ _ _ => .done inside).behind token
    | _ =>
      let missing := [⟨.expectedExpression token.kind, token.span⟩]
      if token.kind.isBoundary then (Outcome.done .placeholder).reporting missing
      else ((Outcome.done .placeholder).reporting missing).behind token
termination_by (input.length, 1)
decreasing_by all_goals grind [length_skipNewlines_le]
end

end Ladder

end KCompiler
