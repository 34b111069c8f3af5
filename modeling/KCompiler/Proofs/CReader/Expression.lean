import KCompiler.Proofs.CReader.Words

/-! # Expressions of C

A reader of C expressions by C's own levels: assignments, ten levels of binary operators that
group to the left, casts and unary operators before an operand, those behind it, and primary
expressions. Nothing is known about types: a name in parentheses is a type if a name, a literal or
a parenthesis stands behind it, as without calls nothing else can be meant, and a value before an
operator. Whether the left of an assignment can be assigned to is no matter of reading.
-/

namespace KCompiler.C

/-- What was read from the front of some words, and the words behind it. -/
structure Reading (input : List Word) where
  expr : Expr
  rest : List Word
  length_le : rest.length ≤ input.length

namespace Reading

variable {input : List Word}

/-- An expression without taking a word. -/
def done (expr : Expr) : Option (Reading input) :=
  some ⟨expr, input, Nat.le_refl _⟩

/-- What was read behind a word that has been taken. -/
def behind (word : Word) (reading : Option (Reading input)) : Option (Reading (word :: input)) :=
  reading.map fun ⟨expr, rest, hlength⟩ => ⟨expr, rest, Nat.le_succ_of_le hlength⟩

def map (f : Expr → Expr) (reading : Option (Reading input)) : Option (Reading input) :=
  Option.map (fun ⟨expr, rest, hlength⟩ => ⟨f expr, rest, hlength⟩) reading

/-- Goes on behind what was read. -/
def andThen (reading : Option (Reading input))
    (next : Expr → (rest : List Word) → rest.length ≤ input.length → Option (Reading rest)) :
    Option (Reading input) :=
  reading.bind fun ⟨expr, rest, hlength⟩ =>
    (next expr rest hlength).map fun ⟨expr, left, hleft⟩ => ⟨expr, left, Nat.le_trans hleft hlength⟩

end Reading

/-- The operators of an assignment. -/
def assignments : List BinaryOp :=
  [.assign, .mulAssign, .divAssign, .remAssign, .addAssign, .subAssign, .shlAssign, .shrAssign,
    .andAssign, .xorAssign, .orAssign]

/-- The levels of binary operators, from the loosest to the tightest. -/
def levels : List (List BinaryOp) :=
  [[.logicalOr], [.logicalAnd], [.bitOr], [.bitXor], [.bitAnd], [.eq, .ne], [.lt, .gt, .le, .ge],
    [.shl, .shr], [.add, .sub], [.mul, .div, .rem]]

/-- The operator among some that a word writes. -/
def operatorOf? (ops : List BinaryOp) : Word → Option BinaryOp
  | .op operator => (BinaryOp.ofOperator? operator).filter (· ∈ ops)
  | _ => none

/-- The operator behind an operand that a word writes. -/
def trailingOf? : Word → Option UnaryOp
  | .op operator => UnaryOp.trailing? operator
  | _ => none

/-- Words that begin an operand and cannot stand behind one. -/
def beginsOperand : Word → Bool
  | .name _ | .literal _ | .punct .lparen => true
  | _ => false

open Reading

/-- Reads the operators behind a primary expression. -/
def trailers (first : Expr) : (input : List Word) → Option (Reading input)
  | [] => done first
  | word :: rest =>
    match trailingOf? word with
    | some op => behind word (trailers (.unary op .behind first) rest)
    | none => done first

mutual
/-- Reads an assignment, or what is tighter. -/
def assignment (input : List Word) : Option (Reading input) :=
  andThen (binary levels input) fun first rest _ =>
    match rest with
    | [] => done first
    | word :: rest =>
      match operatorOf? assignments word with
      | some op => behind word (map (.binary op first) (assignment rest))
      | none => done first
termination_by (input.length, 15)
decreasing_by
  · simp [Prod.lex_def, levels]
  · grind

/-- Reads binary operators of some levels. -/
def binary (ladder : List (List BinaryOp)) (input : List Word) : Option (Reading input) :=
  match ladder with
  | [] => unary input
  | ops :: tighter =>
    andThen (binary tighter input) fun first rest _ => chain ops tighter first rest
termination_by (input.length, 4 + ladder.length)
decreasing_by all_goals grind

/-- Reads the operators of one level behind an operand, each with the operand to its right. -/
def chain (ops : List BinaryOp) (tighter : List (List BinaryOp)) (first : Expr)
    (input : List Word) : Option (Reading input) :=
  match input with
  | [] => done first
  | word :: rest =>
    match operatorOf? ops word with
    | some op =>
      behind word (andThen (binary tighter rest) fun second rest _ =>
        chain ops tighter (.binary op first second) rest)
    | none => done first
termination_by (input.length, 3)
decreasing_by all_goals grind

/-- Reads a cast, or an operand with the operators before and behind it. -/
def unary (input : List Word) : Option (Reading input) :=
  match input with
  | .punct .lparen :: .name type :: .punct .rparen :: word :: rest =>
    if beginsOperand word then
      behind _ (behind _ (behind _ (map (.cast · (.named type)) (unary (word :: rest)))))
    else suffixed _
  | .op operator :: rest =>
    match UnaryOp.leading? operator with
    | some op => behind _ (map (.unary op .before) (unary rest))
    | none => none
  | input => suffixed input
termination_by (input.length, 3)
decreasing_by all_goals grind

/-- Reads a primary expression and the operators behind it. -/
def suffixed (input : List Word) : Option (Reading input) :=
  andThen (primary input) fun first rest _ => trailers first rest
termination_by (input.length, 2)
decreasing_by all_goals grind

/-- Reads a name, a literal or an expression in parentheses. -/
def primary (input : List Word) : Option (Reading input) :=
  match input with
  | .name name :: _ => behind _ (done (.ident name))
  | .literal value :: _ => behind _ (done (.literal value))
  | .punct .lparen :: rest =>
    behind _ (andThen (assignment rest) fun inside rest _ =>
      match rest with
      | .punct .rparen :: _ => behind _ (done inside)
      | _ => none)
  | _ => none
termination_by (input.length, 1)
decreasing_by all_goals grind
end

/-- Reads a text as one expression. -/
def readExpression (text : String) : Option Expr :=
  (words? text.toList).bind fun words =>
    match assignment words with
    | some ⟨expr, [], _⟩ => some expr
    | _ => none

/-- Reads a text as one expression statement. -/
def readStatement (text : String) : Option Expr :=
  (words? text.toList).bind fun words =>
    match assignment words with
    | some ⟨expr, [.punct .semicolon], _⟩ => some expr
    | _ => none

end KCompiler.C
