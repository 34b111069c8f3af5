import KCompiler.Token.Kind

/-! # Operators of expressions

Binary and unary operators by meaning. Each is written by one operator symbol; a
symbol such as `-` writes a binary and a unary operator.
-/

namespace KCompiler

/-- Operators between two operands. -/
inductive BinaryOp where
  | assign | addAssign | subAssign | mulAssign | divAssign | remAssign | andAssign | orAssign
  | xorAssign | shlAssign | shrAssign | logicalOr | logicalAnd | bitOr | bitXor | bitAnd | eq | ne
  | lt | le | gt | ge | shl | shr | add | sub | mul | div | rem
  deriving DecidableEq, Repr

namespace BinaryOp

def all : List BinaryOp :=
  [.assign, .addAssign, .subAssign, .mulAssign, .divAssign, .remAssign, .andAssign, .orAssign,
    .xorAssign, .shlAssign, .shrAssign, .logicalOr, .logicalAnd, .bitOr, .bitXor, .bitAnd, .eq,
    .ne, .lt, .le, .gt, .ge, .shl, .shr, .add, .sub, .mul, .div, .rem]

/-- The symbol that writes a binary operator. -/
def operator : BinaryOp → Operator
  | .assign => .assign
  | .addAssign => .plusEq
  | .subAssign => .minusEq
  | .mulAssign => .starEq
  | .divAssign => .slashEq
  | .remAssign => .percentEq
  | .andAssign => .ampEq
  | .orAssign => .pipeEq
  | .xorAssign => .caretEq
  | .shlAssign => .shlEq
  | .shrAssign => .shrEq
  | .logicalOr => .pipePipe
  | .logicalAnd => .ampAmp
  | .bitOr => .pipe
  | .bitXor => .caret
  | .bitAnd => .amp
  | .eq => .eqEq
  | .ne => .bangEq
  | .lt => .less
  | .le => .lessEq
  | .gt => .greater
  | .ge => .greaterEq
  | .shl => .shl
  | .shr => .shr
  | .add => .plus
  | .sub => .minus
  | .mul => .star
  | .div => .slash
  | .rem => .percent

def symbol (op : BinaryOp) : String :=
  op.operator.symbol

/-- The name of a binary operator in outlines. -/
def name : BinaryOp → String
  | .assign => "Assign"
  | .addAssign => "AddAssign"
  | .subAssign => "SubAssign"
  | .mulAssign => "MulAssign"
  | .divAssign => "DivAssign"
  | .remAssign => "RemAssign"
  | .andAssign => "AndAssign"
  | .orAssign => "OrAssign"
  | .xorAssign => "XorAssign"
  | .shlAssign => "ShlAssign"
  | .shrAssign => "ShrAssign"
  | .logicalOr => "LogicalOr"
  | .logicalAnd => "LogicalAnd"
  | .bitOr => "BitOr"
  | .bitXor => "BitXor"
  | .bitAnd => "BitAnd"
  | .eq => "Eq"
  | .ne => "Ne"
  | .lt => "Lt"
  | .le => "Le"
  | .gt => "Gt"
  | .ge => "Ge"
  | .shl => "Shl"
  | .shr => "Shr"
  | .add => "Add"
  | .sub => "Sub"
  | .mul => "Mul"
  | .div => "Div"
  | .rem => "Rem"

/-- Whether an operator stores into its left operand. -/
def isAssignment : BinaryOp → Bool
  | .assign | .addAssign | .subAssign | .mulAssign | .divAssign | .remAssign | .andAssign
  | .orAssign | .xorAssign | .shlAssign | .shrAssign => true
  | _ => false

/-- The binary operator that a symbol writes. -/
def ofOperator? : Operator → Option BinaryOp
  | .assign => some .assign
  | .plusEq => some .addAssign
  | .minusEq => some .subAssign
  | .starEq => some .mulAssign
  | .slashEq => some .divAssign
  | .percentEq => some .remAssign
  | .ampEq => some .andAssign
  | .pipeEq => some .orAssign
  | .caretEq => some .xorAssign
  | .shlEq => some .shlAssign
  | .shrEq => some .shrAssign
  | .pipePipe => some .logicalOr
  | .ampAmp => some .logicalAnd
  | .pipe => some .bitOr
  | .caret => some .bitXor
  | .amp => some .bitAnd
  | .eqEq => some .eq
  | .bangEq => some .ne
  | .less => some .lt
  | .lessEq => some .le
  | .greater => some .gt
  | .greaterEq => some .ge
  | .shl => some .shl
  | .shr => some .shr
  | .plus => some .add
  | .minus => some .sub
  | .star => some .mul
  | .slash => some .div
  | .percent => some .rem
  | .plusPlus | .minusMinus | .bang | .tilde => none

theorem ofOperator?_eq_some_iff {symbol : Operator} {op : BinaryOp} :
    ofOperator? symbol = some op ↔ op.operator = symbol := by
  constructor
  · cases symbol <;> simp only [ofOperator?] <;> intro h <;> cases h <;> rfl
  · rintro rfl
    cases op <;> rfl

end BinaryOp

/-- Operators on one operand. -/
inductive UnaryOp where
  | plus | neg | not | bitNot | inc | dec
  deriving DecidableEq, Repr

namespace UnaryOp

def all : List UnaryOp :=
  [.plus, .neg, .not, .bitNot, .inc, .dec]

/-- The symbol that writes a unary operator. -/
def operator : UnaryOp → Operator
  | .plus => .plus
  | .neg => .minus
  | .not => .bang
  | .bitNot => .tilde
  | .inc => .plusPlus
  | .dec => .minusMinus

def symbol (op : UnaryOp) : String :=
  op.operator.symbol

/-- The name of a unary operator in outlines. -/
def name : UnaryOp → String
  | .plus => "Plus"
  | .neg => "Neg"
  | .not => "Not"
  | .bitNot => "BitNot"
  | .inc => "Inc"
  | .dec => "Dec"

/-- The unary operator that a symbol writes before its operand. -/
def leading? : Operator → Option UnaryOp
  | .plus => some .plus
  | .minus => some .neg
  | .bang => some .not
  | .tilde => some .bitNot
  | .plusPlus => some .inc
  | .minusMinus => some .dec
  | _ => none

/-- The unary operator that a symbol writes behind its operand. -/
def trailing? : Operator → Option UnaryOp
  | .plusPlus => some .inc
  | .minusMinus => some .dec
  | _ => none

end UnaryOp
end KCompiler
