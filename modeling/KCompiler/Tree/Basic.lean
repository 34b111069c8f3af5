import KCompiler.Number.Binary64
import KCompiler.Tree.Modifier
import KCompiler.Tree.Operator

/-! # Syntax trees

Types, expressions, statements and modules. A tree holds no places of the source:
two sources that differ in spacing have the same tree.
-/

namespace KCompiler

/-- A type as it is written: a builtin or named one, or one applied to arguments. -/
inductive Ty where
  | builtin (name : String)
  | named (name : String)
  | generic (base : Ty) (args : List Ty)

namespace Ty

/-- The type of a function that gives no value. -/
def unit : Ty := .builtin Builtin.unit.symbol

mutual
/-- A type in its written form. -/
def text : Ty → String
  | .builtin name => name
  | .named name => name
  | .generic base args => base.text ++ "[" ++ ", ".intercalate (texts args) ++ "]"

def texts : List Ty → List String
  | [] => []
  | type :: types => type.text :: texts types
end

end Ty

/-- A constant of the source. -/
inductive Literal where
  | int (value : Int)
  | float (value : Number.Binary64)
  | string (value : String)
  | char (value : Char)
  | bool (value : Bool)
  deriving DecidableEq, Repr

/-- On which side of its operand a unary operator stands. -/
inductive Side where
  | before
  | behind
  deriving DecidableEq, Repr

/-- Expressions. -/
inductive Expr where
  | ident (name : String)
  | literal (value : Literal)
  | binary (op : BinaryOp) (lhs rhs : Expr)
  | unary (op : UnaryOp) (side : Side) (operand : Expr)
  | cast (operand : Expr) (target : Ty)
  | call (callee : Expr) (typeArgs : List Ty) (args : List Expr)

/-- What stands where an expression is missing. -/
def Expr.placeholder : Expr := .literal (.int 0)

instance : Inhabited Expr := ⟨.placeholder⟩

/-- The declaration of a variable, a record field or a parameter. -/
structure VariableDecl where
  name : String
  type : Ty
  init : Option Expr
  modifiers : Modifiers
  scope : Scope

def VariableDecl.isMutable (decl : VariableDecl) : Bool :=
  decl.modifiers.contains .mut

/-- All of a function but its body. -/
structure Signature where
  name : String
  modifiers : Modifiers
  generics : List String
  returnType : Ty
  params : List VariableDecl
  scope : Scope

/-- All of a record but its methods. -/
structure RecordHead where
  type : Ty
  fields : List VariableDecl
  modifiers : Modifiers
  scope : Scope

mutual
/-- Statements and declarations. -/
inductive Stmt where
  | expr (value : Expr)
  | «variable» (decl : VariableDecl)
  | typeAlias (target : Ty) (name : String)
  | record (head : RecordHead) (methods : List FunctionDecl)
  | branch (condition : Expr) (body : List Stmt) (otherwise : Option (List Stmt))
  | loop (condition : Expr) (body : List Stmt)
  | defer (body : List Stmt)
  | «break»
  | «continue»
  | function (decl : FunctionDecl)

/-- A function or a method. -/
structure FunctionDecl where
  signature : Signature
  body : List Stmt
end

/-- A whole source file. -/
structure Module where
  name : String
  statements : List Stmt

/-- What stands for a file without a usable header. -/
def Module.error : Module := ⟨"error", []⟩

instance : Inhabited Module := ⟨.error⟩

/-- A signature whose modifiers suit a function at its place. -/
def Signature.validate (signature : Signature) : Except ModifierError Signature :=
  (signature.modifiers.validate signature.scope .function).map fun _ => signature

/-- A record head whose modifiers suit a record at its place. -/
def RecordHead.validate (head : RecordHead) : Except ModifierError RecordHead :=
  (head.modifiers.validate head.scope .record).map fun _ => head

/-- A function whose modifiers suit it. -/
def FunctionDecl.validate : FunctionDecl → Except ModifierError FunctionDecl
  | ⟨signature, body⟩ => signature.validate.map fun signature => ⟨signature, body⟩

/-- A statement; one that declares a record or a function has modifiers that suit it. -/
def Stmt.validate : Stmt → Except ModifierError Stmt
  | .record head methods => head.validate.map fun head => .record head methods
  | .function decl => decl.validate.map .function
  | stmt => .ok stmt

end KCompiler
