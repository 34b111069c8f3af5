import KCompiler.Proofs.Grammar

/-! # Well-formed trees

Trees that can be written down: only names are applied to types and called, only increments
and decrements stand behind their operand, and every declaration knows its place and carries
modifiers that suit it.
-/

namespace KCompiler

open Grammar

def Ty.isGeneric : Ty → Bool
  | .generic _ _ => true
  | _ => false

mutual
/-- Only a builtin or named type is applied to arguments. -/
def Ty.WellFormed : Ty → Prop
  | .builtin _ => True
  | .named _ => True
  | .generic base args => base.isGeneric = false ∧ Ty.AllWellFormed args

def Ty.AllWellFormed : List Ty → Prop
  | [] => True
  | type :: types => type.WellFormed ∧ Ty.AllWellFormed types
end

def Expr.isIdent : Expr → Bool
  | .ident _ => true
  | _ => false

/-- The unary operators that can be written on a side of their operand. -/
def UnaryOp.standsOn (op : UnaryOp) : Side → Bool
  | .before => true
  | .behind => op = .inc || op = .dec

mutual
/-- Only a name is called, and only increments and decrements stand behind their operand. -/
def Expr.WellFormed : Expr → Prop
  | .ident _ => True
  | .literal _ => True
  | .binary _ lhs rhs => lhs.WellFormed ∧ rhs.WellFormed
  | .unary op side operand => op.standsOn side ∧ operand.WellFormed
  | .cast operand target => operand.WellFormed ∧ target.WellFormed
  | .call callee typeArgs args =>
    callee.isIdent ∧ Ty.AllWellFormed typeArgs ∧ Expr.AllWellFormed args

def Expr.AllWellFormed : List Expr → Prop
  | [] => True
  | expr :: exprs => expr.WellFormed ∧ Expr.AllWellFormed exprs
end

/-- The declaration of a variable, a field or a parameter at a place of the program. -/
structure VariableDecl.WellFormed (scope : Scope) (decl : VariableDecl) : Prop where
  scope_eq : decl.scope = scope
  allowed : Allowed decl.modifiers scope .variable
  type : decl.type.WellFormed
  init : ∀ init ∈ decl.init, init.WellFormed

/-- A function at a place of the program. Its parameters have no initial value. -/
structure Signature.WellFormed (scope : Scope) (signature : Signature) : Prop where
  scope_eq : signature.scope = scope
  allowed : Allowed signature.modifiers scope .function
  returnType : signature.returnType.WellFormed
  params : ∀ param ∈ signature.params, param.WellFormed .parameter ∧ param.init = none

/-- A record at a place of the program. -/
structure RecordHead.WellFormed (scope : Scope) (head : RecordHead) : Prop where
  scope_eq : head.scope = scope
  allowed : Allowed head.modifiers scope .record
  type : head.type.WellFormed
  fields : ∀ field ∈ head.fields, field.WellFormed .field

mutual
/-- A statement at a place of the program. What stands in a block is local to it. -/
def Stmt.WellFormed (scope : Scope) : Stmt → Prop
  | .expr value => value.WellFormed
  | .variable decl => decl.WellFormed scope
  | .typeAlias target _ => target.WellFormed
  | .record head methods => head.WellFormed scope ∧ FunctionDecl.AllWellFormed .method methods
  | .branch condition body none => condition.WellFormed ∧ Stmt.AllWellFormed .block body
  | .branch condition body (some otherwise) =>
    condition.WellFormed ∧ Stmt.AllWellFormed .block body ∧ Stmt.AllWellFormed .block otherwise
  | .loop condition body => condition.WellFormed ∧ Stmt.AllWellFormed .block body
  | .defer body => Stmt.AllWellFormed .block body
  | .break => True
  | .continue => True
  | .function decl => decl.WellFormed scope

def Stmt.AllWellFormed (scope : Scope) : List Stmt → Prop
  | [] => True
  | stmt :: stmts => stmt.WellFormed scope ∧ Stmt.AllWellFormed scope stmts

def FunctionDecl.WellFormed (scope : Scope) : FunctionDecl → Prop
  | ⟨signature, body⟩ => signature.WellFormed scope ∧ Stmt.AllWellFormed .block body

def FunctionDecl.AllWellFormed (scope : Scope) : List FunctionDecl → Prop
  | [] => True
  | decl :: decls => decl.WellFormed scope ∧ FunctionDecl.AllWellFormed scope decls
end

def Module.WellFormed (program : Module) : Prop :=
  Stmt.AllWellFormed .topLevel program.statements

end KCompiler
