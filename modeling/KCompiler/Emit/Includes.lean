import KCompiler.Tree.Basic

/-! # Headers that a module calls for

A call of a name that begins with an at sign names a C header: what stands between the
sign and the first underscore. Headers are listed once each, in the order in which the
calls appear.
-/

namespace KCompiler

/-- The header that a called name belongs to, if it names one. -/
def headerOf? (name : String) : Option String :=
  match name.toList with
  | '@' :: rest =>
    let stem := rest.takeWhile (· ≠ '_')
    if stem.isEmpty then none else some (String.ofList stem ++ ".h")
  | _ => none

/-- Adds a header behind the others, unless it is there. -/
def addHeader (headers : List String) (header : String) : List String :=
  if headers.contains header then headers else headers ++ [header]

mutual
/-- Adds the headers of the calls in an expression to those found before. A callee is not
searched for calls. -/
def Expr.collectHeaders (headers : List String) : Expr → List String
  | .ident _ => headers
  | .literal _ => headers
  | .binary _ lhs rhs => rhs.collectHeaders (lhs.collectHeaders headers)
  | .unary _ _ operand => operand.collectHeaders headers
  | .cast operand _ => operand.collectHeaders headers
  | .call (.ident name) _ args =>
    Expr.collectAllHeaders ((headerOf? name).elim headers (addHeader headers)) args
  | .call _ _ args => Expr.collectAllHeaders headers args

def Expr.collectAllHeaders (headers : List String) : List Expr → List String
  | [] => headers
  | expr :: exprs => Expr.collectAllHeaders (expr.collectHeaders headers) exprs
end

def VariableDecl.collectHeaders (headers : List String) (decl : VariableDecl) : List String :=
  decl.init.elim headers (Expr.collectHeaders headers)

mutual
/-- Adds the headers of the calls in a statement to those found before. -/
def Stmt.collectHeaders (headers : List String) : Stmt → List String
  | .expr value => value.collectHeaders headers
  | .variable decl => decl.collectHeaders headers
  | .typeAlias _ _ => headers
  | .record head methods =>
    FunctionDecl.collectAllHeaders (head.fields.foldl VariableDecl.collectHeaders headers) methods
  | .branch condition body none =>
    Stmt.collectAllHeaders (condition.collectHeaders headers) body
  | .branch condition body (some otherwise) =>
    Stmt.collectAllHeaders (Stmt.collectAllHeaders (condition.collectHeaders headers) body)
      otherwise
  | .loop condition body => Stmt.collectAllHeaders (condition.collectHeaders headers) body
  | .defer body => Stmt.collectAllHeaders headers body
  | .break => headers
  | .continue => headers
  | .function decl => decl.collectHeaders headers

def Stmt.collectAllHeaders (headers : List String) : List Stmt → List String
  | [] => headers
  | stmt :: stmts => Stmt.collectAllHeaders (stmt.collectHeaders headers) stmts

def FunctionDecl.collectHeaders (headers : List String) : FunctionDecl → List String
  | ⟨_, body⟩ => Stmt.collectAllHeaders headers body

def FunctionDecl.collectAllHeaders (headers : List String) : List FunctionDecl → List String
  | [] => headers
  | decl :: decls => FunctionDecl.collectAllHeaders (decl.collectHeaders headers) decls
end

/-- The headers that a module calls for. -/
def Module.headers (program : Module) : List String :=
  Stmt.collectAllHeaders [] program.statements

end KCompiler
