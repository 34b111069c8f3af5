import KCompiler.Number.Shortest
import KCompiler.Text.Layout
import KCompiler.Text.Quoted
import KCompiler.Tree.Basic

/-! # Outlines of syntax trees

A tree as an indented list, one node a line, children one step deeper than their
parent.
-/

namespace KCompiler

/-- A line of an outline, by depth. -/
structure OutlineLine where
  depth : Nat
  text : String
  deriving DecidableEq, Repr

/-- The width of one step of indentation. -/
def indentWidth : Nat := 2

def OutlineLine.render (line : OutlineLine) : String :=
  Text.blanks (indentWidth * line.depth) ++ line.text ++ "\n"

/-- An outline as a text. -/
def renderOutline (lines : List OutlineLine) : String :=
  String.join (lines.map OutlineLine.render)

/-- Modifiers in brackets after a blank, and nothing for none. -/
def Modifiers.outlineText (modifiers : Modifiers) : String :=
  if modifiers.isEmpty then "" else " [" ++ modifiers.text ++ "]"

def Literal.outlineText : Literal → String
  | .int value => "int " ++ toString value
  | .float value => "float " ++ value.text
  | .string value => "string " ++ Text.quoted value
  | .char value => "char " ++ Text.quotedChar value
  | .bool value => "bool " ++ toString value

def Side.outlineText : Side → String
  | .before => "prefix"
  | .behind => "postfix"

def Ty.outline (depth : Nat) (type : Ty) : OutlineLine :=
  ⟨depth, "type " ++ type.text⟩

mutual
/-- The outline of an expression at a depth. -/
def Expr.outline (depth : Nat) : Expr → List OutlineLine
  | .ident name => [⟨depth, "ident " ++ name⟩]
  | .literal value => [⟨depth, value.outlineText⟩]
  | .binary op lhs rhs =>
    ⟨depth, "binary " ++ op.name⟩ :: (lhs.outline (depth + 1) ++ rhs.outline (depth + 1))
  | .unary op side operand =>
    ⟨depth, "unary " ++ op.name ++ " (" ++ side.outlineText ++ ")"⟩ :: operand.outline (depth + 1)
  | .cast operand target => ⟨depth, "cast " ++ target.text⟩ :: operand.outline (depth + 1)
  | .call callee typeArgs args =>
    ⟨depth, "call"⟩ :: (callee.outline (depth + 1) ++
      (if typeArgs.isEmpty then []
        else ⟨depth + 1, "type arguments"⟩ :: typeArgs.map (Ty.outline (depth + 2))) ++
      (if args.isEmpty then []
        else ⟨depth + 1, "arguments"⟩ :: Expr.outlines (depth + 2) args))

def Expr.outlines (depth : Nat) : List Expr → List OutlineLine
  | [] => []
  | expr :: exprs => expr.outline depth ++ Expr.outlines depth exprs
end

def VariableDecl.outline (depth : Nat) (decl : VariableDecl) : List OutlineLine :=
  ⟨depth, "variable " ++ decl.name ++ ": " ++ decl.type.text ++ decl.modifiers.outlineText ++
      " (" ++ decl.scope.text ++ ")"⟩ ::
    match decl.init with
    | some init => init.outline (depth + 1)
    | none => []

/-- A parameter in a signature: its name and type, and `mut` before them if it is mutable. -/
def VariableDecl.parameterText (decl : VariableDecl) : String :=
  (if decl.isMutable then "mut " else "") ++ decl.name ++ ": " ++ decl.type.text

def Signature.outlineText (signature : Signature) : String :=
  "function " ++ signature.name ++
    (if signature.generics.isEmpty then ""
      else "[" ++ ", ".intercalate signature.generics ++ "]") ++
    "(" ++ ", ".intercalate (signature.params.map VariableDecl.parameterText) ++ "): " ++
    signature.returnType.text ++ signature.modifiers.outlineText ++
    " (" ++ signature.scope.text ++ ")"

mutual
/-- The outline of a statement at a depth. -/
def Stmt.outline (depth : Nat) : Stmt → List OutlineLine
  | .expr value => value.outline depth
  | .variable decl => decl.outline depth
  | .typeAlias target name => [⟨depth, "alias " ++ target.text ++ " as " ++ name⟩]
  | .record head methods =>
    ⟨depth, "record " ++ head.type.text ++ head.modifiers.outlineText ++
        " (" ++ head.scope.text ++ ")"⟩ ::
      (head.fields.flatMap (VariableDecl.outline (depth + 1)) ++
        FunctionDecl.outlines (depth + 1) methods)
  | .branch condition body none =>
    ⟨depth, "if"⟩ :: (condition.outline (depth + 1) ++
      ⟨depth + 1, "then"⟩ :: Stmt.outlines (depth + 2) body)
  | .branch condition body (some otherwise) =>
    ⟨depth, "if"⟩ :: (condition.outline (depth + 1) ++
      ⟨depth + 1, "then"⟩ :: (Stmt.outlines (depth + 2) body ++
        ⟨depth + 1, "else"⟩ :: Stmt.outlines (depth + 2) otherwise))
  | .loop condition body =>
    ⟨depth, "while"⟩ :: (condition.outline (depth + 1) ++
      ⟨depth + 1, "body"⟩ :: Stmt.outlines (depth + 2) body)
  | .defer body => ⟨depth, "defer"⟩ :: Stmt.outlines (depth + 1) body
  | .break => [⟨depth, "break"⟩]
  | .continue => [⟨depth, "continue"⟩]
  | .function decl => decl.outline depth

def Stmt.outlines (depth : Nat) : List Stmt → List OutlineLine
  | [] => []
  | stmt :: stmts => stmt.outline depth ++ Stmt.outlines depth stmts

def FunctionDecl.outline (depth : Nat) : FunctionDecl → List OutlineLine
  | ⟨signature, body⟩ => ⟨depth, signature.outlineText⟩ :: Stmt.outlines (depth + 1) body

def FunctionDecl.outlines (depth : Nat) : List FunctionDecl → List OutlineLine
  | [] => []
  | decl :: decls => decl.outline depth ++ FunctionDecl.outlines depth decls
end

def Module.outline (program : Module) : List OutlineLine :=
  ⟨0, "module " ++ program.name⟩ :: Stmt.outlines 1 program.statements

/-- The outline of an expression as a text. -/
def Expr.outlineText (expr : Expr) : String :=
  renderOutline (expr.outline 0)

/-- The outline of a module as a text. -/
def Module.outlineText (program : Module) : String :=
  renderOutline program.outline

end KCompiler
