import KCompiler.Emit.Escape
import KCompiler.Emit.Naming
import KCompiler.Number.Shortest
import KCompiler.Tree.Basic

/-! # C text of expressions and statements

Expressions are written with parentheses around every operation, so that C's precedence
plays no part. A tree that C cannot express, or that is not supported, is refused with the
first obstacle in the order of writing.
-/

namespace KCompiler

/-- Why a tree has no C text. -/
inductive Obstacle where
  | functionDeclaration
  | deferBlock
  | call
  | recordMethods
  | fieldInitializer
  /-- A name that begins with an at sign. -/
  | foreignName (name : String)
  | unknownBuiltin (name : String)
  | genericType (type : Ty)
  /-- A record whose type is not a plain name. -/
  | recordType (type : Ty)
  | missingInitializer (name : String)

def Obstacle.message : Obstacle → String
  | .functionDeclaration => "function declarations not implemented"
  | .deferBlock => "defer not implemented"
  | .call => "calls not implemented"
  | .recordMethods => "record methods not implemented"
  | .fieldInitializer => "record field initializers not implemented"
  | .foreignName name => "identifier `" ++ name ++ "` not supported"
  | .unknownBuiltin name => "builtin type `" ++ name ++ "` not supported"
  | .genericType type => "generic type `" ++ type.text ++ "` not supported"
  | .recordType type => "record type `" ++ type.text ++ "` not supported"
  | .missingInitializer name => "variable `" ++ name ++ "` has no initializer"

/-- A name of the program in C. -/
def emitName (mangling : Mangling) (name : String) : Except Obstacle String :=
  if name.toList.head? = some '@' then .error (.foreignName name) else .ok (mangling.apply name)

def Ty.emit (mangling : Mangling) : Ty → Except Obstacle String
  | .builtin name =>
    match builtinCType? name with
    | some cType => .ok cType
    | none => .error (.unknownBuiltin name)
  | .named name => emitName mangling name
  | .generic base args => .error (.genericType (.generic base args))

def Literal.emit (mangling : Mangling) : Literal → String
  | .int value => toString value
  | .float value => value.text
  | .string value => stringText value
  | .char value => charText value
  | .bool value => mangling.apply (if value then "TRUE" else "FALSE")

def Expr.emit (mangling : Mangling) : Expr → Except Obstacle String
  | .ident name => emitName mangling name
  | .literal value => .ok (value.emit mangling)
  | .binary op lhs rhs => do
    let left ← lhs.emit mangling
    let right ← rhs.emit mangling
    return "(" ++ left ++ op.symbol ++ right ++ ")"
  | .unary op .before operand => do
    let inner ← operand.emit mangling
    return "(" ++ op.symbol ++ inner ++ ")"
  | .unary op .behind operand => do
    let inner ← operand.emit mangling
    return "(" ++ inner ++ op.symbol ++ ")"
  | .cast operand target => do
    let type ← target.emit mangling
    let inner ← operand.emit mangling
    return "(" ++ type ++ ")(" ++ inner ++ ")"
  | .call _ _ _ => .error .call

/-- An expression as a statement. An assignment needs no parentheses there. -/
def Expr.emitStatement (mangling : Mangling) (expr : Expr) : Except Obstacle String := do
  match expr with
  | .binary op lhs rhs =>
    if op.isAssignment then
      let left ← lhs.emit mangling
      let right ← rhs.emit mangling
      return left ++ op.symbol ++ right ++ ";"
    else return (← expr.emit mangling) ++ ";"
  | expr => return (← expr.emit mangling) ++ ";"

/-- A variable needs an initial value; unless it is mutable it is constant. -/
def VariableDecl.emit (mangling : Mangling) (decl : VariableDecl) : Except Obstacle String := do
  match decl.init with
  | none => .error (.missingInitializer decl.name)
  | some init =>
    let type ← decl.type.emit mangling
    let name ← emitName mangling decl.name
    let value ← init.emit mangling
    return mangling.apply (if decl.isMutable then "MUT" else "IMMUT") ++ " " ++ type ++ " " ++
      name ++ "=" ++ value ++ ";"

/-- A field of a struct. -/
def VariableDecl.emitField (mangling : Mangling) (decl : VariableDecl) :
    Except Obstacle String := do
  if decl.init.isSome then .error .fieldInitializer
  else
    let type ← decl.type.emit mangling
    let name ← emitName mangling decl.name
    return type ++ " " ++ name ++ ";"

/-- A record without methods is a struct with its name. -/
def RecordHead.emit (mangling : Mangling) (head : RecordHead) : Except Obstacle String := do
  match head.type with
  | .named typeName =>
    let name ← emitName mangling typeName
    let fields ← head.fields.mapM (VariableDecl.emitField mangling)
    return "typedef struct " ++ name ++ "\x7b" ++ String.join fields ++ "\x7d" ++ name ++ ";"
  | type => .error (.recordType type)

mutual
def Stmt.emit (mangling : Mangling) : Stmt → Except Obstacle String
  | .expr value => value.emitStatement mangling
  | .variable decl => decl.emit mangling
  | .typeAlias target name => do
    let type ← target.emit mangling
    let newName ← emitName mangling name
    return "typedef " ++ type ++ " " ++ newName ++ ";"
  | .record head [] => head.emit mangling
  | .record _ (_ :: _) => .error .recordMethods
  | .branch condition body none => do
    let test ← condition.emit mangling
    let inner ← Stmt.emitAll mangling body
    return "if(" ++ test ++ ")\x7b" ++ inner ++ "\x7d"
  | .branch condition body (some otherwise) => do
    let test ← condition.emit mangling
    let inner ← Stmt.emitAll mangling body
    let other ← Stmt.emitAll mangling otherwise
    return "if(" ++ test ++ ")\x7b" ++ inner ++ "\x7d" ++ "else\x7b" ++ other ++ "\x7d"
  | .loop condition body => do
    let test ← condition.emit mangling
    let inner ← Stmt.emitAll mangling body
    return "while(" ++ test ++ ")\x7b" ++ inner ++ "\x7d"
  | .defer _ => .error .deferBlock
  | .break => .ok "break;"
  | .continue => .ok "continue;"
  | .function _ => .error .functionDeclaration

/-- Statements one behind the other. -/
def Stmt.emitAll (mangling : Mangling) : List Stmt → Except Obstacle String
  | [] => .ok ""
  | stmt :: stmts => do
    let first ← stmt.emit mangling
    let rest ← Stmt.emitAll mangling stmts
    return first ++ rest
end

end KCompiler
