import KCompiler.Proofs.WellFormed

/-! # The leaves of trees

All that a tree takes from the texts of its tokens are names and literals. What is known of every
name and literal of a source is then known of the trees that are parsed from it.
-/

namespace KCompiler

/-- What a tree takes from a token. -/
inductive Leaf where
  /-- A name in an expression. -/
  | ident (name : String)
  /-- A name that is declared, or that names a type. -/
  | name (name : String)
  | builtin (name : String)
  | literal (value : Literal)

/-- A leaf can be taken from a token. A builtin type may stand for a name in an expression. -/
def Token.Bears (token : Token) : Leaf → Prop
  | .ident name => (token.kind = .identifier ∨ token.kind.isBuiltin) ∧ token.text = name
  | .name name => token.kind = .identifier ∧ token.text = name
  | .builtin name => token.kind.isBuiltin ∧ token.text = name
  | .literal value => ∃ findings, Literal.ofToken? token = some (value, findings)

/-- What stands in a tree where the source has nothing: the type of a function without a value, a
missing expression, and the name of a file without a header. -/
def Leaf.IsDefault (leaf : Leaf) : Prop :=
  leaf = .builtin Builtin.unit.symbol ∨ leaf = .literal (.int 0) ∨ leaf = .name Module.error.name

/-- Leaves that are known, all that stand where the source has nothing among them. -/
structure Vocabulary where
  Known : Leaf → Prop
  known_default : ∀ leaf, leaf.IsDefault → Known leaf

section Over

variable (vocabulary : Vocabulary)

mutual
/-- A type over names that are known. -/
def Ty.Over : Ty → Prop
  | .builtin name => vocabulary.Known (.builtin name)
  | .named name => vocabulary.Known (.name name)
  | .generic base args => base.Over ∧ Ty.AllOver args

def Ty.AllOver : List Ty → Prop
  | [] => True
  | type :: types => type.Over ∧ Ty.AllOver types
end

mutual
/-- An expression over names and literals that are known. -/
def Expr.Over : Expr → Prop
  | .ident name => vocabulary.Known (.ident name)
  | .literal value => vocabulary.Known (.literal value)
  | .binary _ lhs rhs => lhs.Over ∧ rhs.Over
  | .unary _ _ operand => operand.Over
  | .cast operand target => operand.Over ∧ target.Over vocabulary
  | .call callee typeArgs args => callee.Over ∧ Ty.AllOver vocabulary typeArgs ∧ Expr.AllOver args

def Expr.AllOver : List Expr → Prop
  | [] => True
  | expr :: exprs => expr.Over ∧ Expr.AllOver exprs
end

structure VariableDecl.Over (decl : VariableDecl) : Prop where
  name : vocabulary.Known (.name decl.name)
  type : decl.type.Over vocabulary
  init : ∀ init ∈ decl.init, init.Over vocabulary

structure Signature.Over (signature : Signature) : Prop where
  name : vocabulary.Known (.name signature.name)
  generics : ∀ name ∈ signature.generics, vocabulary.Known (.name name)
  returnType : signature.returnType.Over vocabulary
  params : ∀ param ∈ signature.params, param.Over vocabulary

structure RecordHead.Over (head : RecordHead) : Prop where
  type : head.type.Over vocabulary
  fields : ∀ field ∈ head.fields, field.Over vocabulary

mutual
/-- A statement over names and literals that are known. -/
def Stmt.Over : Stmt → Prop
  | .expr value => value.Over vocabulary
  | .variable decl => decl.Over vocabulary
  | .typeAlias target name => target.Over vocabulary ∧ vocabulary.Known (.name name)
  | .record head methods => head.Over vocabulary ∧ FunctionDecl.AllOver methods
  | .branch condition body none => condition.Over vocabulary ∧ Stmt.AllOver body
  | .branch condition body (some otherwise) =>
    condition.Over vocabulary ∧ Stmt.AllOver body ∧ Stmt.AllOver otherwise
  | .loop condition body => condition.Over vocabulary ∧ Stmt.AllOver body
  | .defer body => Stmt.AllOver body
  | .break => True
  | .continue => True
  | .function decl => decl.Over

def Stmt.AllOver : List Stmt → Prop
  | [] => True
  | stmt :: stmts => stmt.Over ∧ Stmt.AllOver stmts

def FunctionDecl.Over : FunctionDecl → Prop
  | ⟨signature, body⟩ => signature.Over vocabulary ∧ Stmt.AllOver body

def FunctionDecl.AllOver : List FunctionDecl → Prop
  | [] => True
  | decl :: decls => decl.Over ∧ FunctionDecl.AllOver decls
end

def Module.Over (program : Module) : Prop :=
  vocabulary.Known (.name program.name) ∧ Stmt.AllOver vocabulary program.statements

/-! ## Trees that are well formed and over known leaves -/

def Ty.Fits (type : Ty) : Prop :=
  type.WellFormed ∧ type.Over vocabulary

def Expr.Fits (expr : Expr) : Prop :=
  expr.WellFormed ∧ expr.Over vocabulary

def VariableDecl.Fits (scope : Scope) (decl : VariableDecl) : Prop :=
  decl.WellFormed scope ∧ decl.Over vocabulary

def FunctionDecl.Fits (scope : Scope) (decl : FunctionDecl) : Prop :=
  decl.WellFormed scope ∧ decl.Over vocabulary

def Stmt.Fits (scope : Scope) (stmt : Stmt) : Prop :=
  stmt.WellFormed scope ∧ stmt.Over vocabulary

def Module.Fits (program : Module) : Prop :=
  program.WellFormed ∧ program.Over vocabulary

variable {vocabulary} {scope : Scope}

/-- A property of lists that is built up item by item. -/
theorem all_of_forall_mem {α : Type} {P : α → Prop} (All : List α → Prop) (hnil : All [])
    (hcons : ∀ item items, P item → All items → All (item :: items)) {items : List α}
    (hitems : ∀ item ∈ items, P item) : All items := by
  induction items with
  | nil => exact hnil
  | cons item items ih =>
      obtain ⟨hitem, hmore⟩ := List.forall_mem_cons.mp hitems
      exact hcons item items hitem (ih hmore)

theorem Ty.fits_all {types : List Ty} (htypes : ∀ type ∈ types, type.Fits vocabulary) :
    Ty.AllWellFormed types ∧ Ty.AllOver vocabulary types :=
  all_of_forall_mem (fun types => Ty.AllWellFormed types ∧ Ty.AllOver vocabulary types)
    ⟨trivial, trivial⟩ (fun _ _ hfirst hmore => ⟨⟨hfirst.1, hmore.1⟩, hfirst.2, hmore.2⟩) htypes

theorem Expr.fits_all {exprs : List Expr} (hexprs : ∀ expr ∈ exprs, expr.Fits vocabulary) :
    Expr.AllWellFormed exprs ∧ Expr.AllOver vocabulary exprs :=
  all_of_forall_mem (fun exprs => Expr.AllWellFormed exprs ∧ Expr.AllOver vocabulary exprs)
    ⟨trivial, trivial⟩ (fun _ _ hfirst hmore => ⟨⟨hfirst.1, hmore.1⟩, hfirst.2, hmore.2⟩) hexprs

theorem Stmt.fits_all {stmts : List Stmt} (hstmts : ∀ stmt ∈ stmts, stmt.Fits vocabulary scope) :
    Stmt.AllWellFormed scope stmts ∧ Stmt.AllOver vocabulary stmts :=
  all_of_forall_mem (fun stmts => Stmt.AllWellFormed scope stmts ∧ Stmt.AllOver vocabulary stmts)
    ⟨trivial, trivial⟩ (fun _ _ hfirst hmore => ⟨⟨hfirst.1, hmore.1⟩, hfirst.2, hmore.2⟩) hstmts

theorem FunctionDecl.fits_all {decls : List FunctionDecl}
    (hdecls : ∀ decl ∈ decls, decl.Fits vocabulary scope) :
    FunctionDecl.AllWellFormed scope decls ∧ FunctionDecl.AllOver vocabulary decls :=
  all_of_forall_mem
    (fun decls => FunctionDecl.AllWellFormed scope decls ∧ FunctionDecl.AllOver vocabulary decls)
    ⟨trivial, trivial⟩ (fun _ _ hfirst hmore => ⟨⟨hfirst.1, hmore.1⟩, hfirst.2, hmore.2⟩) hdecls

end Over

end KCompiler
