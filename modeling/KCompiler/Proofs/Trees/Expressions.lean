import KCompiler.Proofs.Trees.Leaves

/-! # The expressions of a tree

All expressions of a module, and all that they are made of. What is known of the module is known
of each of them.
-/

namespace KCompiler

mutual
/-- An expression and all expressions in it. -/
def Expr.parts : Expr → List Expr
  | .ident name => [.ident name]
  | .literal value => [.literal value]
  | .binary op lhs rhs => .binary op lhs rhs :: (lhs.parts ++ rhs.parts)
  | .unary op side operand => .unary op side operand :: operand.parts
  | .cast operand target => .cast operand target :: operand.parts
  | .call callee typeArgs args => .call callee typeArgs args :: (callee.parts ++ Expr.allParts args)

def Expr.allParts : List Expr → List Expr
  | [] => []
  | expr :: exprs => expr.parts ++ Expr.allParts exprs
end

def VariableDecl.expressions (decl : VariableDecl) : List Expr :=
  decl.init.elim [] Expr.parts

mutual
/-- The expressions of a statement: values, conditions and initial values, and all in them. -/
def Stmt.expressions : Stmt → List Expr
  | .expr value => value.parts
  | .variable decl => decl.expressions
  | .typeAlias _ _ => []
  | .record head methods =>
    head.fields.flatMap VariableDecl.expressions ++ FunctionDecl.allExpressions methods
  | .branch condition body none => condition.parts ++ Stmt.allExpressions body
  | .branch condition body (some otherwise) =>
    condition.parts ++ (Stmt.allExpressions body ++ Stmt.allExpressions otherwise)
  | .loop condition body => condition.parts ++ Stmt.allExpressions body
  | .defer body => Stmt.allExpressions body
  | .break => []
  | .continue => []
  | .function decl => decl.expressions

def Stmt.allExpressions : List Stmt → List Expr
  | [] => []
  | stmt :: stmts => stmt.expressions ++ Stmt.allExpressions stmts

def FunctionDecl.expressions : FunctionDecl → List Expr
  | ⟨signature, body⟩ =>
    signature.params.flatMap VariableDecl.expressions ++ Stmt.allExpressions body

def FunctionDecl.allExpressions : List FunctionDecl → List Expr
  | [] => []
  | decl :: decls => decl.expressions ++ FunctionDecl.allExpressions decls
end

def Module.expressions (program : Module) : List Expr :=
  Stmt.allExpressions program.statements

theorem Expr.mem_parts_self (expr : Expr) : expr ∈ expr.parts := by
  cases expr <;> exact List.mem_cons_self

/-- The value of a statement is an expression of its module. -/
theorem Module.mem_expressions {program : Module} {value : Expr}
    (hmem : .expr value ∈ program.statements) : value ∈ program.expressions := by
  unfold Module.expressions
  generalize program.statements = stmts at hmem
  induction stmts with
  | nil => cases hmem
  | cons stmt stmts ih =>
      rcases List.mem_cons.mp hmem with rfl | hmem
      · exact List.mem_append_left _ value.mem_parts_self
      · exact List.mem_append_right _ (ih hmem)

section Fits

variable {vocabulary : Vocabulary}

mutual
theorem Expr.Fits.parts : (expr : Expr) → expr.Fits vocabulary →
    ∀ part ∈ expr.parts, part.Fits vocabulary
  | .ident name, hfits => List.forall_mem_singleton.mpr hfits
  | .literal value, hfits => List.forall_mem_singleton.mpr hfits
  | .binary op lhs rhs, hfits => by
      have hlhs := Expr.Fits.parts lhs ⟨hfits.1.1, hfits.2.1⟩
      have hrhs := Expr.Fits.parts rhs ⟨hfits.1.2, hfits.2.2⟩
      exact List.forall_mem_cons.mpr ⟨hfits, List.forall_mem_append.mpr ⟨hlhs, hrhs⟩⟩
  | .unary op side operand, hfits =>
      List.forall_mem_cons.mpr ⟨hfits, Expr.Fits.parts operand ⟨hfits.1.2, hfits.2⟩⟩
  | .cast operand target, hfits =>
      List.forall_mem_cons.mpr ⟨hfits, Expr.Fits.parts operand ⟨hfits.1.1, hfits.2.1⟩⟩
  | .call callee typeArgs args, hfits => by
      have hwell : callee.WellFormed := by
        have hname := hfits.1.1
        cases callee with
        | ident name => trivial
        | _ => cases hname
      have hcallee := Expr.Fits.parts callee ⟨hwell, hfits.2.1⟩
      have hargs := Expr.fits_allParts args hfits.1.2.2 hfits.2.2.2
      exact List.forall_mem_cons.mpr ⟨hfits, List.forall_mem_append.mpr ⟨hcallee, hargs⟩⟩

theorem Expr.fits_allParts : (exprs : List Expr) → Expr.AllWellFormed exprs →
    Expr.AllOver vocabulary exprs → ∀ part ∈ Expr.allParts exprs, part.Fits vocabulary
  | [], _, _ => List.forall_mem_nil _
  | expr :: exprs, hwell, hover => List.forall_mem_append.mpr
      ⟨Expr.Fits.parts expr ⟨hwell.1, hover.1⟩, Expr.fits_allParts exprs hwell.2 hover.2⟩
end

theorem VariableDecl.Fits.expressions {scope : Scope} {decl : VariableDecl}
    (hfits : decl.Fits vocabulary scope) : ∀ expr ∈ decl.expressions, expr.Fits vocabulary := by
  obtain ⟨hwell, hover⟩ := hfits
  unfold VariableDecl.expressions
  cases hinit : decl.init with
  | none => simp
  | some init => exact Expr.Fits.parts init ⟨hwell.init init hinit, hover.init init hinit⟩

/-- The initial values of several variables. -/
theorem fits_flatMap_expressions {scope : Scope} {decls : List VariableDecl}
    (hdecls : ∀ decl ∈ decls, decl.Fits vocabulary scope) :
    ∀ expr ∈ decls.flatMap VariableDecl.expressions, expr.Fits vocabulary := by
  intro expr hmem
  obtain ⟨decl, hdecl, hexpr⟩ := List.mem_flatMap.mp hmem
  exact (hdecls decl hdecl).expressions expr hexpr

mutual
theorem Stmt.Fits.expressions {scope : Scope} : (stmt : Stmt) → stmt.Fits vocabulary scope →
    ∀ expr ∈ stmt.expressions, expr.Fits vocabulary
  | .expr value, hfits => Expr.Fits.parts value hfits
  | .variable decl, hfits => VariableDecl.Fits.expressions hfits
  | .typeAlias _ _, _ => List.forall_mem_nil _
  | .record head methods, hfits => by
      obtain ⟨⟨hwell, hmethods⟩, hover, hmore⟩ := hfits
      have hfields (field : VariableDecl) (hmem : field ∈ head.fields) :
          field.Fits vocabulary .field :=
        ⟨hwell.fields field hmem, hover.fields field hmem⟩
      exact List.forall_mem_append.mpr ⟨fits_flatMap_expressions hfields,
        FunctionDecl.fits_allExpressions methods hmethods hmore⟩
  | .branch condition body none, hfits => List.forall_mem_append.mpr
      ⟨Expr.Fits.parts condition ⟨hfits.1.1, hfits.2.1⟩,
        Stmt.fits_allExpressions body hfits.1.2 hfits.2.2⟩
  | .branch condition body (some otherwise), hfits => by
      obtain ⟨⟨hwell, hbody, hother⟩, hover, hmore, hlast⟩ := hfits
      refine List.forall_mem_append.mpr ⟨Expr.Fits.parts condition ⟨hwell, hover⟩, ?_⟩
      exact List.forall_mem_append.mpr ⟨Stmt.fits_allExpressions body hbody hmore,
        Stmt.fits_allExpressions otherwise hother hlast⟩
  | .loop condition body, hfits => List.forall_mem_append.mpr
      ⟨Expr.Fits.parts condition ⟨hfits.1.1, hfits.2.1⟩,
        Stmt.fits_allExpressions body hfits.1.2 hfits.2.2⟩
  | .defer body, hfits => Stmt.fits_allExpressions body hfits.1 hfits.2
  | .break, _ | .continue, _ => List.forall_mem_nil _
  | .function decl, hfits => FunctionDecl.Fits.expressions decl hfits

theorem Stmt.fits_allExpressions {scope : Scope} : (stmts : List Stmt) →
    Stmt.AllWellFormed scope stmts → Stmt.AllOver vocabulary stmts →
      ∀ expr ∈ Stmt.allExpressions stmts, expr.Fits vocabulary
  | [], _, _ => List.forall_mem_nil _
  | stmt :: stmts, hwell, hover => List.forall_mem_append.mpr
      ⟨Stmt.Fits.expressions stmt ⟨hwell.1, hover.1⟩,
        Stmt.fits_allExpressions stmts hwell.2 hover.2⟩

theorem FunctionDecl.Fits.expressions {scope : Scope} : (decl : FunctionDecl) →
    decl.Fits vocabulary scope → ∀ expr ∈ decl.expressions, expr.Fits vocabulary
  | ⟨signature, body⟩, hfits => by
      obtain ⟨⟨hwell, hbody⟩, hover, hmore⟩ := hfits
      have hparams (param : VariableDecl) (hmem : param ∈ signature.params) :
          param.Fits vocabulary .parameter :=
        ⟨(hwell.params param hmem).1, hover.params param hmem⟩
      exact List.forall_mem_append.mpr ⟨fits_flatMap_expressions hparams,
        Stmt.fits_allExpressions body hbody hmore⟩

theorem FunctionDecl.fits_allExpressions {scope : Scope} : (decls : List FunctionDecl) →
    FunctionDecl.AllWellFormed scope decls → FunctionDecl.AllOver vocabulary decls →
      ∀ expr ∈ FunctionDecl.allExpressions decls, expr.Fits vocabulary
  | [], _, _ => List.forall_mem_nil _
  | decl :: decls, hwell, hover => List.forall_mem_append.mpr
      ⟨FunctionDecl.Fits.expressions decl ⟨hwell.1, hover.1⟩,
        FunctionDecl.fits_allExpressions decls hwell.2 hover.2⟩
end

theorem Module.Fits.expressions {program : Module} (hfits : program.Fits vocabulary) :
    ∀ expr ∈ program.expressions, expr.Fits vocabulary :=
  Stmt.fits_allExpressions program.statements hfits.1 hfits.2.2

end Fits

end KCompiler
