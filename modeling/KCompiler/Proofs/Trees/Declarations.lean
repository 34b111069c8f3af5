import KCompiler.Proofs.Trees.Parsed
import KCompiler.Token.Lexer

/-! # The declarations of a tree

All declarations of a module, each with the place where it stands. In a module that has been
parsed every one of them knows its place and carries modifiers that suit it, no matter how broken
the source is.
-/

namespace KCompiler

open Grammar

/-- A declaration, by what its modifiers depend on, at a place of the program. -/
structure Declaration where
  kind : DeclKind
  scope : Scope
  modifiers : Modifiers
  place : Scope
  deriving DecidableEq, Repr

namespace Declaration

/-- A declaration that belongs where it stands, and whose modifiers suit it there. -/
structure Suits (decl : Declaration) : Prop where
  scope_eq : decl.scope = decl.place
  nodup : decl.modifiers.toList.Nodup
  allowed : ∀ modifier ∈ decl.modifiers.toList, modifier.allows decl.place decl.kind

theorem suits_of_allowed {kind : DeclKind} {scope place : Scope} {modifiers : Modifiers}
    (hscope : scope = place) (hallowed : Allowed modifiers place kind) :
    Suits ⟨kind, scope, modifiers, place⟩ :=
  ⟨hscope, modifiers.nodup, hallowed⟩

end Declaration

/-- A variable, a field or a parameter at a place. -/
def VariableDecl.declared (place : Scope) (decl : VariableDecl) : Declaration :=
  ⟨.variable, decl.scope, decl.modifiers, place⟩

mutual
/-- The declarations of a statement at a place, and all in it. Fields and methods stand in a
record, parameters before a function, and everything else in a block. -/
def Stmt.declarations (place : Scope) : Stmt → List Declaration
  | .variable decl => [decl.declared place]
  | .record head methods =>
    ⟨.record, head.scope, head.modifiers, place⟩ ::
      (head.fields.map (VariableDecl.declared .field) ++
        FunctionDecl.allDeclarations .method methods)
  | .branch _ body none => Stmt.allDeclarations .block body
  | .branch _ body (some otherwise) =>
    Stmt.allDeclarations .block body ++ Stmt.allDeclarations .block otherwise
  | .loop _ body => Stmt.allDeclarations .block body
  | .defer body => Stmt.allDeclarations .block body
  | .function decl => decl.declarations place
  | .expr _ => []
  | .typeAlias _ _ => []
  | .break => []
  | .continue => []

def Stmt.allDeclarations (place : Scope) : List Stmt → List Declaration
  | [] => []
  | stmt :: stmts => stmt.declarations place ++ Stmt.allDeclarations place stmts

def FunctionDecl.declarations (place : Scope) : FunctionDecl → List Declaration
  | ⟨signature, body⟩ =>
    ⟨.function, signature.scope, signature.modifiers, place⟩ ::
      (signature.params.map (VariableDecl.declared .parameter) ++
        Stmt.allDeclarations .block body)

def FunctionDecl.allDeclarations (place : Scope) : List FunctionDecl → List Declaration
  | [] => []
  | decl :: decls => decl.declarations place ++ FunctionDecl.allDeclarations place decls
end

/-- The declarations of a module, at any depth. -/
def Module.declarations (program : Module) : List Declaration :=
  Stmt.allDeclarations .topLevel program.statements

theorem VariableDecl.WellFormed.suits {place : Scope} {decl : VariableDecl}
    (hwell : decl.WellFormed place) : (decl.declared place).Suits :=
  Declaration.suits_of_allowed hwell.scope_eq hwell.allowed

theorem suits_map_declared {place : Scope} {decls : List VariableDecl}
    (hdecls : ∀ decl ∈ decls, decl.WellFormed place) :
    ∀ decl ∈ decls.map (VariableDecl.declared place), decl.Suits := by
  rw [List.forall_mem_map]
  exact fun decl hmem => (hdecls decl hmem).suits

mutual
theorem Stmt.WellFormed.suits {place : Scope} : (stmt : Stmt) → stmt.WellFormed place →
    ∀ decl ∈ stmt.declarations place, decl.Suits
  | .variable _, hwell => List.forall_mem_singleton.mpr (VariableDecl.WellFormed.suits hwell)
  | .record head methods, ⟨hwell, hmethods⟩ => by
      refine List.forall_mem_cons.mpr
        ⟨Declaration.suits_of_allowed hwell.scope_eq hwell.allowed, ?_⟩
      exact List.forall_mem_append.mpr ⟨suits_map_declared hwell.fields,
        FunctionDecl.AllWellFormed.suits methods hmethods⟩
  | .branch _ body none, hwell => Stmt.AllWellFormed.suits body hwell.2
  | .branch _ body (some otherwise), ⟨_, hbody, hother⟩ => List.forall_mem_append.mpr
      ⟨Stmt.AllWellFormed.suits body hbody, Stmt.AllWellFormed.suits otherwise hother⟩
  | .loop _ body, hwell => Stmt.AllWellFormed.suits body hwell.2
  | .defer body, hwell => Stmt.AllWellFormed.suits body hwell
  | .function decl, hwell => FunctionDecl.WellFormed.suits decl hwell
  | .expr _, _ | .typeAlias _ _, _ | .break, _ | .continue, _ => List.forall_mem_nil _

theorem Stmt.AllWellFormed.suits {place : Scope} : (stmts : List Stmt) →
    Stmt.AllWellFormed place stmts → ∀ decl ∈ Stmt.allDeclarations place stmts, decl.Suits
  | [], _ => List.forall_mem_nil _
  | stmt :: stmts, hwell => List.forall_mem_append.mpr
      ⟨Stmt.WellFormed.suits stmt hwell.1, Stmt.AllWellFormed.suits stmts hwell.2⟩

theorem FunctionDecl.WellFormed.suits {place : Scope} : (decl : FunctionDecl) →
    decl.WellFormed place → ∀ inner ∈ decl.declarations place, inner.Suits
  | ⟨signature, body⟩, ⟨hwell, hbody⟩ => by
      refine List.forall_mem_cons.mpr
        ⟨Declaration.suits_of_allowed hwell.scope_eq hwell.allowed, ?_⟩
      have hparams (param : VariableDecl) (hmem : param ∈ signature.params) :
          param.WellFormed .parameter :=
        (hwell.params param hmem).1
      exact List.forall_mem_append.mpr ⟨suits_map_declared hparams,
        Stmt.AllWellFormed.suits body hbody⟩

theorem FunctionDecl.AllWellFormed.suits {place : Scope} : (decls : List FunctionDecl) →
    FunctionDecl.AllWellFormed place decls →
      ∀ decl ∈ FunctionDecl.allDeclarations place decls, decl.Suits
  | [], _ => List.forall_mem_nil _
  | decl :: decls, hwell => List.forall_mem_append.mpr
      ⟨FunctionDecl.WellFormed.suits decl hwell.1,
        FunctionDecl.AllWellFormed.suits decls hwell.2⟩
end

/-- Nothing is asked of a leaf. -/
def Vocabulary.unrestricted : Vocabulary where
  Known _ := True
  known_default _ _ := trivial

/-- The tree of any tokens is well formed: calls, types, operators and parameters are as they can
be written, and all declarations belong where they stand and carry modifiers that suit them. The
checks on making a record or a function are passed whatever the parser was given. -/
theorem parseModule_wellFormed (tokens : List Token) :
    let program := (parseModule tokens).value
    program.WellFormed ∧ (∀ decl ∈ program.declarations, decl.Suits) ∧
      (∀ scope modifiers start finish type members,
        let stmt := (makeRecord scope modifiers start finish type members).1
        stmt.validate = .ok stmt) ∧
      ∀ eof scope modifiers input declared body,
        (signature eof scope modifiers input).value = some declared →
          let decl : FunctionDecl :=
            ⟨{ declared with modifiers := modifiers.allowed scope .function }, body⟩
          decl.validate = .ok decl := by
  intro program
  have hwell : program.WellFormed :=
    (@parseModule_fits .unrestricted tokens fun _ _ _ _ => trivial).1
  refine ⟨hwell, Stmt.AllWellFormed.suits program.statements hwell, validate_makeRecord, ?_⟩
  intro eof scope modifiers input declared body hvalue
  exact validate_signature hvalue body

/-- Modifiers that are repeated or out of place on a method of a record in a function. -/
theorem parseModule_wellFormed_nested :
    let source := "mod m\n\x7d\nmut fx f() \x7b record r \x7b mut pub pub fx g(pub mut x: a) " ++
      "\x7b pub y mut: b \x7d \x7d \x7d"
    let program := (parseModule (lex source).tokens).value
    let param : Declaration := ⟨.variable, .parameter, .ofList [.mut], .parameter⟩
    program.WellFormed ∧ param ∈ program.declarations ∧ param.Suits := by
  intro source program param
  obtain ⟨hwell, hsuits, -⟩ := parseModule_wellFormed (lex source).tokens
  have hmem : param ∈ program.declarations := by decide +kernel
  exact ⟨hwell, hmem, hsuits param hmem⟩

end KCompiler
