import KCompiler.Emit.Includes
import KCompiler.Proofs.Trees.Declarations
import KCompiler.Proofs.Trees.Expressions

/-! # Headers of the calls of a module

Headers are collected in one walk that carries those found before. Laid flat, the walk meets the
calls of a module in the order of its expressions and adds the header of each, so that every header
is listed where it is called for first. A walk does not enter the callee of a call, nor the
parameters of a function: in a module that has been parsed there are no calls in either.
-/

namespace KCompiler

/-- The stem of a header stands in a called name between the at sign that the name begins with and
the first underscore, or the end of the name. -/
def NamesHeader (name header : String) : Prop :=
  ∃ stem rest, name.toList = '@' :: (stem ++ rest) ∧ stem ≠ [] ∧ '_' ∉ stem ∧
    (∀ c ∈ rest.head?, c = '_') ∧ header = String.ofList stem ++ ".h"

theorem headerOf?_eq_some_iff {name header : String} :
    headerOf? name = some header ↔ NamesHeader name header := by
  unfold headerOf?
  constructor
  · intro hheader
    split at hheader
    next rest hname =>
      simp only [Option.ite_none_left_eq_some, Option.some.injEq] at hheader
      obtain ⟨hstem, rfl⟩ := hheader
      refine ⟨rest.takeWhile (· ≠ '_'), rest.dropWhile (· ≠ '_'), ?_, ?_, ?_, ?_, rfl⟩
      · rw [hname, List.takeWhile_append_dropWhile]
      · simpa using hstem
      · intro hmem
        simpa using List.mem_takeWhile_imp hmem
      · intro c hc
        have htest := List.head?_dropWhile_not (· ≠ '_') rest
        rw [hc] at htest
        simpa using htest
    next => cases hheader
  · rintro ⟨stem, rest, hname, hstem, hunderscore, hrest, rfl⟩
    have htake : (stem ++ rest).takeWhile (· ≠ '_') = stem := by
      rw [List.takeWhile_append_of_pos]
      · cases rest with
        | nil => simp
        | cons c rest => simp [hrest c rfl]
      · intro c hc
        simpa using fun heq : c = '_' => hunderscore (heq ▸ hc)
    rw [hname]
    simp only [htake, List.isEmpty_iff, if_neg hstem]

/-- The header that an expression calls for, if it is a call of a name. -/
def Expr.header? : Expr → Option String
  | .call (.ident name) _ _ => headerOf? name
  | _ => none

theorem Expr.header?_eq_some_iff {expr : Expr} {header : String} :
    expr.header? = some header ↔
      ∃ name typeArgs args, expr = .call (.ident name) typeArgs args ∧ NamesHeader name header := by
  constructor
  · intro hheader
    unfold Expr.header? at hheader
    split at hheader
    next name typeArgs args => exact ⟨name, typeArgs, args, rfl, headerOf?_eq_some_iff.mp hheader⟩
    next => cases hheader
  · rintro ⟨name, typeArgs, args, rfl, hnames⟩
    exact headerOf?_eq_some_iff.mpr hnames

/-! ## The walk laid flat -/

/-- Adds the headers that some expressions call for, one after the other. -/
def addHeaders (headers : List String) (exprs : List Expr) : List String :=
  (exprs.filterMap Expr.header?).foldl addHeader headers

theorem addHeaders_append (headers : List String) (first second : List Expr) :
    addHeaders headers (first ++ second) = addHeaders (addHeaders headers first) second := by
  rw [addHeaders, List.filterMap_append, List.foldl_append]
  rfl

theorem addHeaders_cons (headers : List String) (expr : Expr) (exprs : List Expr) :
    addHeaders headers (expr :: exprs) =
      addHeaders (expr.header?.elim headers (addHeader headers)) exprs := by
  cases hheader : expr.header? with
  | none => rw [addHeaders, List.filterMap_cons_none hheader]; rfl
  | some header => rw [addHeaders, List.filterMap_cons_some hheader]; rfl

mutual
theorem Expr.collectHeaders_eq (headers : List String) : (expr : Expr) → expr.WellFormed →
    expr.collectHeaders headers = addHeaders headers expr.parts
  | .ident _, _ => rfl
  | .literal _, _ => rfl
  | .binary _ lhs rhs, hwell => by
      rw [Expr.parts, addHeaders_cons, addHeaders_append, Expr.collectHeaders,
        Expr.collectHeaders_eq headers lhs hwell.1, Expr.collectHeaders_eq _ rhs hwell.2]
      rfl
  | .unary _ _ operand, hwell => Expr.collectHeaders_eq headers operand hwell.2
  | .cast operand _, hwell => Expr.collectHeaders_eq headers operand hwell.1
  | .call (.ident name) _ args, hwell => by
      rw [Expr.parts, addHeaders_cons, addHeaders_append, Expr.collectHeaders,
        Expr.collectAllHeaders_eq _ args hwell.2.2]
      rfl
  | .call (.literal _) _ _, hwell | .call (.binary _ _ _) _ _, hwell
  | .call (.unary _ _ _) _ _, hwell | .call (.cast _ _) _ _, hwell
  | .call (.call _ _ _) _ _, hwell => absurd hwell.1 (by simp [Expr.isIdent])

theorem Expr.collectAllHeaders_eq (headers : List String) : (exprs : List Expr) →
    Expr.AllWellFormed exprs →
      Expr.collectAllHeaders headers exprs = addHeaders headers (Expr.allParts exprs)
  | [], _ => rfl
  | expr :: exprs, hwell => by
      rw [Expr.allParts, addHeaders_append, Expr.collectAllHeaders,
        Expr.collectHeaders_eq headers expr hwell.1, Expr.collectAllHeaders_eq _ exprs hwell.2]
end

theorem VariableDecl.collectHeaders_eq (headers : List String) {scope : Scope} {decl : VariableDecl}
    (hwell : decl.WellFormed scope) :
    decl.collectHeaders headers = addHeaders headers decl.expressions := by
  unfold VariableDecl.collectHeaders VariableDecl.expressions
  cases hinit : decl.init with
  | none => rfl
  | some init => exact Expr.collectHeaders_eq headers init (hwell.init init hinit)

theorem foldl_collectHeaders (headers : List String) {scope : Scope} {decls : List VariableDecl}
    (hdecls : ∀ decl ∈ decls, decl.WellFormed scope) :
    decls.foldl VariableDecl.collectHeaders headers =
      addHeaders headers (decls.flatMap VariableDecl.expressions) := by
  induction decls generalizing headers with
  | nil => rfl
  | cons decl decls ih =>
      obtain ⟨hdecl, hmore⟩ := List.forall_mem_cons.mp hdecls
      rw [List.foldl_cons, List.flatMap_cons, addHeaders_append,
        VariableDecl.collectHeaders_eq headers hdecl, ih _ hmore]

/-- Parameters have no initial value, and so no expressions. -/
theorem Signature.WellFormed.params_expressions {scope : Scope} {signature : Signature}
    (hwell : signature.WellFormed scope) :
    signature.params.flatMap VariableDecl.expressions = [] := by
  rw [List.flatMap_eq_nil_iff]
  intro param hmem
  rw [VariableDecl.expressions, (hwell.params param hmem).2]
  rfl

mutual
theorem Stmt.collectHeaders_eq {scope : Scope} (headers : List String) : (stmt : Stmt) →
    stmt.WellFormed scope → stmt.collectHeaders headers = addHeaders headers stmt.expressions
  | .expr value, hwell => Expr.collectHeaders_eq headers value hwell
  | .variable _, hwell => VariableDecl.collectHeaders_eq headers hwell
  | .typeAlias _ _, _ | .break, _ | .continue, _ => rfl
  | .record head methods, hwell => by
      rw [Stmt.collectHeaders, Stmt.expressions, addHeaders_append,
        foldl_collectHeaders headers hwell.1.fields,
        FunctionDecl.collectAllHeaders_eq _ methods hwell.2]
  | .branch condition body none, hwell => by
      rw [Stmt.collectHeaders, Stmt.expressions, addHeaders_append,
        Expr.collectHeaders_eq headers condition hwell.1, Stmt.collectAllHeaders_eq _ body hwell.2]
  | .branch condition body (some otherwise), hwell => by
      rw [Stmt.collectHeaders, Stmt.expressions, addHeaders_append, addHeaders_append,
        Expr.collectHeaders_eq headers condition hwell.1,
        Stmt.collectAllHeaders_eq _ body hwell.2.1,
        Stmt.collectAllHeaders_eq _ otherwise hwell.2.2]
  | .loop condition body, hwell => by
      rw [Stmt.collectHeaders, Stmt.expressions, addHeaders_append,
        Expr.collectHeaders_eq headers condition hwell.1, Stmt.collectAllHeaders_eq _ body hwell.2]
  | .defer body, hwell => Stmt.collectAllHeaders_eq headers body hwell
  | .function decl, hwell => FunctionDecl.collectHeaders_eq headers decl hwell

theorem Stmt.collectAllHeaders_eq {scope : Scope} (headers : List String) :
    (stmts : List Stmt) → Stmt.AllWellFormed scope stmts →
      Stmt.collectAllHeaders headers stmts = addHeaders headers (Stmt.allExpressions stmts)
  | [], _ => rfl
  | stmt :: stmts, hwell => by
      rw [Stmt.collectAllHeaders, Stmt.allExpressions, addHeaders_append,
        Stmt.collectHeaders_eq headers stmt hwell.1, Stmt.collectAllHeaders_eq _ stmts hwell.2]

theorem FunctionDecl.collectHeaders_eq {scope : Scope} (headers : List String) :
    (decl : FunctionDecl) → decl.WellFormed scope →
      decl.collectHeaders headers = addHeaders headers decl.expressions
  | ⟨_, body⟩, hwell => by
      rw [FunctionDecl.collectHeaders, FunctionDecl.expressions, hwell.1.params_expressions,
        List.nil_append, Stmt.collectAllHeaders_eq headers body hwell.2]

theorem FunctionDecl.collectAllHeaders_eq {scope : Scope} (headers : List String) :
    (decls : List FunctionDecl) → FunctionDecl.AllWellFormed scope decls →
      FunctionDecl.collectAllHeaders headers decls =
        addHeaders headers (FunctionDecl.allExpressions decls)
  | [], _ => rfl
  | decl :: decls, hwell => by
      rw [FunctionDecl.collectAllHeaders, FunctionDecl.allExpressions, addHeaders_append,
        FunctionDecl.collectHeaders_eq headers decl hwell.1,
        FunctionDecl.collectAllHeaders_eq _ decls hwell.2]
end

/-! ## First occurrences -/

theorem nodup_addHeader {headers : List String} (hnodup : headers.Nodup) (header : String) :
    (addHeader headers header).Nodup := by
  unfold addHeader
  split
  · exact hnodup
  next hnew =>
    refine List.nodup_append.mpr ⟨hnodup, List.pairwise_singleton _ header, ?_⟩
    rintro old hold new hmem rfl
    obtain rfl := List.mem_singleton.mp hmem
    exact hnew (List.contains_iff_mem.mpr hold)

theorem nodup_foldl_addHeader {headers : List String} (hnodup : headers.Nodup)
    (more : List String) : (more.foldl addHeader headers).Nodup := by
  induction more generalizing headers with
  | nil => exact hnodup
  | cons header more ih => exact ih (nodup_addHeader hnodup header)

/-- Adding headers one after the other keeps the first occurrence of each that is new. -/
theorem foldl_addHeader (headers more : List String) :
    more.foldl addHeader headers = headers ++ (more.removeAll headers).eraseDups := by
  induction more generalizing headers with
  | nil => simp
  | cons header more ih =>
      rw [List.foldl_cons, ih, List.cons_removeAll, addHeader]
      cases hold : headers.contains header with
      | true => simp
      | false =>
          have hmore : more.removeAll (headers ++ [header]) =
              (more.removeAll headers).filter fun other => !other == header := by
            rw [List.removeAll, List.removeAll, List.filter_filter]
            refine List.filter_congr fun other _ => ?_
            simp [Bool.and_comm, beq_eq_decide]
          simp [hmore, List.eraseDups_cons]

/-- The headers of a module that has been parsed are those that its calls name, each of them once
and in the order of the first calls. -/
theorem headers_parseModule (tokens : List Token) :
    let program := (parseModule tokens).value
    program.headers.Nodup ∧
      program.headers = (program.expressions.filterMap Expr.header?).eraseDups ∧
      ∀ (expr : Expr) header, expr.header? = some header ↔
        ∃ name typeArgs args, expr = .call (.ident name) typeArgs args ∧
          NamesHeader name header := by
  intro program
  have hwell : program.WellFormed :=
    (@parseModule_fits .unrestricted tokens fun _ _ _ _ => trivial).1
  have hheaders : program.headers = addHeaders [] program.expressions :=
    Stmt.collectAllHeaders_eq [] program.statements hwell
  refine ⟨?_, ?_, fun expr header => Expr.header?_eq_some_iff⟩
  · rw [hheaders]
    exact nodup_foldl_addHeader List.nodup_nil _
  · rw [hheaders, addHeaders, foldl_addHeader, List.removeAll_nil, List.nil_append]

end KCompiler
