import KCompiler.Proofs.Outline.Declarations

/-! # Outlines of trees

The outline of a syntax tree lists one node for each expression, statement and declaration. The first
word of a node tells what it stands for, so the nodes tell the tree.
-/

namespace KCompiler

open OutlineNode

/-! ## Nodes of trees -/

def Ty.node (type : Ty) : OutlineNode :=
  ⟨"type " ++ type.text, []⟩

mutual
/-- The node of an expression. -/
def Expr.node : Expr → OutlineNode
  | .ident name => ⟨"ident " ++ name, []⟩
  | .literal value => ⟨value.outlineText, []⟩
  | .binary op lhs rhs => ⟨"binary " ++ op.name, [lhs.node, rhs.node]⟩
  | .unary op side operand =>
    ⟨"unary " ++ op.name ++ " (" ++ side.outlineText ++ ")", [operand.node]⟩
  | .cast operand target => ⟨"cast " ++ target.text, [operand.node]⟩
  | .call callee typeArgs args =>
    ⟨"call", callee.node :: (group "type arguments" (typeArgs.map Ty.node) ++
      group "arguments" (Expr.nodes args))⟩

def Expr.nodes : List Expr → List OutlineNode
  | [] => []
  | expr :: exprs => expr.node :: Expr.nodes exprs
end

def VariableDecl.node (decl : VariableDecl) : OutlineNode :=
  ⟨decl.headText, decl.init.toList.map Expr.node⟩

mutual
/-- The node of a statement. -/
def Stmt.node : Stmt → OutlineNode
  | .expr value => value.node
  | .variable decl => decl.node
  | .typeAlias target name => ⟨aliasText target name, []⟩
  | .record head methods =>
    ⟨head.headText, head.fields.map VariableDecl.node ++ FunctionDecl.nodes methods⟩
  | .branch condition body none => ⟨"if", [condition.node, ⟨"then", Stmt.nodes body⟩]⟩
  | .branch condition body (some otherwise) =>
    ⟨"if", [condition.node, ⟨"then", Stmt.nodes body⟩, ⟨"else", Stmt.nodes otherwise⟩]⟩
  | .loop condition body => ⟨"while", [condition.node, ⟨"body", Stmt.nodes body⟩]⟩
  | .defer body => ⟨"defer", Stmt.nodes body⟩
  | .break => ⟨"break", []⟩
  | .continue => ⟨"continue", []⟩
  | .function decl => decl.node

def Stmt.nodes : List Stmt → List OutlineNode
  | [] => []
  | stmt :: stmts => stmt.node :: Stmt.nodes stmts

def FunctionDecl.node : FunctionDecl → OutlineNode
  | ⟨signature, body⟩ => ⟨signature.outlineText, Stmt.nodes body⟩

def FunctionDecl.nodes : List FunctionDecl → List OutlineNode
  | [] => []
  | decl :: decls => decl.node :: FunctionDecl.nodes decls
end

def Module.node (program : Module) : OutlineNode :=
  ⟨"module " ++ program.name, Stmt.nodes program.statements⟩

/-! ## Outlines list the nodes -/

theorem Ty.outlines_eq (depth : Nat) (types : List Ty) :
    types.map (Ty.outline depth) = allLines depth (types.map Ty.node) := by
  induction types with
  | nil => rfl
  | cons type types ih => simp [allLines, lines, Ty.node, Ty.outline, ih]

mutual
theorem Expr.outline_eq (depth : Nat) : (expr : Expr) → expr.outline depth = expr.node.lines depth
  | .ident _ | .literal _ => rfl
  | .binary _ lhs rhs => by
      simp [outline, node, lines, allLines, lhs.outline_eq (depth + 1), rhs.outline_eq (depth + 1)]
  | .unary _ _ operand => by
      simp [outline, node, lines, allLines, operand.outline_eq (depth + 1)]
  | .cast operand _ => by simp [outline, node, lines, allLines, operand.outline_eq (depth + 1)]
  | .call callee typeArgs args => by
      rw [outline, node, lines, allLines, allLines_append, allLines_group, allLines_group,
        callee.outline_eq (depth + 1), Ty.outlines_eq, Expr.outlines_eq (depth + 2) args,
        List.isEmpty_map, List.append_assoc]
      cases args <;> rfl

theorem Expr.outlines_eq (depth : Nat) : (exprs : List Expr) →
    Expr.outlines depth exprs = allLines depth (Expr.nodes exprs)
  | [] => rfl
  | expr :: exprs => by
      rw [outlines, nodes, allLines, expr.outline_eq depth, Expr.outlines_eq depth exprs]
end

theorem VariableDecl.outline_eq (depth : Nat) (decl : VariableDecl) :
    decl.outline depth = decl.node.lines depth := by
  unfold outline node headText lines
  cases decl.init with
  | none => rfl
  | some init => simp [allLines, init.outline_eq]

theorem VariableDecl.outlines_eq (depth : Nat) (decls : List VariableDecl) :
    decls.flatMap (VariableDecl.outline depth) = allLines depth (decls.map VariableDecl.node) := by
  induction decls with
  | nil => rfl
  | cons decl decls ih =>
      rw [List.flatMap_cons, List.map_cons, allLines, decl.outline_eq, ih]

mutual
theorem Stmt.outline_eq (depth : Nat) : (stmt : Stmt) → stmt.outline depth = stmt.node.lines depth
  | .expr value => value.outline_eq depth
  | .variable decl => decl.outline_eq depth
  | .typeAlias _ _ | .break | .continue => rfl
  | .record head methods => by
      rw [Stmt.outline, Stmt.node, lines, allLines_append, VariableDecl.outlines_eq,
        FunctionDecl.outlines_eq (depth + 1) methods]
      rfl
  | .branch condition body none => by
      simp [Stmt.outline, Stmt.node, lines, allLines, condition.outline_eq, Stmt.outlines_eq (depth + 2) body]
  | .branch condition body (some otherwise) => by
      simp [Stmt.outline, Stmt.node, lines, allLines, condition.outline_eq, Stmt.outlines_eq (depth + 2) body,
        Stmt.outlines_eq (depth + 2) otherwise]
  | .loop condition body => by
      simp [Stmt.outline, Stmt.node, lines, allLines, condition.outline_eq, Stmt.outlines_eq (depth + 2) body]
  | .defer body => by simp [Stmt.outline, Stmt.node, lines, Stmt.outlines_eq (depth + 1) body]
  | .function decl => FunctionDecl.outline_eq depth decl

theorem Stmt.outlines_eq (depth : Nat) : (stmts : List Stmt) →
    Stmt.outlines depth stmts = allLines depth (Stmt.nodes stmts)
  | [] => rfl
  | stmt :: stmts => by
      rw [Stmt.outlines, Stmt.nodes, allLines, Stmt.outline_eq depth stmt, Stmt.outlines_eq depth stmts]

theorem FunctionDecl.outline_eq (depth : Nat) : (decl : FunctionDecl) →
    decl.outline depth = decl.node.lines depth
  | ⟨_, body⟩ => by rw [FunctionDecl.outline, FunctionDecl.node, lines, Stmt.outlines_eq (depth + 1) body]

theorem FunctionDecl.outlines_eq (depth : Nat) : (decls : List FunctionDecl) →
    FunctionDecl.outlines depth decls = allLines depth (FunctionDecl.nodes decls)
  | [] => rfl
  | decl :: decls => by
      rw [FunctionDecl.outlines, FunctionDecl.nodes, allLines, FunctionDecl.outline_eq depth decl,
        FunctionDecl.outlines_eq depth decls]
end

theorem Module.outline_eq (program : Module) : program.outline = program.node.lines 0 := by
  rw [outline, node, lines, Stmt.outlines_eq]

/-! ## First words of nodes -/

/-- The first words of literals. -/
def Literal.words : List String :=
  ["int", "float", "string", "char", "bool"]

theorem Literal.word_mem (value : Literal) : value.word ∈ words := by
  cases value <;> simp [word, words]

namespace Expr

/-- The first word of the node of an expression. -/
def nodeWord : Expr → String
  | .ident _ => "ident"
  | .literal value => value.word
  | .binary _ _ _ => "binary"
  | .unary _ _ _ => "unary"
  | .cast _ _ => "cast"
  | .call _ _ _ => "call"

/-- The first words of expressions. -/
def nodeWords : List String :=
  "ident" :: "binary" :: "unary" :: "cast" :: "call" :: Literal.words

theorem nodeWord_mem (expr : Expr) : expr.nodeWord ∈ nodeWords := by
  cases expr with
  | literal value => simp [nodeWord, nodeWords, value.word_mem]
  | _ => simp [nodeWord, nodeWords]

/-- The form of an expression by its first word. -/
def formOf (word : String) : Nat :=
  -- Numbered like the constructors of expressions.
  if word = "ident" then 0
  else if word ∈ Literal.words then 1
  else 2 + ["binary", "unary", "cast", "call"].idxOf word

theorem formOf_nodeWord (expr : Expr) : formOf expr.nodeWord = expr.ctorIdx := by
  cases expr with
  | literal value => cases value <;> rfl
  | _ => rfl

theorem firstWord_node (expr : Expr) : firstWord expr.node.text = expr.nodeWord := by
  cases expr with
  | ident name => exact ((by decide : Opens "ident" "ident ").append name).1
  | literal value => exact value.opens_outlineText.1
  | binary op lhs rhs => exact ((by decide : Opens "binary" "binary ").append op.name).1
  | unary op side operand =>
      exact (((((by decide : Opens "unary" "unary ").append op.name).append _).append _).append _).1
  | cast operand target => exact ((by decide : Opens "cast" "cast ").append target.text).1
  | call callee typeArgs args => exact (by decide : firstWord "call" = "call")

/-- Expressions with the same node have the same form. -/
theorem ctorIdx_eq {expr other : Expr} (hsame : expr.node = other.node) :
    expr.ctorIdx = other.ctorIdx := by
  rw [← formOf_nodeWord, ← formOf_nodeWord, ← firstWord_node, ← firstWord_node, hsame]

end Expr

theorem VariableDecl.firstWord_node (decl : VariableDecl) : firstWord decl.node.text = "variable" :=
  ((by decide : Opens "variable" "variable ").front decl.toList_headText).1

theorem FunctionDecl.firstWord_node (decl : FunctionDecl) : firstWord decl.node.text = "function" := by
  obtain ⟨signature, body⟩ := decl
  exact ((by decide : Opens "function" "function ").front signature.toList_outlineText).1

namespace Stmt

/-- The first word of the node of a statement. -/
def nodeWord : Stmt → String
  | .expr value => value.nodeWord
  | .variable _ => "variable"
  | .typeAlias _ _ => "alias"
  | .record _ _ => "record"
  | .branch _ _ _ => "if"
  | .loop _ _ => "while"
  | .defer _ => "defer"
  | .break => "break"
  | .continue => "continue"
  | .function _ => "function"

/-- The form of a statement by its first word. -/
def formOf (word : String) : Nat :=
  if word ∈ Expr.nodeWords then 0
  else 1 + ["variable", "alias", "record", "if", "while", "defer", "break", "continue",
    "function"].idxOf word

theorem formOf_nodeWord (stmt : Stmt) : formOf stmt.nodeWord = stmt.ctorIdx := by
  cases stmt with
  | expr value => exact if_pos value.nodeWord_mem
  | _ => rfl

theorem firstWord_node (stmt : Stmt) : firstWord stmt.node.text = stmt.nodeWord := by
  cases stmt with
  | expr value => exact value.firstWord_node
  | «variable» decl => exact decl.firstWord_node
  | typeAlias target name =>
      exact ((by decide : Opens "alias" "alias ").front (toList_aliasText target name)).1
  | record head methods =>
      exact ((by decide : Opens "record" "record ").front head.toList_headText).1
  | branch condition body otherwise =>
      cases otherwise <;> exact (by decide : firstWord "if" = "if")
  | loop condition body => exact (by decide : firstWord "while" = "while")
  | defer body => exact (by decide : firstWord "defer" = "defer")
  | «break» => exact (by decide : firstWord "break" = "break")
  | «continue» => exact (by decide : firstWord "continue" = "continue")
  | function decl => exact decl.firstWord_node

/-- Statements with the same node have the same form. -/
theorem ctorIdx_eq {stmt other : Stmt} (hsame : stmt.node = other.node) :
    stmt.ctorIdx = other.ctorIdx := by
  rw [← formOf_nodeWord, ← formOf_nodeWord, ← firstWord_node, ← firstWord_node, hsame]

end Stmt

/-! ## Nodes tell trees -/

theorem eq_of_map {α β : Type} {f : α → β} {items others : List α}
    (hitems : ∀ item ∈ items, ∀ other ∈ others, f item = f other → item = other)
    (hsame : items.map f = others.map f) : items = others := by
  induction items generalizing others with
  | nil => simpa using hsame.symm
  | cons item items ih =>
      cases others with
      | nil => simp at hsame
      | cons other others =>
          obtain ⟨hfirst, hmore⟩ := List.cons.inj hsame
          rw [hitems item (by simp) other (by simp) hfirst,
            ih (fun item hitem other hother => hitems item (by simp [hitem]) other (by simp [hother]))
              hmore]

theorem BinaryOp.mem_all (op : BinaryOp) : op ∈ all := by
  cases op <;> decide

theorem BinaryOp.eq_of_name {op other : BinaryOp} (hsame : op.name = other.name) : op = other := by
  have htable : ∀ op ∈ all, ∀ other ∈ all, op.name = other.name → op = other := by decide +kernel
  exact htable op op.mem_all other other.mem_all hsame

theorem UnaryOp.eq_of_text {op other : UnaryOp} {side place : Side}
    (hsame : "unary " ++ op.name ++ " (" ++ side.outlineText ++ ")" =
      "unary " ++ other.name ++ " (" ++ place.outlineText ++ ")") : op = other ∧ side = place := by
  have hall (op : UnaryOp) : op ∈ all := by cases op <;> decide
  have hsides (side : Side) : side ∈ [Side.before, Side.behind] := by cases side <;> decide
  have htable : ∀ op ∈ all, ∀ other ∈ all, ∀ side ∈ [Side.before, Side.behind],
      ∀ place ∈ [Side.before, Side.behind],
        "unary " ++ op.name ++ " (" ++ side.outlineText ++ ")" =
          "unary " ++ other.name ++ " (" ++ place.outlineText ++ ")" → op = other ∧ side = place := by
    decide +kernel
  exact htable op (hall op) other (hall other) side (hsides side) place (hsides place) hsame

theorem Ty.eq_of_node {type other : Ty} (htype : type.Fits .shown) (hother : other.Fits .shown)
    (hsame : type.node = other.node) : type = other :=
  Ty.eq_of_line htype hother (OutlineNode.mk.inj hsame).1

theorem Expr.wellFormed_of_isIdent {expr : Expr} (hident : expr.isIdent) : expr.WellFormed := by
  cases expr with
  | ident name => trivial
  | _ => cases hident

-- The recursion is on the first expression. Its form is that of the other one, and the nodes below
-- are those of their parts.
mutual
/-- The node of an expression tells the expression. -/
theorem Expr.eq_of_node : (expr other : Expr) → expr.Fits .shown → other.Fits .shown →
    expr.node = other.node → expr = other
  | .ident name, other, _, _, hsame => by
      have hform := ctorIdx_eq hsame
      cases other with
      | ident second =>
          exact congrArg ident ((String.append_right_inj _).mp (OutlineNode.mk.inj hsame).1)
      | _ => cases hform
  | .literal value, other, hexpr, hother, hsame => by
      have hform := ctorIdx_eq hsame
      cases other with
      | literal second =>
          exact congrArg literal (Literal.eq_of_outlineText hexpr.2 hother.2 (OutlineNode.mk.inj hsame).1)
      | _ => cases hform
  | .binary op lhs rhs, other, ⟨⟨hleft, hright⟩, hknown, hshown⟩, hother, hsame => by
      have hform := ctorIdx_eq hsame
      cases other with
      | binary second left right =>
          obtain ⟨⟨hfirst, hlast⟩, hothers, hmore⟩ := hother
          simp only [node, OutlineNode.mk.injEq, String.append_right_inj, List.cons.injEq, and_true]
            at hsame
          rw [BinaryOp.eq_of_name hsame.1,
            lhs.eq_of_node left ⟨hleft, hknown⟩ ⟨hfirst, hothers⟩ hsame.2.1,
            rhs.eq_of_node right ⟨hright, hshown⟩ ⟨hlast, hmore⟩ hsame.2.2]
      | _ => cases hform
  | .unary op side operand, other, ⟨⟨_, hwell⟩, hover⟩, hother, hsame => by
      have hform := ctorIdx_eq hsame
      cases other with
      | unary second place inner =>
          obtain ⟨⟨-, hinner⟩, hothers⟩ := hother
          obtain ⟨htext, hbelow⟩ := OutlineNode.mk.inj hsame
          obtain ⟨rfl, rfl⟩ := UnaryOp.eq_of_text htext
          rw [operand.eq_of_node inner ⟨hwell, hover⟩ ⟨hinner, hothers⟩ (List.cons.inj hbelow).1]
      | _ => cases hform
  | .cast operand target, other, ⟨⟨hwell, htarget⟩, hover, hknown⟩, hother, hsame => by
      have hform := ctorIdx_eq hsame
      cases other with
      | cast inner second =>
          obtain ⟨⟨hinner, hsecond⟩, hothers, hmore⟩ := hother
          obtain ⟨htext, hbelow⟩ := OutlineNode.mk.inj hsame
          rw [Ty.eq_of_line ⟨htarget, hknown⟩ ⟨hsecond, hmore⟩ htext,
            operand.eq_of_node inner ⟨hwell, hover⟩ ⟨hinner, hothers⟩ (List.cons.inj hbelow).1]
      | _ => cases hform
  | .call callee typeArgs args, other, ⟨⟨hname, htypes, hwell⟩, hover, hknown, hshown⟩, hother,
      hsame => by
      have hform := ctorIdx_eq hsame
      cases other with
      | call second types exprs =>
          obtain ⟨⟨hident, hthose, hexprs⟩, hsecond, hothers, hmore⟩ := hother
          -- Either group is left out if it is empty, so only the labels tell which one is there.
          obtain ⟨hcallee, hgroups⟩ := List.cons.inj (OutlineNode.mk.inj hsame).2
          obtain ⟨htypeArgs, hargs⟩ := eq_of_groups (by decide) hgroups
          have htype := eq_of_map (fun type htype other hother => Ty.eq_of_node
            (Ty.fits_of_mem htypes hknown type htype) (Ty.fits_of_mem hthose hothers other hother))
            htypeArgs
          rw [callee.eq_of_node second ⟨wellFormed_of_isIdent hname, hover⟩
              ⟨wellFormed_of_isIdent hident, hsecond⟩ hcallee, htype,
            Expr.eq_of_nodes args exprs hwell hshown hexprs hmore hargs]
      | _ => cases hform

theorem Expr.eq_of_nodes : (exprs others : List Expr) → Expr.AllWellFormed exprs →
    Expr.AllOver .shown exprs → Expr.AllWellFormed others → Expr.AllOver .shown others →
      Expr.nodes exprs = Expr.nodes others → exprs = others
  | [], [], _, _, _, _, _ => rfl
  | [], _ :: _, _, _, _, _, hsame => by simp [nodes] at hsame
  | _ :: _, [], _, _, _, _, hsame => by simp [nodes] at hsame
  | expr :: exprs, other :: others, hwell, hover, hthose, hknown, hsame => by
      obtain ⟨hfirst, hmore⟩ := List.cons.inj hsame
      rw [expr.eq_of_node other ⟨hwell.1, hover.1⟩ ⟨hthose.1, hknown.1⟩ hfirst,
        Expr.eq_of_nodes exprs others hwell.2 hover.2 hthose.2 hknown.2 hmore]
end

theorem VariableDecl.eq_of_node {scope : Scope} {decl other : VariableDecl}
    (hdecl : decl.Fits .shown scope) (hother : other.Fits .shown scope)
    (hsame : decl.node = other.node) : decl = other := by
  obtain ⟨htext, hbelow⟩ := OutlineNode.mk.inj hsame
  have hinits : decl.init.toList = other.init.toList :=
    eq_of_map (fun init hinit second hsecond => init.eq_of_node second
      ⟨hdecl.1.init init (Option.mem_toList.mp hinit), hdecl.2.init init (Option.mem_toList.mp hinit)⟩
      ⟨hother.1.init second (Option.mem_toList.mp hsecond),
        hother.2.init second (Option.mem_toList.mp hsecond)⟩) hbelow
  exact eq_of_headText hdecl hother (by simpa using congrArg List.head? hinits) htext

/-- The fields of a record end where its methods begin. -/
theorem eq_of_members {fields others : List VariableDecl} {methods those : List FunctionDecl}
    (hsame : fields.map VariableDecl.node ++ FunctionDecl.nodes methods =
      others.map VariableDecl.node ++ FunctionDecl.nodes those) :
    fields.map VariableDecl.node = others.map VariableDecl.node ∧
      FunctionDecl.nodes methods = FunctionDecl.nodes those := by
  have hfields (fields : List VariableDecl) :
      ∀ node ∈ fields.map VariableDecl.node, firstWord node.text = "variable" := by
    simpa using fun field _ => field.firstWord_node
  have hmethods (methods : List FunctionDecl) :
      ∀ node ∈ (FunctionDecl.nodes methods).head?, ¬ firstWord node.text = "variable" := by
    cases methods with
    | nil => simp [FunctionDecl.nodes]
    | cons method methods => simp [FunctionDecl.nodes, method.firstWord_node]
  exact eq_of_run (hfields fields) (hfields others) (hmethods methods) (hmethods those) hsame

mutual
/-- The node of a statement tells the statement. -/
theorem Stmt.eq_of_node {scope : Scope} : (stmt other : Stmt) → stmt.Fits .shown scope →
    other.Fits .shown scope → stmt.node = other.node → stmt = other
  | .expr value, other, hstmt, hother, hsame => by
      have hform := Stmt.ctorIdx_eq hsame
      cases other with
      | expr second => exact congrArg Stmt.expr (value.eq_of_node second hstmt hother hsame)
      | _ => cases hform
  | .variable decl, other, hstmt, hother, hsame => by
      have hform := Stmt.ctorIdx_eq hsame
      cases other with
      | «variable» second => exact congrArg _ (VariableDecl.eq_of_node hstmt hother hsame)
      | _ => cases hform
  | .typeAlias target name, other, hstmt, hother, hsame => by
      have hform := Stmt.ctorIdx_eq hsame
      cases other with
      | typeAlias second called =>
          obtain ⟨rfl, rfl⟩ := eq_of_aliasText ⟨hstmt.1, hstmt.2.1⟩ ⟨hother.1, hother.2.1⟩
            (OutlineNode.mk.inj hsame).1
          rfl
      | _ => cases hform
  | .record head methods, other, hstmt, hother, hsame => by
      have hform := Stmt.ctorIdx_eq hsame
      cases other with
      | record second those =>
          obtain ⟨⟨hhead, hmethods⟩, hover, hknown⟩ := hstmt
          obtain ⟨⟨hsecond, hthose⟩, hothers, hshown⟩ := hother
          obtain ⟨htext, hbelow⟩ := OutlineNode.mk.inj hsame
          obtain ⟨hfields, hmembers⟩ := eq_of_members hbelow
          have hfield := eq_of_map (fun field hfield other hother => VariableDecl.eq_of_node
            ⟨hhead.fields field hfield, hover.fields field hfield⟩
            ⟨hsecond.fields other hother, hothers.fields other hother⟩) hfields
          rw [RecordHead.eq_of_headText hhead hover hsecond hothers hfield htext,
            FunctionDecl.eq_of_nodes methods those hmethods hknown hthose hshown hmembers]
      | _ => cases hform
  | .branch condition body none, other, ⟨hwell, hover⟩, ⟨hthose, hknown⟩, hsame => by
      have hform := Stmt.ctorIdx_eq hsame
      cases other with
      | branch second stmts otherwise =>
          cases otherwise with
          | none =>
              simp only [Stmt.node, OutlineNode.mk.injEq, List.cons.injEq, and_true, true_and] at hsame
              rw [condition.eq_of_node second ⟨hwell.1, hover.1⟩ ⟨hthose.1, hknown.1⟩ hsame.1,
                Stmt.eq_of_nodes body stmts hwell.2 hover.2 hthose.2 hknown.2 hsame.2]
          | some _ => simp [Stmt.node] at hsame
      | _ => cases hform
  | .branch condition body (some otherwise), other, ⟨hwell, hover⟩, ⟨hthose, hknown⟩, hsame => by
      have hform := Stmt.ctorIdx_eq hsame
      cases other with
      | branch second stmts last =>
          cases last with
          | none => simp [Stmt.node] at hsame
          | some last =>
              simp only [Stmt.node, OutlineNode.mk.injEq, List.cons.injEq, and_true, true_and] at hsame
              rw [condition.eq_of_node second ⟨hwell.1, hover.1⟩ ⟨hthose.1, hknown.1⟩ hsame.1,
                Stmt.eq_of_nodes body stmts hwell.2.1 hover.2.1 hthose.2.1 hknown.2.1 hsame.2.1,
                Stmt.eq_of_nodes otherwise last hwell.2.2 hover.2.2 hthose.2.2 hknown.2.2 hsame.2.2]
      | _ => cases hform
  | .loop condition body, other, ⟨hwell, hover⟩, ⟨hthose, hknown⟩, hsame => by
      have hform := Stmt.ctorIdx_eq hsame
      cases other with
      | loop second stmts =>
          simp only [Stmt.node, OutlineNode.mk.injEq, List.cons.injEq, and_true, true_and] at hsame
          rw [condition.eq_of_node second ⟨hwell.1, hover.1⟩ ⟨hthose.1, hknown.1⟩ hsame.1,
            Stmt.eq_of_nodes body stmts hwell.2 hover.2 hthose.2 hknown.2 hsame.2]
      | _ => cases hform
  | .defer body, other, ⟨hwell, hover⟩, ⟨hthose, hknown⟩, hsame => by
      have hform := Stmt.ctorIdx_eq hsame
      cases other with
      | defer stmts =>
          rw [Stmt.eq_of_nodes body stmts hwell hover hthose hknown (OutlineNode.mk.inj hsame).2]
      | _ => cases hform
  | .break, other, _, _, hsame => by
      have hform := Stmt.ctorIdx_eq hsame
      cases other with
      | «break» => rfl
      | _ => cases hform
  | .continue, other, _, _, hsame => by
      have hform := Stmt.ctorIdx_eq hsame
      cases other with
      | «continue» => rfl
      | _ => cases hform
  | .function decl, other, hstmt, hother, hsame => by
      have hform := Stmt.ctorIdx_eq hsame
      cases other with
      | function second => exact congrArg _ (FunctionDecl.eq_of_node decl second hstmt hother hsame)
      | _ => cases hform

theorem Stmt.eq_of_nodes {scope : Scope} : (stmts others : List Stmt) →
    Stmt.AllWellFormed scope stmts → Stmt.AllOver .shown stmts → Stmt.AllWellFormed scope others →
      Stmt.AllOver .shown others → Stmt.nodes stmts = Stmt.nodes others → stmts = others
  | [], [], _, _, _, _, _ => rfl
  | [], _ :: _, _, _, _, _, hsame => by simp [Stmt.nodes] at hsame
  | _ :: _, [], _, _, _, _, hsame => by simp [Stmt.nodes] at hsame
  | stmt :: stmts, other :: others, hwell, hover, hthose, hknown, hsame => by
      obtain ⟨hfirst, hmore⟩ := List.cons.inj hsame
      rw [Stmt.eq_of_node stmt other ⟨hwell.1, hover.1⟩ ⟨hthose.1, hknown.1⟩ hfirst,
        Stmt.eq_of_nodes stmts others hwell.2 hover.2 hthose.2 hknown.2 hmore]

theorem FunctionDecl.eq_of_node {scope : Scope} : (decl other : FunctionDecl) →
    decl.Fits .shown scope → other.Fits .shown scope → decl.node = other.node → decl = other
  | ⟨signature, body⟩, ⟨second, stmts⟩, ⟨hwell, hover⟩, ⟨hthose, hknown⟩, hsame => by
      obtain ⟨htext, hbelow⟩ := OutlineNode.mk.inj hsame
      rw [Signature.eq_of_outlineText hwell.1 hover.1 hthose.1 hknown.1 htext,
        Stmt.eq_of_nodes body stmts hwell.2 hover.2 hthose.2 hknown.2 hbelow]

theorem FunctionDecl.eq_of_nodes {scope : Scope} : (decls others : List FunctionDecl) →
    FunctionDecl.AllWellFormed scope decls → FunctionDecl.AllOver .shown decls →
      FunctionDecl.AllWellFormed scope others → FunctionDecl.AllOver .shown others →
        FunctionDecl.nodes decls = FunctionDecl.nodes others → decls = others
  | [], [], _, _, _, _, _ => rfl
  | [], _ :: _, _, _, _, _, hsame => by simp [FunctionDecl.nodes] at hsame
  | _ :: _, [], _, _, _, _, hsame => by simp [FunctionDecl.nodes] at hsame
  | decl :: decls, other :: others, hwell, hover, hthose, hknown, hsame => by
      obtain ⟨hfirst, hmore⟩ := List.cons.inj hsame
      rw [FunctionDecl.eq_of_node decl other ⟨hwell.1, hover.1⟩ ⟨hthose.1, hknown.1⟩ hfirst,
        FunctionDecl.eq_of_nodes decls others hwell.2 hover.2 hthose.2 hknown.2 hmore]
end

/-- The node of a module tells the module. -/
theorem Module.eq_of_node {program other : Module} (hprogram : program.Fits .shown)
    (hother : other.Fits .shown) (hsame : program.node = other.node) : program = other := by
  obtain ⟨htext, hbelow⟩ := OutlineNode.mk.inj hsame
  have hname := (String.append_right_inj _).mp htext
  have hstatements := Stmt.eq_of_nodes _ _ hprogram.1 hprogram.2.2 hother.1 hother.2.2 hbelow
  cases program
  cases other
  simp_all

/-! ## Outlines tell trees -/

theorem BinaryOp.oneLine_name (op : BinaryOp) : OneLine op.name := by
  have htable : ∀ op ∈ all, OneLine op.name := by decide +kernel
  exact htable op op.mem_all

theorem UnaryOp.oneLine_name (op : UnaryOp) : OneLine op.name := by
  cases op <;> decide

theorem Side.oneLine_outlineText (side : Side) : OneLine side.outlineText := by
  cases side <;> decide

theorem Expr.isPlain_node {expr : Expr} (hover : expr.Over .shown) : IsPlain expr.node.text := by
  have hword : firstWord expr.node.text ≠ "" := by
    rw [expr.firstWord_node]
    exact ne_of_mem_of_not_mem expr.nodeWord_mem (by decide)
  refine OneLine.isPlain ?_ hword
  cases expr with
  | ident name => exact (by decide : OneLine "ident ").append (WordLike.oneLine hover)
  | literal value => exact value.oneLine_outlineText
  | binary op lhs rhs => exact (by decide : OneLine "binary ").append op.oneLine_name
  | unary op side operand =>
      exact ((((by decide : OneLine "unary ").append op.oneLine_name).append (by decide)).append
        side.oneLine_outlineText).append (by decide)
  | cast operand target => exact (by decide : OneLine "cast ").append (target.oneLine_text hover.2)
  | call callee typeArgs args => exact (by decide : OneLine "call")

theorem Ty.eachPlain_nodes {types : List Ty} (hover : Ty.AllOver .shown types) :
    EachPlain (types.map Ty.node) := by
  induction types with
  | nil => trivial
  | cons type types ih =>
      have htype := (by decide : OneLine "type ").append (type.oneLine_text hover.1)
      have hword := ((by decide : Opens "type" "type ").append type.text).1
      exact ⟨⟨htype.isPlain (hword.trans_ne (by decide)), trivial⟩, ih hover.2⟩

mutual
theorem Expr.allPlain_node : (expr : Expr) → expr.Over .shown → expr.node.AllPlain
  | .ident _, hover => ⟨isPlain_node hover, trivial⟩
  | .literal _, hover => ⟨isPlain_node hover, trivial⟩
  | .binary _ lhs rhs, hover =>
      ⟨isPlain_node hover, lhs.allPlain_node hover.1, rhs.allPlain_node hover.2, trivial⟩
  | .unary _ _ operand, hover => ⟨isPlain_node hover, operand.allPlain_node hover, trivial⟩
  | .cast operand _, hover => ⟨isPlain_node hover, operand.allPlain_node hover.1, trivial⟩
  | .call callee typeArgs args, hover =>
      ⟨isPlain_node hover, callee.allPlain_node hover.1,
        ((Ty.eachPlain_nodes hover.2.1).group (by decide)).append
          ((Expr.eachPlain_nodes args hover.2.2).group (by decide))⟩

theorem Expr.eachPlain_nodes : (exprs : List Expr) → Expr.AllOver .shown exprs →
    EachPlain (Expr.nodes exprs)
  | [], _ => trivial
  | expr :: exprs, hover => ⟨expr.allPlain_node hover.1, Expr.eachPlain_nodes exprs hover.2⟩
end

theorem VariableDecl.allPlain_node {decl : VariableDecl} (hover : decl.Over .shown) :
    decl.node.AllPlain := by
  refine ⟨(oneLine_headText hover).isPlain ?_, eachPlain_iff.mpr ?_⟩
  · exact decl.firstWord_node.trans_ne (by decide)
  · simpa using fun init hinit => init.allPlain_node (hover.init init hinit)

mutual
theorem Stmt.allPlain_node : (stmt : Stmt) → stmt.Over .shown → stmt.node.AllPlain
  | .expr value, hover => value.allPlain_node hover
  | .variable _, hover => VariableDecl.allPlain_node hover
  | .typeAlias target name, hover =>
      ⟨(oneLine_aliasText hover.1 hover.2.1).isPlain
        ((Stmt.typeAlias target name).firstWord_node.trans_ne (by decide : "alias" ≠ "")), trivial⟩
  | .record head methods, hover =>
      ⟨(RecordHead.oneLine_headText hover.1).isPlain
          ((Stmt.record head methods).firstWord_node.trans_ne (by decide : "record" ≠ "")),
        EachPlain.append
          (eachPlain_iff.mpr (by
            simpa using fun field hfield => VariableDecl.allPlain_node (hover.1.fields field hfield)))
          (FunctionDecl.eachPlain_nodes methods hover.2)⟩
  | .branch condition body none, hover =>
      ⟨by decide, condition.allPlain_node hover.1, ⟨by decide, Stmt.eachPlain_nodes body hover.2⟩,
        trivial⟩
  | .branch condition body (some otherwise), hover =>
      ⟨by decide, condition.allPlain_node hover.1, ⟨by decide, Stmt.eachPlain_nodes body hover.2.1⟩,
        ⟨by decide, Stmt.eachPlain_nodes otherwise hover.2.2⟩, trivial⟩
  | .loop condition body, hover =>
      ⟨by decide, condition.allPlain_node hover.1, ⟨by decide, Stmt.eachPlain_nodes body hover.2⟩,
        trivial⟩
  | .defer body, hover => ⟨by decide, Stmt.eachPlain_nodes body hover⟩
  | .break, _ | .continue, _ => ⟨by decide, trivial⟩
  | .function decl, hover => FunctionDecl.allPlain_node decl hover

theorem Stmt.eachPlain_nodes : (stmts : List Stmt) → Stmt.AllOver .shown stmts →
    EachPlain (Stmt.nodes stmts)
  | [], _ => trivial
  | stmt :: stmts, hover => ⟨Stmt.allPlain_node stmt hover.1, Stmt.eachPlain_nodes stmts hover.2⟩

theorem FunctionDecl.allPlain_node : (decl : FunctionDecl) → decl.Over .shown → decl.node.AllPlain
  | ⟨signature, body⟩, hover =>
      ⟨(Signature.oneLine_outlineText hover.1).isPlain
        ((FunctionDecl.mk signature body).firstWord_node.trans_ne (by decide)),
        Stmt.eachPlain_nodes body hover.2⟩

theorem FunctionDecl.eachPlain_nodes : (decls : List FunctionDecl) →
    FunctionDecl.AllOver .shown decls → EachPlain (FunctionDecl.nodes decls)
  | [], _ => trivial
  | decl :: decls, hover =>
      ⟨FunctionDecl.allPlain_node decl hover.1, FunctionDecl.eachPlain_nodes decls hover.2⟩
end

theorem Module.allPlain_node {program : Module} (hover : program.Over .shown) :
    program.node.AllPlain := by
  have hname := (by decide : OneLine "module ").append hover.1.1.oneLine
  have hword := ((by decide : Opens "module" "module ").append program.name).1
  exact ⟨hname.isPlain (hword.trans_ne (by decide)), Stmt.eachPlain_nodes _ hover.2⟩

/-- The outline of a module tells the module. -/
theorem Module.eq_of_outlineText {program other : Module} (hprogram : program.Fits .shown)
    (hother : other.Fits .shown) (hsame : program.outlineText = other.outlineText) :
    program = other := by
  have hplain {program : Module} (hover : program.Over .shown) :
      ∀ line ∈ program.outline, IsPlain line.text := by
    rw [Module.outline_eq]
    exact AllPlain.lines _ (allPlain_node hover) 0
  have hlines := eq_of_renderOutline (hplain hprogram.2) (hplain hother.2) hsame
  rw [Module.outline_eq, Module.outline_eq] at hlines
  have hends : Shallower 1 [] := by simp [Shallower]
  obtain ⟨hnode, -⟩ := eq_of_lines program.node other.node hends hends (by simpa using hlines)
  exact eq_of_node hprogram hother hnode

end KCompiler
