import KCompiler.Emit.Header

/-! # What stands in the way of C

A tree is emitted in one walk, and the first construct without a C form ends it. Here the walk is
taken to its end: it gives the list of all such constructs in the order of writing, and the parts
that the text is put together from. Emission is settled by the two: it gives the text if nothing is
in the way, and otherwise the first obstacle. Names are only marked when they are written, so that
neither list depends on the mangling.
-/

namespace KCompiler

/-! ## Obstacles -/

/-- A name that begins with an at sign has no spelling in C. -/
def nameObstacles (name : String) : List Obstacle :=
  if name.toList.head? = some '@' then [.foreignName name] else []

def Ty.obstacles : Ty → List Obstacle
  | .builtin name => if (builtinCType? name).isSome then [] else [.unknownBuiltin name]
  | .named name => nameObstacles name
  | .generic base args => [.genericType (.generic base args)]

/-- What is in the way of an expression. The target of a cast is written before its operand, and
the parts of a call are not written at all. -/
def Expr.obstacles : Expr → List Obstacle
  | .ident name => nameObstacles name
  | .literal _ => []
  | .binary _ lhs rhs => lhs.obstacles ++ rhs.obstacles
  | .unary _ _ operand => operand.obstacles
  | .cast operand target => target.obstacles ++ operand.obstacles
  | .call _ _ _ => [.call]

/-- What is in the way of a variable: a missing initial value, then its type, its name and its
initial value. -/
def VariableDecl.obstacles (decl : VariableDecl) : List Obstacle :=
  (if decl.init.isNone then [.missingInitializer decl.name] else []) ++ decl.type.obstacles ++
    nameObstacles decl.name ++ decl.init.elim [] Expr.obstacles

/-- What is in the way of a field: an initial value, then its type and its name. -/
def VariableDecl.fieldObstacles (decl : VariableDecl) : List Obstacle :=
  (if decl.init.isSome then [.fieldInitializer] else []) ++ decl.type.obstacles ++
    nameObstacles decl.name

/-- What is in the way of the type that a record declares. -/
def Ty.recordObstacles : Ty → List Obstacle
  | .named name => nameObstacles name
  | type => [.recordType type]

/-- What is in the way of a record: methods, then its type and its fields in order. -/
def RecordHead.obstacles (head : RecordHead) (methods : List FunctionDecl) : List Obstacle :=
  (if methods.isEmpty then [] else [.recordMethods]) ++ head.type.recordObstacles ++
    head.fields.flatMap VariableDecl.fieldObstacles

mutual
def Stmt.obstacles : Stmt → List Obstacle
  | .expr value => value.obstacles
  | .variable decl => decl.obstacles
  | .typeAlias target name => target.obstacles ++ nameObstacles name
  | .record head methods => head.obstacles methods
  | .branch condition body none => condition.obstacles ++ Stmt.allObstacles body
  | .branch condition body (some otherwise) =>
    condition.obstacles ++ Stmt.allObstacles body ++ Stmt.allObstacles otherwise
  | .loop condition body => condition.obstacles ++ Stmt.allObstacles body
  | .defer _ => [.deferBlock]
  | .break => []
  | .continue => []
  | .function _ => [.functionDeclaration]

def Stmt.allObstacles : List Stmt → List Obstacle
  | [] => []
  | stmt :: stmts => stmt.obstacles ++ Stmt.allObstacles stmts
end

/-- All that is in the way of a module, in the order of writing. -/
def Module.obstacles (program : Module) : List Obstacle :=
  Stmt.allObstacles program.statements

/-! ## Parts -/

/-- What an emitted text is put together from. -/
inductive Part where
  /-- A fixed text of C. -/
  | mark (text : String)
  /-- A name that the prelude defines. -/
  | defined (name : String)
  /-- A name of the program. -/
  | named (name : String)
  | literal (value : Literal)

def Part.text (mangling : Mangling) : Part → String
  | .mark text => text
  | .defined name => mangling.apply name
  | .named name => mangling.apply name
  | .literal value => value.emit mangling

/-- Parts one behind the other. -/
def written (mangling : Mangling) (parts : List Part) : String :=
  String.join (parts.map (Part.text mangling))

def Ty.cParts : Ty → List Part
  | .builtin name => [.mark ((builtinCType? name).getD "")]
  | .named name => [.named name]
  | .generic _ _ => []

def Expr.cParts : Expr → List Part
  | .ident name => [.named name]
  | .literal value => [.literal value]
  | .binary op lhs rhs => .mark "(" :: (lhs.cParts ++ .mark op.symbol :: (rhs.cParts ++ [.mark ")"]))
  | .unary op .before operand => .mark "(" :: .mark op.symbol :: (operand.cParts ++ [.mark ")"])
  | .unary op .behind operand => .mark "(" :: (operand.cParts ++ [.mark op.symbol, .mark ")"])
  | .cast operand target =>
    .mark "(" :: (target.cParts ++ .mark ")(" :: (operand.cParts ++ [.mark ")"]))
  | .call _ _ _ => []

/-- The parts of an expression that stands as a statement. -/
def Expr.statementParts : Expr → List Part
  | .binary op lhs rhs =>
    if op.isAssignment then lhs.cParts ++ .mark op.symbol :: (rhs.cParts ++ [.mark ";"])
    else (Expr.binary op lhs rhs).cParts ++ [.mark ";"]
  | expr => expr.cParts ++ [.mark ";"]

def VariableDecl.cParts (decl : VariableDecl) : List Part :=
  .defined (if decl.isMutable then "MUT" else "IMMUT") :: .mark " " :: (decl.type.cParts ++
    .mark " " :: .named decl.name :: .mark "=" :: (decl.init.elim [] Expr.cParts ++ [.mark ";"]))

def VariableDecl.fieldParts (decl : VariableDecl) : List Part :=
  decl.type.cParts ++ [.mark " ", .named decl.name, .mark ";"]

def RecordHead.cParts (head : RecordHead) : List Part :=
  .mark "typedef struct " :: (head.type.cParts ++ .mark "\x7b" ::
    (head.fields.flatMap VariableDecl.fieldParts ++ .mark "\x7d" ::
      (head.type.cParts ++ [.mark ";"])))

mutual
/-- The parts of a statement. One that is never emitted has none. -/
def Stmt.cParts : Stmt → List Part
  | .expr value => value.statementParts
  | .variable decl => decl.cParts
  | .typeAlias target name =>
    .mark "typedef " :: (target.cParts ++ [.mark " ", .named name, .mark ";"])
  | .record head _ => head.cParts
  | .branch condition body none =>
    .mark "if(" :: (condition.cParts ++ .mark ")\x7b" :: (Stmt.allParts body ++ [.mark "\x7d"]))
  | .branch condition body (some otherwise) =>
    .mark "if(" :: (condition.cParts ++ .mark ")\x7b" :: (Stmt.allParts body ++
      .mark "\x7delse\x7b" :: (Stmt.allParts otherwise ++ [.mark "\x7d"])))
  | .loop condition body =>
    .mark "while(" :: (condition.cParts ++ .mark ")\x7b" :: (Stmt.allParts body ++ [.mark "\x7d"]))
  | .defer _ => []
  | .break => [.mark "break;"]
  | .continue => [.mark "continue;"]
  | .function _ => []

def Stmt.allParts : List Stmt → List Part
  | [] => []
  | stmt :: stmts => stmt.cParts ++ Stmt.allParts stmts
end

section Written

variable (mangling : Mangling)

@[simp] theorem written_nil : written mangling [] = "" := rfl

@[simp] theorem written_cons (part : Part) (parts : List Part) :
    written mangling (part :: parts) = part.text mangling ++ written mangling parts := by
  simp [written, String.join_cons]

@[simp] theorem written_append (first second : List Part) :
    written mangling (first ++ second) = written mangling first ++ written mangling second := by
  induction first with
  | nil => simp
  | cons part parts ih => simp [ih, String.append_assoc]

end Written

/-! ## Emission -/

section Emission

variable {α β : Type} (mangling : Mangling)

/-- A value, unless something is in its way. -/
def unobstructed (obstacles : List Obstacle) (value : α) : Except Obstacle α :=
  match obstacles with
  | [] => .ok value
  | obstacle :: _ => .error obstacle

/-- One step behind another: the obstacles of the first come first, and the second is only taken
with the value that the first gives. -/
theorem bind_unobstructed {obstacles more : List Obstacle} {value : α} {result : β}
    {next : α → Except Obstacle β} (hnext : next value = unobstructed more result) :
    (unobstructed obstacles value >>= next) = unobstructed (obstacles ++ more) result := by
  cases obstacles with
  | nil => exact hnext
  | cons obstacle obstacles => rfl

/-- The last step only puts texts together. -/
theorem bind_unobstructed_pure {obstacles : List Obstacle} {value : α} {result : β}
    {next : α → Except Obstacle β} (hnext : next value = .ok result) :
    (unobstructed obstacles value >>= next) = unobstructed obstacles result := by
  cases obstacles with
  | nil => exact hnext
  | cons obstacle obstacles => rfl

theorem emitName_eq (name : String) :
    emitName mangling name = unobstructed (nameObstacles name) (mangling.apply name) := by
  unfold emitName nameObstacles
  split <;> rfl

theorem Ty.emit_eq (type : Ty) :
    type.emit mangling = unobstructed type.obstacles (written mangling type.cParts) := by
  cases type with
  | builtin name =>
      rw [Ty.emit, Ty.obstacles, Ty.cParts]
      cases builtinCType? name with
      | none => rfl
      | some cType => simp [unobstructed, Part.text]
  | named name =>
      rw [Ty.emit, emitName_eq]
      simp [Ty.obstacles, Ty.cParts, Part.text]
  | generic base args => rfl

theorem Expr.emit_eq : (expr : Expr) →
    expr.emit mangling = unobstructed expr.obstacles (written mangling expr.cParts)
  | .ident name => by
      rw [Expr.emit, emitName_eq]
      simp [Expr.obstacles, Expr.cParts, Part.text]
  | .literal value => by simp [Expr.emit, unobstructed, Expr.obstacles, Expr.cParts, Part.text]
  | .binary op lhs rhs => by
      rw [Expr.emit, lhs.emit_eq, rhs.emit_eq]
      refine bind_unobstructed (bind_unobstructed_pure ?_)
      simp [Expr.cParts, Part.text, String.append_assoc, pure, Except.pure]
  | .unary op .before operand => by
      rw [Expr.emit, operand.emit_eq]
      refine bind_unobstructed_pure ?_
      simp [Expr.cParts, Part.text, String.append_assoc, pure, Except.pure]
  | .unary op .behind operand => by
      rw [Expr.emit, operand.emit_eq]
      refine bind_unobstructed_pure ?_
      simp [Expr.cParts, Part.text, String.append_assoc, pure, Except.pure]
  | .cast operand target => by
      rw [Expr.emit, target.emit_eq, operand.emit_eq]
      refine bind_unobstructed (bind_unobstructed_pure ?_)
      simp [Expr.cParts, Part.text, String.append_assoc, pure, Except.pure]
  | .call _ _ _ => rfl

theorem Expr.emitStatement_eq (expr : Expr) :
    expr.emitStatement mangling =
      unobstructed expr.obstacles (written mangling expr.statementParts) := by
  have hplain : (do return (← expr.emit mangling) ++ ";") =
      unobstructed expr.obstacles (written mangling (expr.cParts ++ [.mark ";"])) := by
    rw [expr.emit_eq]
    refine bind_unobstructed_pure ?_
    simp [Part.text, pure, Except.pure]
  cases expr with
  | binary op lhs rhs =>
      rw [emitStatement, statementParts]
      split
      · rw [lhs.emit_eq, rhs.emit_eq]
        refine bind_unobstructed (bind_unobstructed_pure ?_)
        simp [Part.text, String.append_assoc, pure, Except.pure]
      · exact hplain
  | _ => exact hplain

theorem VariableDecl.emit_eq (decl : VariableDecl) :
    decl.emit mangling = unobstructed decl.obstacles (written mangling decl.cParts) := by
  rw [VariableDecl.emit, VariableDecl.obstacles, VariableDecl.cParts]
  cases decl.init with
  | none => rfl
  | some init =>
      simp only [decl.type.emit_eq, emitName_eq, init.emit_eq, Option.isNone_some,
        Bool.false_eq_true, if_false, List.nil_append, List.append_assoc, Option.elim_some]
      refine bind_unobstructed (bind_unobstructed (bind_unobstructed_pure ?_))
      simp [Part.text, String.append_assoc, pure, Except.pure]

theorem VariableDecl.emitField_eq (decl : VariableDecl) :
    decl.emitField mangling =
      unobstructed decl.fieldObstacles (written mangling decl.fieldParts) := by
  rw [VariableDecl.emitField, VariableDecl.fieldObstacles, VariableDecl.fieldParts]
  split
  · rfl
  · rw [decl.type.emit_eq, emitName_eq, List.nil_append]
    refine bind_unobstructed (bind_unobstructed_pure ?_)
    simp [Part.text, String.append_assoc, pure, Except.pure]

/-- Items one behind the other, if each is settled by its obstacles. -/
theorem mapM_unobstructed {f : α → Except Obstacle β} {obstacles : α → List Obstacle} {value : α → β}
    (hitem : ∀ item, f item = unobstructed (obstacles item) (value item)) (items : List α) :
    items.mapM f = unobstructed (items.flatMap obstacles) (items.map value) := by
  induction items with
  | nil => rfl
  | cons item items ih =>
      rw [List.mapM_cons, hitem, ih]
      exact bind_unobstructed (bind_unobstructed_pure rfl)

theorem written_flatMap (parts : α → List Part) (items : List α) :
    written mangling (items.flatMap parts) =
      String.join (items.map fun item => written mangling (parts item)) := by
  induction items with
  | nil => rfl
  | cons item items ih => simp [ih, String.join_cons]

theorem RecordHead.emit_eq (head : RecordHead) :
    head.emit mangling = unobstructed (head.obstacles []) (written mangling head.cParts) := by
  rw [RecordHead.emit, RecordHead.obstacles, RecordHead.cParts]
  cases head.type with
  | builtin name => rfl
  | generic base args => rfl
  | named name =>
      simp only [emitName_eq, mapM_unobstructed (VariableDecl.emitField_eq mangling)]
      refine bind_unobstructed (bind_unobstructed_pure ?_)
      simp [Part.text, Ty.cParts, written_flatMap, String.append_assoc, pure, Except.pure]

mutual
theorem Stmt.emit_eq : (stmt : Stmt) →
    stmt.emit mangling = unobstructed stmt.obstacles (written mangling stmt.cParts)
  | .expr value => value.emitStatement_eq mangling
  | .variable decl => decl.emit_eq mangling
  | .typeAlias target name => by
      rw [Stmt.emit, target.emit_eq, emitName_eq]
      refine bind_unobstructed (bind_unobstructed_pure ?_)
      simp [Stmt.cParts, Part.text, String.append_assoc, pure, Except.pure]
  | .record head [] => head.emit_eq mangling
  | .record _ (_ :: _) => rfl
  | .branch condition body none => by
      rw [Stmt.emit, condition.emit_eq, Stmt.emitAll_eq body]
      refine bind_unobstructed (bind_unobstructed_pure ?_)
      simp [Stmt.cParts, Part.text, String.append_assoc, pure, Except.pure]
  | .branch condition body (some otherwise) => by
      rw [Stmt.emit, condition.emit_eq, Stmt.emitAll_eq body, Stmt.emitAll_eq otherwise,
        Stmt.obstacles, List.append_assoc]
      refine bind_unobstructed (bind_unobstructed (bind_unobstructed_pure ?_))
      simp [Stmt.cParts, Part.text, String.append_assoc, pure, Except.pure]
  | .loop condition body => by
      rw [Stmt.emit, condition.emit_eq, Stmt.emitAll_eq body]
      refine bind_unobstructed (bind_unobstructed_pure ?_)
      simp [Stmt.cParts, Part.text, String.append_assoc, pure, Except.pure]
  | .defer _ => rfl
  | .break => by simp [Stmt.emit, unobstructed, Stmt.obstacles, Stmt.cParts, Part.text]
  | .continue => by simp [Stmt.emit, unobstructed, Stmt.obstacles, Stmt.cParts, Part.text]
  | .function _ => rfl

theorem Stmt.emitAll_eq : (stmts : List Stmt) →
    Stmt.emitAll mangling stmts =
      unobstructed (Stmt.allObstacles stmts) (written mangling (Stmt.allParts stmts))
  | [] => rfl
  | stmt :: stmts => by
      rw [Stmt.emitAll, stmt.emit_eq, Stmt.emitAll_eq stmts]
      refine bind_unobstructed (bind_unobstructed_pure ?_)
      simp [Stmt.allParts, pure, Except.pure]
end

/-- The line of a statement in the C text of a module. -/
def Stmt.line (stmt : Stmt) : String :=
  written mangling stmt.cParts

theorem Stmt.allObstacles_eq (stmts : List Stmt) :
    Stmt.allObstacles stmts = stmts.flatMap Stmt.obstacles := by
  induction stmts with
  | nil => rfl
  | cons stmt stmts ih => rw [Stmt.allObstacles, ih, List.flatMap_cons]

/-- A module is settled by what is in the way of its statements and by their lines. -/
theorem Module.emit_eq (program : Module) :
    program.emit mangling = unobstructed program.obstacles
      (endLines ["#ifndef " ++ program.guard mangling, "#define " ++ program.guard mangling] ++
        preludeText mangling ++ endLines (program.statements.map (Stmt.line mangling)) ++
        "#endif\n") := by
  rw [Module.emit, mapM_unobstructed (Stmt.emit_eq mangling), Module.obstacles,
    Stmt.allObstacles_eq]
  exact bind_unobstructed_pure rfl

end Emission

section Settled

variable {α : Type} {obstacles : List Obstacle} {value : α}

theorem unobstructed_eq_ok_iff {result : α} :
    unobstructed obstacles value = .ok result ↔ obstacles = [] ∧ value = result := by
  cases obstacles with
  | nil => simp [unobstructed]
  | cons obstacle obstacles => simp [unobstructed]

theorem unobstructed_eq_error_iff {obstacle : Obstacle} :
    unobstructed obstacles value = .error obstacle ↔ obstacles.head? = some obstacle := by
  cases obstacles with
  | nil => simp [unobstructed]
  | cons obstacle obstacles => simp [unobstructed]

end Settled

/-- A module has a C text exactly if nothing is in the way of its statements, and is refused with
the first obstacle otherwise, whatever the mangling. -/
theorem emit_fails_at_first_obstacle (program : Module) (mangling : Mangling) :
    ((∃ text, program.emit mangling = .ok text) ↔ program.obstacles = []) ∧
      (∀ obstacle, program.emit mangling = .error obstacle ↔
        program.obstacles.head? = some obstacle) ∧
      ∀ other obstacle, program.emit mangling = .error obstacle →
        program.emit other = .error obstacle := by
  have herror (mangling : Mangling) (obstacle : Obstacle) :
      program.emit mangling = .error obstacle ↔ program.obstacles.head? = some obstacle := by
    rw [Module.emit_eq, unobstructed_eq_error_iff]
  refine ⟨⟨?_, ?_⟩, herror mangling, ?_⟩
  · rintro ⟨text, hok⟩
    rw [Module.emit_eq, unobstructed_eq_ok_iff] at hok
    exact hok.1
  · intro hnone
    rw [Module.emit_eq, hnone]
    exact ⟨_, rfl⟩
  · intro other obstacle hfirst
    exact (herror other obstacle).mpr ((herror mangling obstacle).mp hfirst)

/-- A variable without initial value, of a type that is applied to another, under a foreign name. -/
example : (Module.mk "m" [.variable ⟨"@x", .generic (.named "List") [.named "T"], none, .empty,
      .topLevel⟩]).obstacles =
    [.missingInitializer "@x", .genericType (.generic (.named "List") [.named "T"]),
      .foreignName "@x"] := rfl

end KCompiler
