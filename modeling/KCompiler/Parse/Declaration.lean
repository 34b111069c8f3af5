import KCompiler.Parse.Expression

/-! # Parsing declarations

Modifiers and the declarations that hold no statements: variables, fields and
parameters.
-/

namespace KCompiler

/-- The modifier that a token is. -/
def Modifier.ofKind? : Kind → Option Modifier
  | .keyword .pub => some .pub
  | .keyword .mut => some .mut
  | _ => none

/-- What there is to say about one more modifier. -/
def repetition (modifiers : Modifiers) (modifier : Modifier) (token : Token) : List Finding :=
  if modifiers.contains modifier then [⟨.repeatedModifier modifier, token.span⟩] else []

/-- Parses modifiers, to be added to those read before. Repeated ones are reported. -/
def modifierList (modifiers : Modifiers) : (input : List Token) → Outcome input Modifiers
  | [] => .done modifiers
  | token :: rest =>
    match Modifier.ofKind? token.kind with
    | some modifier =>
      ((modifierList (modifiers.insert modifier) rest).reporting
        (repetition modifiers modifier token)).behind token
    | none => .done modifiers

/-- Parses a `mut` behind a name, if there is one. -/
def trailingMut (modifiers : Modifiers) (input : List Token) : Outcome input Modifiers :=
  match input with
  | [] => .done modifiers
  | token :: _ =>
    if token.kind = .keyword .mut then
      ((Outcome.done (modifiers.insert .mut)).reporting
        (repetition modifiers .mut token)).behind token
    else .done modifiers

/-- The modifiers that a declaration cannot carry, reported where it begins. -/
def refusals (modifiers : Modifiers) (scope : Scope) (kind : DeclKind) (start : Span) :
    List Finding :=
  (modifiers.refused scope kind).map fun error => ⟨.refusedModifier error, start⟩

/-- Whether a variable declaration lies ahead: a name, perhaps a `mut`, and a colon. -/
def startsVariable : List Token → Bool
  | name :: mark :: rest =>
    name.kind == .identifier &&
      (mark.kind == .punct .colon ||
        (mark.kind == .keyword .mut && rest.head?.map Token.kind == some (.punct .colon)))
  | _ => false

namespace Traced

/-- Parses a name with its type, and no initial value. -/
def binding (eof : Token) (scope : Scope) (modifiers : Modifiers) (start : Span)
    (input : List Token) : Traced input VariableDecl :=
  expecting eof .identifier input fun name rest _ =>
  (silent (trailingMut modifiers rest)).andThen fun modifiers rest _ =>
  expecting eof (.punct .colon) rest fun _ rest _ =>
  (typeExpr eof rest).andThen fun type _ _ =>
  silent ((Outcome.done
    { name := name.text, type, init := none, modifiers := modifiers.allowed scope .variable,
      scope }).reporting (refusals modifiers scope .variable start))

/-- Parses an initial value behind an equals sign, if there is one. -/
def initialValue (eof : Token) (input : List Token) : Traced input (Option Expr) :=
  match input with
  | [] => silent (.done none)
  | token :: rest =>
    if token.kind = .op .assign then ((expression eof 0 rest).map some).behind token
    else silent (.done none)

/-- Parses the declaration of a variable or a field. -/
def variableDecl (eof : Token) (scope : Scope) (modifiers : Modifiers) (start : Span)
    (input : List Token) : Traced input VariableDecl :=
  (binding eof scope modifiers start input).andThen fun decl rest _ =>
  (initialValue eof rest).map fun init => { decl with init }

/-- Parses a parameter. -/
def parameter (eof : Token) (input : List Token) : Traced input VariableDecl :=
  (silent (modifierList .empty input)).andThen fun modifiers rest _ =>
  binding eof .parameter modifiers (peek eof input).span rest

/-- Parses the parameters of a function, up to and with the closing parenthesis. -/
def parameters (eof : Token) (input : List Token) : Traced input (List VariableDecl) :=
  expecting eof (.punct .lparen) input fun _ rest _ =>
  (listOf (.punct .rparen) rest fun inner _ => parameter eof inner).andThen fun params rest _ =>
  expecting eof (.punct .rparen) rest fun _ _ _ => silent (.done params)

/-- Parses the names of type parameters in brackets, if there are any. -/
def generics (eof : Token) (input : List Token) : Traced input (List String) :=
  (delimited eof (.punct .lbracket) (.punct .rbracket) input fun inner _ =>
    silent ((expect eof .identifier inner).map Token.text)).map (Option.getD · [])

/-- Parses the type that a function returns; none is written for a function without value. -/
def returnType (eof : Token) (input : List Token) : Traced input Ty :=
  match input with
  | [] => silent (.done .unit)
  | token :: rest =>
    if token.kind = .punct .colon then (typeExpr eof rest).behind token else silent (.done .unit)

/-- Parses a function from its name to its result, with the modifiers read before. The
modifiers are not yet checked. -/
def signature (eof : Token) (scope : Scope) (modifiers : Modifiers) (input : List Token) :
    Traced input Signature :=
  expecting eof .identifier input fun name rest _ =>
  (generics eof rest).andThen fun generics rest _ =>
  (parameters eof rest).andThen fun params rest _ =>
  (returnType eof rest).map fun returnType =>
    { name := name.text, modifiers, generics, returnType, params, scope }

/-- Parses a type alias behind its keyword. -/
def typeAlias (eof : Token) (input : List Token) : Traced input Stmt :=
  (typeExpr eof input).andThen fun target rest _ =>
  expecting eof (.keyword .as) rest fun _ rest _ =>
  expecting eof .identifier rest fun name _ _ => silent (.done (.typeAlias target name.text))

end Traced

/-! ## Outcomes -/

def binding (eof : Token) (scope : Scope) (modifiers : Modifiers) (start : Span)
    (input : List Token) : Outcome input VariableDecl :=
  (Traced.binding eof scope modifiers start input).outcome

def initialValue (eof : Token) (input : List Token) : Outcome input (Option Expr) :=
  (Traced.initialValue eof input).outcome

def variableDecl (eof : Token) (scope : Scope) (modifiers : Modifiers) (start : Span)
    (input : List Token) : Outcome input VariableDecl :=
  (Traced.variableDecl eof scope modifiers start input).outcome

def parameter (eof : Token) (input : List Token) : Outcome input VariableDecl :=
  (Traced.parameter eof input).outcome

def parameters (eof : Token) (input : List Token) : Outcome input (List VariableDecl) :=
  (Traced.parameters eof input).outcome

def generics (eof : Token) (input : List Token) : Outcome input (List String) :=
  (Traced.generics eof input).outcome

def returnType (eof : Token) (input : List Token) : Outcome input Ty :=
  (Traced.returnType eof input).outcome

def signature (eof : Token) (scope : Scope) (modifiers : Modifiers) (input : List Token) :
    Outcome input Signature :=
  (Traced.signature eof scope modifiers input).outcome

def typeAlias (eof : Token) (input : List Token) : Outcome input Stmt :=
  (Traced.typeAlias eof input).outcome

section Equations

variable (eof token : Token) (scope : Scope) (modifiers : Modifiers) (start : Span)
  (input rest : List Token)

theorem binding_def :
    binding eof scope modifiers start input =
      expecting eof .identifier input fun name rest _ =>
      (trailingMut modifiers rest).andThen fun modifiers rest _ =>
      expecting eof (.punct .colon) rest fun _ rest _ =>
      (typeExpr eof rest).andThen fun type _ _ =>
      (Outcome.done
        { name := name.text, type, init := none, modifiers := modifiers.allowed scope .variable,
          scope }).reporting (refusals modifiers scope .variable start) := by
  simp only [binding, Traced.binding, Traced.outcome_expecting, Traced.outcome_andThen]
  rfl

theorem initialValue_nil : initialValue eof [] = .done none :=
  rfl

theorem initialValue_cons :
    initialValue eof (token :: rest) =
      if token.kind = .op .assign then ((expression eof 0 rest).map some).behind token
      else .done none := by
  rw [initialValue, Traced.initialValue]
  split <;> rfl

theorem variableDecl_def :
    variableDecl eof scope modifiers start input =
      (binding eof scope modifiers start input).andThen fun decl rest _ =>
      (initialValue eof rest).map fun init => { decl with init } := by
  simp only [variableDecl, Traced.variableDecl, Traced.outcome_andThen]
  rfl

theorem parameter_def :
    parameter eof input =
      (modifierList .empty input).andThen fun modifiers rest _ =>
      binding eof .parameter modifiers (peek eof input).span rest := by
  simp only [parameter, Traced.parameter, Traced.outcome_andThen]
  rfl

theorem parameters_def :
    parameters eof input =
      expecting eof (.punct .lparen) input fun _ rest _ =>
      (listOf (.punct .rparen) rest fun inner _ => parameter eof inner).andThen fun params rest _ =>
      expecting eof (.punct .rparen) rest fun _ _ _ => .done params := by
  simp only [parameters, Traced.parameters, Traced.outcome_expecting, Traced.outcome_andThen,
    Traced.outcome_listOf]
  rfl

theorem generics_def :
    generics eof input =
      (delimited eof (.punct .lbracket) (.punct .rbracket) input fun inner _ =>
        (expect eof .identifier inner).map Token.text).map (Option.getD · []) :=
  rfl

theorem returnType_nil : returnType eof [] = .done .unit :=
  rfl

theorem returnType_cons :
    returnType eof (token :: rest) =
      if token.kind = .punct .colon then (typeExpr eof rest).behind token else .done .unit := by
  rw [returnType, Traced.returnType]
  split <;> rfl

theorem signature_def :
    signature eof scope modifiers input =
      expecting eof .identifier input fun name rest _ =>
      (generics eof rest).andThen fun generics rest _ =>
      (parameters eof rest).andThen fun params rest _ =>
      (returnType eof rest).map fun returnType =>
        { name := name.text, modifiers, generics, returnType, params, scope } := by
  simp only [signature, Traced.signature, Traced.outcome_expecting, Traced.outcome_andThen]
  rfl

theorem typeAlias_def :
    typeAlias eof input =
      (typeExpr eof input).andThen fun target rest _ =>
      expecting eof (.keyword .as) rest fun _ rest _ =>
      expecting eof .identifier rest fun name _ _ => .done (.typeAlias target name.text) := by
  simp only [typeAlias, Traced.typeAlias, Traced.outcome_andThen, Traced.outcome_expecting]
  rfl

end Equations

end KCompiler
