import KCompiler.Parse.Statement

/-! # Parsing files and expressions

A list of tokens ends at its first end-of-input token; one that has none ends behind its
last token. Parsing never fails: a file without a usable header stands for an empty
module, and what cannot be parsed is reported.
-/

namespace KCompiler

/-- What was parsed, and what there is to say about it. -/
structure Parsed (α : Type) where
  value : α
  findings : List Finding

/-- The end of the input behind its last token, or at the start of an empty one. -/
def Token.endBehind : Option Token → Token
  | some last => .endOfInput last.bytes.hi last.span.finish
  | none => .endOfInput 0 .start

/-- What ends an input behind the last token: that token itself, if it is an end of the input. -/
def endToken (tokens : List Token) : Token :=
  match tokens.getLast? with
  | some last => if last.kind = .eof then last else .endBehind (some last)
  | none => .endBehind none

/-- Parses the name of a module behind its keyword, and ends the header like a statement. -/
def moduleName (eof : Token) (input : List Token) : Outcome input String :=
  match input with
  | [] => Outcome.failed.reporting [⟨.invalidModuleName eof.kind, eof.span⟩]
  | name :: rest =>
    if name.kind = .identifier then ((endStatement rest).map fun _ => name.text).behind name
    else Outcome.failed.reporting [⟨.invalidModuleName name.kind, name.span⟩]

/-- Parses the header of a module. -/
def moduleHeader (eof : Token) (input : List Token) : Outcome input String :=
  match input with
  | [] => Outcome.failed.reporting [⟨.missingModule, eof.span⟩]
  | token :: rest =>
    if token.kind = .keyword .mod then (moduleName eof rest).behind token
    else Outcome.failed.reporting [⟨.missingModule, token.span⟩]

/-- What there is to say about tokens that are left behind an expression. -/
def leftover : List Token → List Finding
  | [] => []
  | token :: _ => if token.kind = .eof then [] else [⟨.unexpected .eof token.kind, token.span⟩]

/-- What was parsed, with the run that led to it. -/
structure Recorded (α : Type) where
  parsed : Parsed α
  runs : List Run

namespace Recorded

/-- Parses a file; `eof` stands behind its last token. -/
def readModule (eof : Token) (input : List Token) : Recorded Module :=
  let header := moduleHeader eof (skipNewlines input)
  match header.value with
  | none => ⟨⟨.error, header.findings⟩, []⟩
  | some name =>
    let body := Traced.statements eof .topLevel false header.rest
    ⟨⟨⟨name, body.outcome.value.getD []⟩, header.findings ++ body.outcome.findings⟩, body.runs⟩

/-- Parses a file. -/
def parseModule (tokens : List Token) : Recorded Module :=
  readModule (endToken tokens) tokens

/-- Parses a single expression and reports what is left behind it; `eof` stands behind its last
token. -/
def readExpression (eof : Token) (input : List Token) : Recorded Expr :=
  let traced := Traced.expression eof 0 (skipNewlines input)
  ⟨⟨traced.outcome.value.getD .placeholder,
    traced.outcome.findings ++ leftover (skipNewlines traced.outcome.rest)⟩, traced.runs⟩

/-- Parses an expression that stands alone. -/
def parseExpression (tokens : List Token) : Recorded Expr :=
  readExpression (endToken tokens) tokens

end Recorded

/-! ## Outcomes -/

def readModule (eof : Token) (input : List Token) : Parsed Module :=
  (Recorded.readModule eof input).parsed

def parseModule (tokens : List Token) : Parsed Module :=
  readModule (endToken tokens) tokens

def readExpression (eof : Token) (input : List Token) : Parsed Expr :=
  (Recorded.readExpression eof input).parsed

def parseExpression (tokens : List Token) : Parsed Expr :=
  readExpression (endToken tokens) tokens

section Equations

variable (eof : Token) (input : List Token)

theorem readModule_def :
    readModule eof input =
      let header := moduleHeader eof (skipNewlines input)
      match header.value with
      | none => ⟨.error, header.findings⟩
      | some name =>
        let body := statements eof .topLevel false header.rest
        ⟨⟨name, body.value.getD []⟩, header.findings ++ body.findings⟩ := by
  dsimp only [readModule, Recorded.readModule]
  cases (moduleHeader eof (skipNewlines input)).value <;> rfl

theorem readExpression_def :
    readExpression eof input =
      ⟨(expression eof 0 (skipNewlines input)).value.getD .placeholder,
        (expression eof 0 (skipNewlines input)).findings ++
          leftover (skipNewlines (expression eof 0 (skipNewlines input)).rest)⟩ :=
  rfl

end Equations

end KCompiler
