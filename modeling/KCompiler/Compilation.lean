import KCompiler.Diagnostic.Collector
import KCompiler.Emit.Header
import KCompiler.Log
import KCompiler.Parse.Program
import KCompiler.Style
import KCompiler.Token.Lexer
import KCompiler.Tree.Outline

/-! # Compiling a source

A source is lexed, checked for style, parsed and emitted. A phase that leaves errors is
the last one. Style never matters to the result, nor do the listings that can be asked for.
-/

namespace KCompiler

/-- What a compilation does besides compiling. -/
structure Options where
  lint : Bool := true
  listTokens : Bool := false
  listTree : Bool := false
  mangling : Mangling := .off

/-- The steps of a compilation. -/
inductive Phase where
  | lex
  | lint
  | parse
  | emit
  deriving DecidableEq, Repr

/-- What came of a compilation. The output is there unless an error was reported, and the
module unless lexing failed. -/
structure Compilation where
  diagnostics : Diagnostics
  tokens : Option String := none
  tree : Option String := none
  program : Option Module := none
  output : Option String := none
  lastPhase : Phase

namespace Compilation

def succeeded (compilation : Compilation) : Bool :=
  compilation.output.isSome

end Compilation

/-- A result with the events logged on the way to it. -/
structure Logged (α : Type) where
  events : List LogEvent
  value : α

namespace Logged

def map {α β : Type} (f : α → β) (logged : Logged α) : Logged β :=
  ⟨logged.events, f logged.value⟩

/-- Puts events before those of a result. -/
def after {α : Type} (events : List LogEvent) (logged : Logged α) : Logged α :=
  ⟨events ++ logged.events, logged.value⟩

end Logged

/-- An event of the driver. -/
def driverEvent (step : Option String) (message : String) : LogEvent :=
  ⟨.debug, .driver, step, message⟩

/-- Reports findings. -/
def Diagnostics.note (diagnostics : Diagnostics) (findings : List Finding) : Diagnostics :=
  diagnostics.reportAll (findings.map Finding.diagnostic)

/-- The last phase: writes the C text of a module. -/
def emitPhase (options : Options) (compilation : Compilation) (program : Module) :
    Logged (Except Obstacle Compilation) :=
  let step := some "transpile"
  let mangled := options.mangling == .on
  let prepared : LogEvent := ⟨.trace, .emitter, step,
    s!"built prelude mangle={mangled} len={(preludeText options.mangling).utf8ByteSize}"⟩
  match program.emit options.mangling with
  | .error obstacle => ⟨[prepared], .error obstacle⟩
  | .ok output =>
    ⟨[prepared, driverEvent step s!"transpiled bytes={output.utf8ByteSize}"],
      .ok { compilation with program := some program, output := some output, lastPhase := .emit }⟩

/-- The parsing phase, and what follows it. -/
def parsePhase (options : Options) (compilation : Compilation) (tokens : List Token) :
    Logged (Except Obstacle Compilation) :=
  let parsed := parseModule tokens
  let program := parsed.value
  let diagnostics := compilation.diagnostics.note parsed.findings
  let compilation := { compilation with
    diagnostics
    tree := if options.listTree then some program.outlineText else none
    lastPhase := .parse }
  let event := driverEvent (some "parse")
    (s!"parsed module={program.name} statements={program.statements.length} " ++
      s!"errors={diagnostics.errorCount}")
  if diagnostics.hasErrors then
    ⟨[event, driverEvent none "halting after parsing"],
      .ok { compilation with program := some program }⟩
  else (emitPhase options compilation program).after [event]

/-- The style phase, if it is wanted. -/
def lintPhase (options : Options) (compilation : Compilation) (tokens : List Token) :
    Logged Compilation :=
  if options.lint then
    let findings := Style.check tokens
    ⟨[driverEvent (some "lint") s!"linted findings={findings.length}"],
      { compilation with
        diagnostics := compilation.diagnostics.note findings, lastPhase := .lint }⟩
  else ⟨[], compilation⟩

/-- Compiles a source, and logs it. -/
def compileLogged (options : Options) (source : String) : Logged (Except Obstacle Compilation) :=
  let lexed := lex source
  let diagnostics := Diagnostics.empty.note lexed.findings
  let compilation : Compilation :=
    { diagnostics
      tokens := if options.listTokens then some (Token.listing lexed.tokens) else none
      lastPhase := .lex }
  let event := driverEvent (some ("lex\x7bbytes=" ++ toString source.utf8ByteSize ++ "\x7d"))
    s!"lexed count={lexed.tokens.length} errors={diagnostics.errorCount}"
  if diagnostics.hasErrors then
    ⟨[event, driverEvent none "halting after lexing"], .ok compilation⟩
  else
    let linted := lintPhase options compilation lexed.tokens
    (parsePhase options linted.value lexed.tokens).after (event :: linted.events)

/-- Compiles a source. An obstacle to emitting it is an error of the compilation itself, not
a diagnostic. -/
def compile (options : Options) (source : String) : Except Obstacle Compilation :=
  (compileLogged options source).value

end KCompiler
