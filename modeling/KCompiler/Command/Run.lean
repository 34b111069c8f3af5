import KCompiler.Command.Arguments
import KCompiler.Command.Directory
import KCompiler.Diagnostic.Render

/-! # Running the compiler on files

The program reads a source, writes what it was asked for and tells how it went. What it
does to files and to the terminal is given to it as a host, so that it runs on the real
system as it does in memory.
-/

namespace KCompiler

/-- What the program needs of the system it runs on. -/
structure Host (m : Type → Type) where
  read : String → m (Except FileError String)
  write : String → String → m (Except FileError Unit)
  log : LogEvent → m Unit
  /-- Writes to the standard output. -/
  print : String → m Unit
  /-- Writes to the standard output a text that the time taken completes. -/
  printTimed : String → m Unit
  /-- Writes to the standard error output. -/
  complain : String → m Unit

/-- Why the program cannot go on. -/
inductive RunError where
  | file (error : FileError)
  | emit (obstacle : Obstacle)

def Obstacle.failureText (obstacle : Obstacle) : String :=
  "transpilation failed: " ++ obstacle.message

def RunError.message : RunError → String
  | .file error => error.message
  | .emit obstacle => obstacle.failureText

/-- How a run ended. -/
inductive ExitStatus where
  | success
  | failure
  | usage
  deriving DecidableEq, Repr

def ExitStatus.code : ExitStatus → Nat
  | .success => 0
  | .failure => 1
  | .usage => 2

namespace Host

variable {m : Type → Type} [Monad m]

/-- Writes a text to a file, if both are there. -/
def writeListing (host : Host m) (path text : Option String) : ExceptT RunError m Unit :=
  match path, text with
  | some path, some text => do
    match ← host.write path text with
    | .ok () => return ()
    | .error error => throw (.file error)
  | _, _ => return ()

/-- Compiles a file as the arguments say. -/
def compileFile (host : Host m) (arguments : Arguments) : ExceptT RunError m ExitStatus := do
  let input := arguments.inputPath
  host.log ⟨.info, .command, none, "compiling input=" ++ input⟩
  match ← host.read input with
  | .error error => throw (.file error)
  | .ok source =>
    host.log (driverEvent none ("read source path=" ++ input))
    let logged := compileLogged arguments.options source
    logged.events.forM fun event => host.log event
    match logged.value with
    | .error obstacle => throw (.emit obstacle)
    | .ok compilation =>
      host.writeListing arguments.tokenFile compilation.tokens
      host.writeListing arguments.treeFile compilation.tree
      if !compilation.diagnostics.isEmpty then
        host.complain (compilation.diagnostics.render ⟨input, source⟩ ++ "\n")
      match compilation.output with
      | none =>
        host.complain (compilation.diagnostics.summary ++ "\n")
        return .failure
      | some output =>
        host.writeListing (some arguments.outputPath) (some output)
        host.log ⟨.info, .command, none, "wrote C output output=" ++ arguments.outputPath⟩
        host.printTimed ("compiled " ++ input ++ " to " ++ arguments.outputPath ++ " in ")
        return .success

/-- Does what the command line asks for. -/
def run (host : Host m) (request : Request) : m ExitStatus :=
  match request with
  | .help => do
    host.print helpText
    return .success
  | .version => do
    host.print versionText
    return .success
  | .invalid => do
    host.complain "error: invalid arguments\n\nFor more information, try '--help'.\n"
    return .usage
  | .run arguments => do
    match ← (host.compileFile arguments).run with
    | .ok status => return status
    | .error error =>
      host.complain ("internal compiler error: " ++ error.message ++ "\n")
      return .failure

end Host

/-- A system in memory: a directory, and all that has been written and logged. -/
structure Session where
  directory : Directory
  filter : LogFilter
  output : String := ""
  errors : String := ""
  log : List String := []

/-- The host that works on a session. -/
def Session.host : Host (StateM Session) where
  read path := do
    return (← get).directory.read path
  write path text := do
    let session ← get
    match session.directory.write path text with
    | .error error => return .error error
    | .ok directory =>
      set { session with directory }
      return .ok ()
  log event := modify fun session =>
    { session with log := session.log ++ (session.filter.line? event).toList }
  print text := modify fun session => { session with output := session.output ++ text }
  printTimed text := modify fun session => { session with output := session.output ++ text }
  complain text := modify fun session => { session with errors := session.errors ++ text }

/-- Whether a command line asks for debugging detail. -/
def Request.verbose : Request → Bool
  | .run arguments => arguments.verbose
  | _ => false

/-- Runs a command line in a directory in memory. The text given for the log filter may be
missing. -/
def runInMemory (arguments : List String) (directory : Directory) (filter : Option String) :
    ExitStatus × Session :=
  let request := Request.ofArguments arguments
  (Session.host.run request).run { directory, filter := .choose filter request.verbose }

end KCompiler
