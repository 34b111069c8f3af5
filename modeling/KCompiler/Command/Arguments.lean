import KCompiler.Compilation

/-! # Command-line arguments

Arguments are read from left to right. The first one that cannot be read, and the first
that asks for help or for the version, settles the matter.
-/

namespace KCompiler

/-- What the command line says. An option that is not given is none. -/
structure Arguments where
  input : Option String := none
  output : Option String := none
  tokenFile : Option String := none
  treeFile : Option String := none
  noLint : Bool := false
  mangle : Bool := false
  verbose : Bool := false
  deriving DecidableEq, Repr

/-- What is asked of the program. -/
inductive Request where
  | run (arguments : Arguments)
  | help
  | version
  | invalid
  deriving DecidableEq, Repr

/-- Options that take a value. -/
inductive ValueOption where
  | output
  | tokenFile
  | treeFile
  deriving DecidableEq, Repr

/-- Options that take none. -/
inductive Flag where
  | noLint
  | mangle
  | verbose
  deriving DecidableEq, Repr

/-- An option of either sort, or one that ends the reading. -/
inductive Switch where
  | value (option : ValueOption)
  | flag (flag : Flag)
  | help
  | version
  deriving DecidableEq, Repr

def Switch.ofLong? : String → Option Switch
  | "output" => some (.value .output)
  | "dump-tokens" => some (.value .tokenFile)
  | "dump-ast" => some (.value .treeFile)
  | "no-lint" => some (.flag .noLint)
  | "mangle" => some (.flag .mangle)
  | "verbose" => some (.flag .verbose)
  | "help" => some .help
  | "version" => some .version
  | _ => none

def Switch.ofShort? : Char → Option Switch
  | 'o' => some (.value .output)
  | 'v' => some (.flag .verbose)
  | 'h' => some .help
  | 'V' => some .version
  | _ => none

namespace Arguments

/-- Sets a place that is still free to a value that is not empty. -/
def setOnce (place : Option String) (value : String) : Option (Option String) :=
  if place.isSome || value.isEmpty then none else some (some value)

def setInput (arguments : Arguments) (value : String) : Option Arguments :=
  (setOnce arguments.input value).map fun input => { arguments with input }

def setValue (arguments : Arguments) (option : ValueOption) (value : String) : Option Arguments :=
  match option with
  | .output => (setOnce arguments.output value).map fun output => { arguments with output }
  | .tokenFile =>
    (setOnce arguments.tokenFile value).map fun tokenFile => { arguments with tokenFile }
  | .treeFile => (setOnce arguments.treeFile value).map fun treeFile => { arguments with treeFile }

def setFlag (arguments : Arguments) : Flag → Option Arguments
  | .noLint => if arguments.noLint then none else some { arguments with noLint := true }
  | .mangle => if arguments.mangle then none else some { arguments with mangle := true }
  | .verbose => if arguments.verbose then none else some { arguments with verbose := true }

/-- Whether an argument is an option rather than a value. -/
def isOption (argument : String) : Bool :=
  match argument.toList with
  | '-' :: _ :: _ => true
  | _ => false

/-- What reading one argument leads to: more arguments are read, perhaps after the value of
an option, or the request is settled. -/
inductive Step where
  | more (arguments : Arguments)
  | needsValue (arguments : Arguments) (option : ValueOption)
  | settled (request : Request)

def Step.ofOption : Option Arguments → Step
  | some arguments => .more arguments
  | none => .settled .invalid

/-- An option with its full name, and a value behind an equals sign. -/
def longStep (arguments : Arguments) (text : List Char) : Step :=
  let name := String.ofList (text.takeWhile (· ≠ '='))
  let value := match text.dropWhile (· ≠ '=') with
    | [] => none
    | _ :: value => some (String.ofList value)
  match Switch.ofLong? name, value with
  | some (.value option), none => .needsValue arguments option
  | some (.value option), some value => .ofOption (arguments.setValue option value)
  | some (.flag flag), none => .ofOption (arguments.setFlag flag)
  | some .help, none => .settled .help
  | some .version, none => .settled .version
  | _, _ => .settled .invalid

/-- Options of one letter each; the first that takes a value takes the rest of the text,
without an equals sign before it. -/
def shortStep (arguments : Arguments) : List Char → Step
  | [] => .more arguments
  | letter :: rest =>
    match Switch.ofShort? letter with
    | some (.value option) =>
      match rest with
      | [] => .needsValue arguments option
      | '=' :: value => .ofOption (arguments.setValue option (String.ofList value))
      | value => .ofOption (arguments.setValue option (String.ofList value))
    | some (.flag flag) =>
      match arguments.setFlag flag with
      | some arguments => shortStep arguments rest
      | none => .settled .invalid
    | some .help => .settled .help
    | some .version => .settled .version
    | none => .settled .invalid

def step (arguments : Arguments) (argument : String) : Step :=
  match argument.toList with
  | '-' :: '-' :: text => longStep arguments text
  | '-' :: letter :: rest => shortStep arguments (letter :: rest)
  | _ => .ofOption (arguments.setInput argument)

/-- Reads arguments that cannot be options. -/
def readInputs (arguments : Arguments) : List String → Request
  | [] => .run arguments
  | argument :: rest =>
    match arguments.setInput argument with
    | some arguments => readInputs arguments rest
    | none => .invalid

/-- Reads arguments after those read before. -/
def read (arguments : Arguments) : List String → Request
  | [] => .run arguments
  | argument :: rest =>
    if argument = "--" then readInputs arguments rest
    else
      match step arguments argument, rest with
      | .settled request, _ => request
      | .more arguments, rest => read arguments rest
      | .needsValue _ _, [] => .invalid
      | .needsValue arguments option, value :: rest =>
        if isOption value then .invalid
        else
          match arguments.setValue option value with
          | some arguments => read arguments rest
          | none => .invalid

def inputPath (arguments : Arguments) : String :=
  arguments.input.getD "main.k"

def outputPath (arguments : Arguments) : String :=
  arguments.output.getD "out.c"

/-- The options of the compilation that is asked for. -/
def options (arguments : Arguments) : Options where
  lint := !arguments.noLint
  listTokens := arguments.tokenFile.isSome
  listTree := arguments.treeFile.isSome
  mangling := if arguments.mangle then .on else .off

end Arguments

/-- What a command line asks for. -/
def Request.ofArguments (arguments : List String) : Request :=
  Arguments.read {} arguments

/-- The answer to `--version`. -/
def versionText : String := "kc 0.0.1\n"

/-- The answer to `--help`. -/
def helpText : String :=
  "Compiles a K module into a C header\n\n" ++
  "Usage: kc [OPTIONS] [INPUT]\n\n" ++
  "Arguments:\n" ++
  "  [INPUT]  The source file to compile [default: main.k]\n\n" ++
  "Options:\n" ++
  "  -o, --output <OUTPUT>     Where to write the generated C [default: out.c]\n" ++
  "      --dump-tokens <FILE>  Write the token stream to FILE\n" ++
  "      --dump-ast <FILE>     Write the syntax tree to FILE\n" ++
  "      --no-lint             Skip the style checks\n" ++
  "      --mangle              Prefix every emitted name with `k_`\n" ++
  "  -v, --verbose             Enable debug logging\n" ++
  "  -h, --help                Print help\n" ++
  "  -V, --version             Print version\n"

end KCompiler
