/-! # Log events and filters

What the compiler logs while it works, and which of it is shown. A filter is a list of
directives: a level for everything, or for the components whose name begins with a target.
-/

namespace KCompiler

/-- How detailed a log event is, from `error` to `trace`. -/
inductive LogLevel where
  | error
  | warn
  | info
  | debug
  | trace
  deriving DecidableEq, Repr

namespace LogLevel

def text : LogLevel → String
  | .error => "ERROR"
  | .warn => "WARN"
  | .info => "INFO"
  | .debug => "DEBUG"
  | .trace => "TRACE"

/-- How much detail a level stands for, from one on. -/
def detail : LogLevel → Nat
  | .error => 1
  | .warn => 2
  | .info => 3
  | .debug => 4
  | .trace => 5

end LogLevel

/-- The part of the compiler that logs. -/
inductive Component where
  | command
  | driver
  | emitter
  deriving DecidableEq, Repr

/-- The name by which a filter knows a component. -/
def Component.target : Component → String
  | .command => "kc"
  | .driver => "kc::driver"
  | .emitter => "kc::transpiler"

/-- A log event: who logs what, in how much detail, and during which step. Steps belong to
the driver and count as information. -/
structure LogEvent where
  level : LogLevel
  component : Component
  step : Option String := none
  message : String
  deriving DecidableEq, Repr

/-- A directive of a filter: the most detail shown of a target, and of everything if there
is none. Nothing is shown at zero. -/
structure LogDirective where
  target : Option String
  detail : Nat
  deriving DecidableEq, Repr

namespace LogDirective

/-- The names and numbers of levels, whatever the case of their letters. -/
def detail? (word : String) : Option Nat :=
  [("off", 0), ("error", 1), ("warn", 2), ("info", 3), ("debug", 4), ("trace", 5),
    ("0", 0), ("1", 1), ("2", 2), ("3", 3), ("4", 4), ("5", 5)].lookup (word.map Char.toLower)

def isTargetChar (c : Char) : Bool :=
  c.isAlphanum || c == '_' || c == '-' || c == ':'

def isBlank (c : Char) : Bool :=
  c == ' ' || c == '\t' || c == '\n' || c == '\r'

/-- A directive from its text: a level, a target, or a target with a level behind an equals
sign. A target on its own shows everything. -/
def parse? (text : List Char) : Option LogDirective :=
  let target := text.takeWhile (· ≠ '=')
  let isTarget := !target.isEmpty && target.all isTargetChar
  match text.dropWhile (· ≠ '=') with
  | [] =>
    match detail? (String.ofList target) with
    | some detail => some ⟨none, detail⟩
    | none => if isTarget then some ⟨some (String.ofList target), 5⟩ else none
  | _ :: level =>
    if !isTarget then none
    else if level.isEmpty then some ⟨some (String.ofList target), 5⟩
    else (detail? (String.ofList level)).map (⟨some (String.ofList target), ·⟩)

def applies (directive : LogDirective) (target : String) : Bool :=
  match directive.target with
  | none => true
  | some start => start.toList.isPrefixOf target.toList

/-- How specific a directive is. -/
def weight (directive : LogDirective) : Nat :=
  directive.target.elim 0 (·.length + 1)

end LogDirective

/-- The directives that decide what is shown. -/
structure LogFilter where
  directives : List LogDirective
  deriving DecidableEq, Repr

namespace LogFilter

/-- Cuts a text at its commas. -/
def splitCommas : List Char → List (List Char)
  | [] => [[]]
  | c :: rest =>
    match splitCommas rest with
    | [] => [[c]]
    | first :: more => if c = ',' then [] :: first :: more else (c :: first) :: more

def trim (text : List Char) : List Char :=
  ((text.dropWhile LogDirective.isBlank).reverse.dropWhile LogDirective.isBlank).reverse

/-- A filter from its text: directives with commas between them. Without any, only errors are
shown. -/
def parse? (text : String) : Option LogFilter :=
  let parts := ((splitCommas text.toList).filter (!·.isEmpty)).map trim
  (parts.mapM LogDirective.parse?).map fun directives =>
    ⟨if directives.isEmpty then [⟨none, 1⟩] else directives⟩

/-- The most detail shown of a target: the most specific directive decides, and of equally
specific ones the last. -/
def detail (filter : LogFilter) (target : String) : Nat :=
  let applying := filter.directives.filter (·.applies target)
  (applying.foldl
    (fun (best : Nat × Nat) directive =>
      if best.1 ≤ directive.weight then (directive.weight, directive.detail) else best)
    (0, 0)).2

def shows (filter : LogFilter) (component : Component) (level : LogLevel) : Bool :=
  level.detail ≤ filter.detail component.target

/-- The line of an event, if the filter shows it. The step is shown like other information. -/
def line? (filter : LogFilter) (event : LogEvent) : Option String :=
  if filter.shows event.component event.level then
    let step := if filter.shows .driver .info then event.step.elim "" (· ++ ": ") else ""
    some (event.level.text ++ " " ++ step ++ event.message)
  else none

/-- What is shown if nothing else is asked for: the information, and the debugging detail of
a verbose run. -/
def standard (verbose : Bool) : LogFilter :=
  ⟨[⟨some Component.command.target, if verbose then 4 else 3⟩]⟩

/-- The filter that a text asks for, if it can be read, and the standard one otherwise. -/
def choose (request : Option String) (verbose : Bool) : LogFilter :=
  (request.bind parse?).getD (standard verbose)

end LogFilter
end KCompiler
