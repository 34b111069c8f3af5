import KCompiler.Source.Location

/-! # Diagnostics

What the compiler has to say about a place of the source.
-/

namespace KCompiler

/-- How grave a diagnostic is. Only errors stop a compilation. -/
inductive Level where
  | error
  | warning
  | info
  | hint
  deriving DecidableEq, Repr

namespace Level

def all : List Level := [.error, .warning, .info, .hint]

def text : Level → String
  | .error => "error"
  | .warning => "warning"
  | .info => "info"
  | .hint => "hint"

end Level

/-- A message about a span of the source, with an optional code and hint. -/
structure Diagnostic where
  level : Level
  message : String
  span : Span
  hint : Option String := none
  code : Option String := none
  notes : List String := []
  deriving DecidableEq, Repr

namespace Diagnostic

def isError (diagnostic : Diagnostic) : Bool :=
  diagnostic.level == .error

/-- Where a diagnostic points. -/
def position (diagnostic : Diagnostic) : Position :=
  diagnostic.span.start

end Diagnostic
end KCompiler
