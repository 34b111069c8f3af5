import KCompiler.Diagnostic.Collector
import KCompiler.Text.Layout

/-! # Diagnostics as text

A diagnostic is shown with the line of the source it points to, if there is one, and
with its span underlined; the short form is a single line.
-/

namespace KCompiler

/-- A source with the name of its file. -/
structure SourceFile where
  name : String
  text : String

/-- A line of the source, counted from one. -/
def SourceFile.line? (file : SourceFile) (number : Nat) : Option String :=
  Text.line? file.text number

namespace Diagnostic

/-- Level, code and message. -/
def header (diagnostic : Diagnostic) : String :=
  let code := match diagnostic.code with
    | some code => "[" ++ code ++ "]"
    | none => ""
  diagnostic.level.text ++ code ++ ": " ++ diagnostic.message

/-- Where a diagnostic points, with the name of the file. -/
def place (diagnostic : Diagnostic) (file : SourceFile) : String :=
  file.name ++ ":" ++ diagnostic.position.text

/-- The short form. -/
def short (diagnostic : Diagnostic) (file : SourceFile) : String :=
  diagnostic.place file ++ ": " ++ diagnostic.header

/-- The lines of the long form. -/
def renderLines (diagnostic : Diagnostic) (file : SourceFile) : List String :=
  let number := toString diagnostic.position.line
  let gutter := Text.blanks number.length
  let excerpt := match file.line? diagnostic.position.line with
    | some line =>
      [gutter ++ " |",
        number ++ " | " ++ line,
        gutter ++ " | " ++ Text.blanks (diagnostic.position.column - 1) ++
          String.ofList (List.replicate diagnostic.span.length '^')]
    | none => []
  [diagnostic.header, gutter ++ "--> " ++ diagnostic.place file] ++ excerpt ++
    diagnostic.hint.toList.map (gutter ++ " = hint: " ++ ·) ++
    diagnostic.notes.map (gutter ++ " = note: " ++ ·)

/-- The long form, every line ended. -/
def render (diagnostic : Diagnostic) (file : SourceFile) : String :=
  String.join ((diagnostic.renderLines file).map (· ++ "\n"))

end Diagnostic

namespace Diagnostics

/-- All diagnostics in the long form, with a blank line between them. -/
def render (diagnostics : Diagnostics) (file : SourceFile) : String :=
  "\n".intercalate (diagnostics.entries.toList.map (·.render file))

/-- All diagnostics in the short form. -/
def short (diagnostics : Diagnostics) (file : SourceFile) : List String :=
  diagnostics.entries.toList.map (·.short file)

/-- A number of things, in the plural unless there is one. -/
def countText (count : Nat) (what : String) : String :=
  if count = 1 then "1 " ++ what else toString count ++ " " ++ what ++ "s"

/-- How a compilation went, in one line. -/
def summary (diagnostics : Diagnostics) : String :=
  match diagnostics.count .error, diagnostics.count .warning with
  | 0, 0 => "compilation finished without diagnostics"
  | 0, warnings => "compilation finished with " ++ countText warnings "warning"
  | errors, 0 => "error: compilation failed with " ++ countText errors "error"
  | errors, warnings =>
    "error: compilation failed with " ++ countText errors "error" ++ " and " ++
      countText warnings "warning"

end Diagnostics
end KCompiler
