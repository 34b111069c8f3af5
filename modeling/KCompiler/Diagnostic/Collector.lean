import KCompiler.Diagnostic.Basic

/-! # Collected diagnostics

Diagnostics are kept in the order of their reports. Of the errors only the first few are
kept and counted; a flag remembers that there was one, until the collector is reset.
-/

namespace KCompiler

/-- How many errors are kept. -/
def maxErrors : Nat := 10

/-- The diagnostics of one compilation. -/
structure Diagnostics where
  entries : Array Diagnostic := #[]
  /-- How many errors have been kept. -/
  errorCount : Nat := 0
  /-- Whether an error has been reported, be it kept or dropped. -/
  hasErrors : Bool := false
  deriving DecidableEq, Repr

namespace Diagnostics

def empty : Diagnostics := {}

instance : Inhabited Diagnostics := ⟨empty⟩

/-- How many diagnostics of a level are kept. -/
def count (diagnostics : Diagnostics) (level : Level) : Nat :=
  diagnostics.entries.countP (·.level == level)

def size (diagnostics : Diagnostics) : Nat :=
  diagnostics.entries.size

def isEmpty (diagnostics : Diagnostics) : Bool :=
  diagnostics.entries.isEmpty

/-- Keeps a diagnostic, unless it is one error too many. -/
def report (diagnostics : Diagnostics) (diagnostic : Diagnostic) : Diagnostics :=
  if diagnostic.isError then
    if maxErrors ≤ diagnostics.errorCount then { diagnostics with hasErrors := true }
    else
      { entries := diagnostics.entries.push diagnostic
        errorCount := diagnostics.errorCount + 1
        hasErrors := true }
  else { diagnostics with entries := diagnostics.entries.push diagnostic }

/-- Forgets everything that has been reported, the flag included. -/
def reset (diagnostics : Diagnostics) : Diagnostics :=
  { diagnostics with entries := #[], errorCount := 0, hasErrors := false }

/-- Reports diagnostics one after the other. -/
def reportAll (diagnostics : Diagnostics) (reports : List Diagnostic) : Diagnostics :=
  reports.foldl report diagnostics

@[simp] theorem reportAll_nil (diagnostics : Diagnostics) : diagnostics.reportAll [] = diagnostics :=
  rfl

@[simp] theorem reportAll_cons (diagnostics : Diagnostics) (first : Diagnostic)
    (reports : List Diagnostic) :
    diagnostics.reportAll (first :: reports) = (diagnostics.report first).reportAll reports := rfl

theorem reportAll_append (diagnostics : Diagnostics) (first second : List Diagnostic) :
    diagnostics.reportAll (first ++ second) = (diagnostics.reportAll first).reportAll second := by
  simp [reportAll]

end Diagnostics
end KCompiler
