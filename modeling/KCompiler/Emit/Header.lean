import KCompiler.Emit.Statement
import KCompiler.Text.Upper

/-! # C text of modules

A module becomes a C header: a guard around a fixed prelude and one line for every
statement.
-/

namespace KCompiler

/-- The lines that every header begins with, inside its guard. -/
def preludeLines (mangling : Mangling) : List String :=
  ["#include <stdint.h>",
    "#define " ++ mangling.apply "TRUE" ++ " 1",
    "#define " ++ mangling.apply "FALSE" ++ " 0",
    "#define " ++ mangling.apply "UNIT" ++ " ((void)0)"] ++
  Builtin.all.map (fun type =>
    "typedef " ++ type.cType ++ " " ++ mangling.apply ("K" ++ type.symbol) ++ ";") ++
  ["#define " ++ mangling.apply "IMMUT" ++ " const",
    "#ifdef __GNUC__",
    "#define " ++ mangling.apply "MUT" ++ " __attribute__((unused))",
    "#else",
    "#define " ++ mangling.apply "MUT",
    "#endif"]

/-- Lines as a text, every one ended. -/
def endLines (lines : List String) : String :=
  String.join (lines.map (· ++ "\n"))

def preludeText (mangling : Mangling) : String :=
  endLines (preludeLines mangling)

/-- The name that guards a header against being included twice. -/
def Module.guard (mangling : Mangling) (program : Module) : String :=
  mangling.apply ("K_" ++ Text.upper program.name ++ "_H")

/-- The C header of a module. -/
def Module.emit (mangling : Mangling) (program : Module) : Except Obstacle String := do
  let guard := program.guard mangling
  let body ← program.statements.mapM (Stmt.emit mangling)
  return endLines ["#ifndef " ++ guard, "#define " ++ guard] ++ preludeText mangling ++
    endLines body ++ "#endif\n"

end KCompiler
