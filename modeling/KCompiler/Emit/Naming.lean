import KCompiler.Token.Kind

/-! # Names in C

Names are written as they are, or all with the same mark before them. Every builtin type
has a C type.
-/

namespace KCompiler

/-- Whether emitted names are marked. -/
inductive Mangling where
  | off
  | on
  deriving DecidableEq, Repr

namespace Mangling

/-- What stands before a marked name. -/
def mark : String := "k_"

def apply : Mangling → String → String
  | .off, name => name
  | .on, name => mark ++ name

end Mangling

/-- The C type of a builtin type. -/
def Builtin.cType : Builtin → String
  | .int => "int32_t"
  | .float => "float"
  | .double => "double"
  | .byte => "int8_t"
  | .short => "int16_t"
  | .long => "int64_t"
  | .bool => "uint8_t"
  | .ubyte => "uint8_t"
  | .uint => "uint32_t"
  | .ulong => "uint64_t"
  | .unit => "void"

/-- The C type of a builtin type, by its name. -/
def builtinCType? (name : String) : Option String :=
  (Builtin.all.find? (·.symbol = name)).map Builtin.cType

end KCompiler
