import KCompiler.Number.Decimal
import KCompiler.Number.Integer
import KCompiler.Token.Lexeme

/-! # Values of literals

What the text of a literal token stands for.
-/

namespace KCompiler

/-- The value of an integer literal; a radix may stand before its digits. -/
def integerValue (text : String) : Except Number.IntegerError Int :=
  match text.toList with
  | '0' :: mark :: digits =>
    match Scan.radix? mark with
    | some radix => Number.readInteger radix.base digits
    | none => Number.readInteger 10 text.toList
  | digits => Number.readInteger 10 digits

/-- The value of a floating-point literal. -/
def floatValue (text : String) : Except Number.DecimalError Number.Binary64 :=
  Number.readDouble text.toList

/-- The value of a character literal; an empty one stands for the null character. -/
def charValue (text : String) : Char :=
  text.toList.headD '\x00'

end KCompiler
