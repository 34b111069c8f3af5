import KCompiler.Text.Unseen

/-! # Quoted text

A text or a character between quotes, written so that every character of it can
be seen: the quote, the backslash and the usual controls have short escapes, and
every other character that does not show on its own is given by its code point.
-/

namespace KCompiler.Text

/-- The code point of a character between `\u{` and `}`, in lower-case digits. -/
def escapeCode (c : Char) : List Char :=
  ['\\', 'u', '{'] ++ Nat.toDigits 16 c.toNat ++ ['}']

/-- How a character is written between two `quote` characters. -/
def escapeShown (quote : Char) (c : Char) : List Char :=
  if c = '\x00' then ['\\', '0']
  else if c = '\t' then ['\\', 't']
  else if c = '\r' then ['\\', 'r']
  else if c = '\n' then ['\\', 'n']
  else if c = quote || c = '\\' then ['\\', c]
  else if isUnseen c then escapeCode c
  else [c]

/-- A text between double quotes. -/
def quoted (text : String) : String :=
  String.ofList (['"'] ++ text.toList.flatMap (escapeShown '"') ++ ['"'])

/-- A character between single quotes. -/
def quotedChar (c : Char) : String :=
  String.ofList (['\''] ++ escapeShown '\'' c ++ ['\''])

end KCompiler.Text
