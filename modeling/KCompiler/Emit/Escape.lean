/-! # Literals in C

Strings and characters are written with C's escapes. A control character without a short
escape is written by three octal digits, so that a digit behind it is not taken for a part
of the escape.
-/

namespace KCompiler

/-- A code point by three octal digits behind a backslash. -/
def octalEscape (code : Nat) : List Char :=
  ['\\', Nat.digitChar (code / 64 % 8), Nat.digitChar (code / 8 % 8), Nat.digitChar (code % 8)]

/-- How a character is written in a literal between two `quote` characters. -/
def escapeChar (quote : Char) (c : Char) : List Char :=
  if c = '\n' then ['\\', 'n']
  else if c = '\t' then ['\\', 't']
  else if c = '\r' then ['\\', 'r']
  else if c = '\x08' then ['\\', 'b']
  else if c = '\x0c' then ['\\', 'f']
  else if c = '\\' then ['\\', '\\']
  else if c = '\x00' then ['\\', '0']
  else if c = quote then ['\\', c]
  else if c.toNat < 0x20 ∨ c.toNat = 0x7f then octalEscape c.toNat
  else [c]

/-- The characters with a short escape, each with the mark behind its backslash. -/
def shortEscapes : List (Char × Char) :=
  [('\n', 'n'), ('\t', 't'), ('\r', 'r'), ('\x08', 'b'), ('\x0c', 'f'), ('\\', '\\')]

/-- The forms in which a character of a literal is written. -/
inductive Escaped (quote c : Char) : List Char → Prop where
  | short {mark : Char} (hmark : (c, mark) ∈ shortEscapes) : Escaped quote c ['\\', mark]
  | null (hnull : c = '\x00') : Escaped quote c ['\\', '0']
  | quote (hquote : c = quote) : Escaped quote c ['\\', c]
  | octal (hlong : c ∉ shortEscapes.map Prod.fst) (hcontrol : c.toNat < 0x20 ∨ c.toNat = 0x7f) :
      Escaped quote c (octalEscape c.toNat)
  | plain (hlong : c ∉ shortEscapes.map Prod.fst) (hquote : c ≠ quote)
      (hprintable : ¬(c.toNat < 0x20 ∨ c.toNat = 0x7f)) : Escaped quote c [c]

theorem escaped_escapeChar (quote c : Char) : Escaped quote c (escapeChar quote c) := by
  fun_cases escapeChar quote c with
  | case1 | case2 | case3 | case4 | case5 | case6 => exact .short (by subst_vars; decide)
  | case7 _ _ _ _ _ _ hnull => exact .null hnull
  | case8 _ _ _ _ _ _ _ hquote => exact .quote hquote
  | case9 hn ht hr hb hf hslash _ _ hcontrol =>
      exact .octal (by simp [shortEscapes, hn, ht, hr, hb, hf, hslash]) hcontrol
  | case10 hn ht hr hb hf hslash _ hquote hprintable =>
      exact .plain (by simp [shortEscapes, hn, ht, hr, hb, hf, hslash]) hquote hprintable

/-- The inside of a literal. -/
def escapeText (quote : Char) (text : List Char) : List Char :=
  text.flatMap (escapeChar quote)

/-- A C string. -/
def stringText (value : String) : String :=
  "\"" ++ String.ofList (escapeText '"' value.toList) ++ "\""

/-- A C character. -/
def charText (value : Char) : String :=
  "'" ++ String.ofList (escapeText '\'' [value]) ++ "'"

end KCompiler
