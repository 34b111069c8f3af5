import KCompiler.Proofs.Lexing.Operators
import KCompiler.Proofs.Printing

/-! # Words of C

How C takes a text of expressions to words: the longest punctuator, names, integer constants by
their radix, and literals with their escapes. Of C only what has a word is read; where a comment
or a floating constant stands, or a punctuator that has no word, nothing is.
-/

namespace KCompiler.C

open Scan

def isBlank (c : Char) : Bool :=
  c ∈ [' ', '\t', '\n', '\r', '\x0b', '\x0c']

/-- Digits of a radix as a number; there has to be one. -/
def natural? (radix : Nat) (digits : List Char) : Option Nat :=
  if digits.isEmpty then none
  else digits.foldlM (fun value c => (Number.digit? radix c).map (value * radix + ·)) 0

/-- An integer constant. A zero before other digits makes it octal. -/
def integer? : List Char → Option Nat
  | '0' :: mark :: digits =>
    if mark ∈ ['x', 'X'] then natural? 16 digits else natural? 8 (mark :: digits)
  | digits => natural? 10 digits

/-- How many characters go on with a number: digits, letters and points, and a sign behind the
letter of an exponent. Not everything that is taken for a number is one. -/
def numberWidth : List Char → Nat
  | [] => 0
  | [c] => if isIdentifierPart c || c = '.' then 1 else 0
  | c :: sign :: rest =>
    if c ∈ ['e', 'E', 'p', 'P'] && sign ∈ ['+', '-'] then numberWidth rest + 2
    else if isIdentifierPart c || c = '.' then numberWidth (sign :: rest) + 1
    else 0

/-- The character that a simple escape stands for. -/
def simpleEscape? : Char → Option Char
  | 'n' => some '\n'
  | 't' => some '\t'
  | 'r' => some '\r'
  | 'b' => some '\x08'
  | 'f' => some '\x0c'
  | 'a' => some '\x07'
  | 'v' => some '\x0b'
  | '\\' => some '\\'
  | '\'' => some '\''
  | '"' => some '"'
  | '?' => some '?'
  | _ => none

/-- What stands behind a backslash: the character, and how many characters write it. Of octal
digits as many are taken as there are, up to three. -/
def escape? (text : List Char) : Option (Char × Nat) :=
  let digits := (text.take 3).takeWhile fun c => (Number.digit? 8 c).isSome
  if digits.isEmpty then text.head?.bind fun mark => (simpleEscape? mark).map (·, 1)
  else (natural? 8 digits).map fun code => (Char.ofNat code, digits.length)

/-- The text behind an opening quote: the content of the literal, and how much of the text it
takes with its closing quote. No literal goes over the end of a line. -/
def quoted? (quote : Char) (text : List Char) : Option (List Char × Nat) :=
  match text with
  | [] => none
  | c :: rest =>
    if c = quote then some ([], 1)
    else if c = '\n' then none
    else if c = '\\' then
      (escape? rest).bind fun (value, width) =>
        (quoted? quote (rest.drop width)).map fun (content, taken) =>
          (value :: content, taken + width + 1)
    else (quoted? quote rest).map fun (content, taken) => (c :: content, taken + 1)
termination_by text.length
decreasing_by all_goals simp only [List.length_cons, List.length_drop]; omega

/-- A literal between quotes that has one character. -/
def char? (text : List Char) : Option (Char × Nat) :=
  match quoted? '\'' text with
  | some ([c], width) => some (c, width)
  | _ => none

/-- The punctuators that have no word. Those of two characters begin no longer operator, so that
the longest punctuator is found by looking for them first. -/
def foreign : List String :=
  ["%:%:", "...", "->", "##", "<:", ":>", "<%", "%>", "%:", "?", "#"]

/-- The longest punctuator that a text begins with, and how many characters follow its first. -/
def punctuator? (first : Char) (rest : List Char) : Option (Word × Nat) :=
  if foreign.any fun symbol => symbol.toList.isPrefixOf (first :: rest) then none
  else
    match operator? (first :: rest) with
    | some operator => some (.op operator, operator.symbol.length - 1)
    | none => (punct? first).map (.punct ·, 0)

/-- A name. What a quote stands behind is the prefix of a literal in another encoding. Names have
the characters that the language gives them, and no word is reserved. -/
def name? (first : Char) (rest : List Char) : Option (Word × Nat) :=
  let width := runLength isIdentifierPart rest
  if (rest.drop width).head? ∈ [some '"', some '\''] then none
  else some (.name (String.ofList (first :: rest.take width)), width)

/-- The word that a first character begins, and how many characters behind it belong to it. -/
def word? (first : Char) (rest : List Char) : Option (Word × Nat) :=
  if isIdentifierStart first then name? first rest
  else if first.isDigit then
    let width := numberWidth rest
    (integer? (first :: rest.take width)).map fun (value : Nat) => (.literal (.int value), width)
  else if first = '"' then
    (quoted? '"' rest).map fun (content, width) =>
      (.literal (.string (String.ofList content)), width)
  else if first = '\'' then
    (char? rest).map fun (value, width) => (.literal (.char value), width)
  else if first = '/' && rest.head? ∈ [some '/', some '*'] then none
  else if first = '.' && rest.head?.any Char.isDigit then none
  else punctuator? first rest

/-- The words of a text, if it has nothing else. -/
def words? (text : List Char) : Option (List Word) :=
  match text with
  | [] => some []
  | first :: rest =>
    if isBlank first then words? rest
    else
      (word? first rest).bind fun (word, width) => (words? (rest.drop width)).map (word :: ·)
termination_by text.length
decreasing_by all_goals simp only [List.length_cons, List.length_drop]; omega

end KCompiler.C
