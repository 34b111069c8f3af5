import KCompiler.Diagnostic.Issue
import KCompiler.Text.Numeral
import KCompiler.Token.Kind

/-! # Pieces of a source

A source falls into pieces, one behind the other: tokens and layout between them.
Each rule below looks at a first character and what follows it, and says how many of
the following characters belong to the piece. Rules take as much as they can.
-/

namespace KCompiler

/-- What a rule makes of a first character: how many of the characters behind it belong to
the piece, the token if it is one, and an issue if it is broken. -/
structure Scan where
  width : Nat
  token : Option (Kind × List Char) := none
  issue : Option Issue := none

namespace Operator

/-- The operator that a character is. -/
def ofChar? : Char → Option Operator
  | '+' => some .plus
  | '-' => some .minus
  | '*' => some .star
  | '/' => some .slash
  | '%' => some .percent
  | '=' => some .assign
  | '!' => some .bang
  | '<' => some .less
  | '>' => some .greater
  | '&' => some .amp
  | '|' => some .pipe
  | '^' => some .caret
  | '~' => some .tilde
  | _ => none

/-- The operator that one more character makes of an operator. -/
def longer? : Operator → Char → Option Operator
  | .plus, '+' => some .plusPlus
  | .plus, '=' => some .plusEq
  | .minus, '-' => some .minusMinus
  | .minus, '=' => some .minusEq
  | .star, '=' => some .starEq
  | .slash, '=' => some .slashEq
  | .percent, '=' => some .percentEq
  | .assign, '=' => some .eqEq
  | .bang, '=' => some .bangEq
  | .less, '=' => some .lessEq
  | .less, '<' => some .shl
  | .shl, '=' => some .shlEq
  | .greater, '=' => some .greaterEq
  | .greater, '>' => some .shr
  | .shr, '=' => some .shrEq
  | .amp, '&' => some .ampAmp
  | .amp, '=' => some .ampEq
  | .pipe, '|' => some .pipePipe
  | .pipe, '=' => some .pipeEq
  | .caret, '=' => some .caretEq
  | _, _ => none

/-- The operator that is read once its beginning has been: the next character is taken as long
as it makes another operator. -/
def extend (operator : Operator) : List Char → Operator
  | [] => operator
  | c :: rest =>
    match operator.longer? c with
    | some longer => longer.extend rest
    | none => operator

end Operator

namespace Scan

/-- How many characters at the beginning of a text satisfy a test. -/
def runLength (test : Char → Bool) (text : List Char) : Nat :=
  (text.takeWhile test).length

/-- A token that takes `width` characters behind the first and is spelt by all of them. -/
def spelled (kind : Kind) (first : Char) (rest : List Char) (width : Nat) : Scan where
  width := width
  token := some (kind, first :: rest.take width)

def isIdentifierStart (c : Char) : Bool :=
  Text.isLetter c || c == '_' || c == '@'

def isIdentifierPart (c : Char) : Bool :=
  Text.isLetterOrNumeral c || c == '_' || c == '@'

/-- A word: a keyword, a builtin type or an identifier. -/
def word (first : Char) (rest : List Char) : Scan :=
  let width := runLength isIdentifierPart rest
  let kind := (Kind.ofWord? (String.ofList (first :: rest.take width))).getD .identifier
  spelled kind first rest width

/-- The radix that a letter behind a zero names. -/
def radix? : Char → Option Radix
  | 'x' | 'X' => some .hexadecimal
  | 'b' | 'B' => some .binary
  | _ => none

def isRadixDigit : Radix → Char → Bool
  | .hexadecimal, c => c.isDigit || ('a' ≤ c && c ≤ 'f') || ('A' ≤ c && c ≤ 'F')
  | .binary, c => c == '0' || c == '1'

/-- A number: digits after a radix, or decimal digits with at most one point. -/
def number (first : Char) (rest : List Char) : Scan :=
  let radix := if first = '0' then rest.head?.bind radix? else none
  match radix with
  | some radix =>
    let digits := runLength (isRadixDigit radix) rest.tail
    { spelled .integer first rest (digits + 1) with
      issue := if digits = 0 then some (.missingDigits radix) else none }
  | none =>
    let whole := runLength Char.isDigit rest
    match rest.drop whole with
    | '.' :: fraction => spelled .float first rest (whole + 1 + runLength Char.isDigit fraction)
    | _ => spelled .integer first rest whole

/-- The character that an escape stands for; unknown escapes stand for themselves. -/
def unescape : Char → Char
  | 'n' => '\n'
  | 't' => '\t'
  | 'r' => '\r'
  | 'b' => '\x08'
  | 'f' => '\x0c'
  | c => c

/-- The text behind an opening double quote: how much of it the literal takes, and its
content. A literal that is not closed takes everything. -/
def stringBody : List Char → Nat × List Char
  | [] => (0, [])
  | '"' :: _ => (1, [])
  | ['\\'] => (1, [])
  | '\\' :: c :: rest =>
    let (width, content) := stringBody rest
    (width + 2, unescape c :: content)
  | c :: rest =>
    let (width, content) := stringBody rest
    (width + 1, c :: content)

def stringLiteral (rest : List Char) : Scan :=
  let (width, content) := stringBody rest
  { width, token := some (.string, content) }

/-- The end of a character literal, `taken` characters behind its opening quote. Up to a
closing quote on the same line, superfluous characters belong to the literal. -/
def charEnd (taken : Nat) (content : List Char) (rest : List Char) : Scan :=
  let token := some (Kind.char, content)
  match rest with
  | [] => { width := taken, token, issue := some .openChar }
  | '\'' :: _ => { width := taken + 1, token }
  | found :: _ =>
    let extra := runLength (fun c => c ≠ '\'' && c ≠ '\n') rest
    let quote := if (rest.drop extra).head? = some '\'' then 1 else 0
    { width := taken + extra + quote, token, issue := some (.unclosedChar found) }

def charLiteral : List Char → Scan
  | [] => charEnd 0 [] []
  | '\'' :: _ => { width := 1, token := some (.char, []), issue := some .emptyChar }
  | ['\\'] => charEnd 1 [] []
  | '\\' :: c :: rest => charEnd 2 [unescape c] rest
  | c :: rest => charEnd 1 [c] rest

/-- How many characters there are up to and with the first `*/`. -/
def commentEnd? : List Char → Option Nat
  | [] => none
  | '*' :: '/' :: _ => some 2
  | _ :: rest => (commentEnd? rest).map (· + 1)

/-- A block comment, from the star of its opening on. -/
def blockComment (rest : List Char) : Scan :=
  match commentEnd? rest.tail with
  | some width => { width := width + 1 }
  | none => { width := rest.length, issue := some .openComment }

/-- A comment to the end of the line. -/
def lineComment (rest : List Char) : Scan :=
  { width := runLength (· ≠ '\n') rest }

/-- The punctuation mark that a character is. -/
def punct? (c : Char) : Option Punct :=
  Punct.all.find? (·.char = c)

/-- A mark, an operator, a word, or a character that belongs to nothing. -/
def symbol (first : Char) (rest : List Char) : Scan :=
  match punct? first, Operator.ofChar? first with
  | some mark, _ => spelled (.punct mark) first rest 0
  | none, some single =>
    let operator := single.extend rest
    spelled (.op operator) first rest (operator.symbol.length - 1)
  | none, none => if isIdentifierStart first then word first rest else { width := 0 }

/-- The piece that a first character begins. -/
def piece (first : Char) (rest : List Char) : Scan :=
  match first, rest with
  | '\n', _ => spelled .newline first rest 0
  | '/', '/' :: _ => lineComment rest
  | '/', '*' :: _ => blockComment rest
  | '"', _ => stringLiteral rest
  | '\'', _ => charLiteral rest
  | _, _ => if first.isDigit then number first rest else symbol first rest

end Scan

/-- A piece of a source: its characters, the token if it is one, and what is wrong with it. -/
structure Piece where
  lexeme : List Char
  token : Option (Kind × List Char)
  issue : Option Issue

/-- The pieces of a text, in order. -/
def pieces : List Char → List Piece
  | [] => []
  | first :: rest =>
    let scan := Scan.piece first rest
    ⟨first :: rest.take scan.width, scan.token, scan.issue⟩ :: pieces (rest.drop scan.width)
termination_by text => text.length
decreasing_by simp only [List.length_drop, List.length_cons]; omega

/-- Nothing of a text is lost or added by taking it to pieces. -/
theorem pieces_flatMap_lexeme (text : List Char) : (pieces text).flatMap Piece.lexeme = text := by
  fun_induction pieces text with
  | case1 => rfl
  | case2 first rest scan ih => simp [ih]

end KCompiler
