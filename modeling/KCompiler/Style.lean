import KCompiler.Diagnostic.Issue
import KCompiler.Token.Basic

/-! # Style of a source

Remarks on tokens that mean nothing to the compiler: parentheses that could go, and
too many blank lines in a row. They are warnings and never stop a compilation.
-/

namespace KCompiler.Style

/-- The closing parenthesis of every opening one, by index, in a list of kinds whose first
has index `start`; also the closing parentheses that the list does not open, nearest first. -/
def matchFrom (start : Nat) : List Kind → List (Option Nat) × List Nat
  | [] => ([], [])
  | kind :: kinds =>
    let (closing, unopened) := matchFrom (start + 1) kinds
    if kind = .punct .lparen then (unopened.head? :: closing, unopened.tail)
    else if kind = .punct .rparen then (none :: closing, start :: unopened)
    else (none :: closing, unopened)

/-- For each token the index of its closing parenthesis, if it is an opening one that is
closed. -/
def matchParens (tokens : List Token) : List (Option Nat) :=
  (matchFrom 0 (tokens.map Token.kind)).1

/-- The kind of the token at an index; behind the last one the input has ended. -/
def kindAt (tokens : List Token) (index : Nat) : Kind :=
  (tokens[index]?.map Token.kind).getD .eof

/-- Kinds that are a whole value on their own. -/
def isAtom : Kind → Bool
  | .integer | .float | .string | .char | .identifier | .keyword .true | .keyword .false => true
  | _ => false

/-- Kinds behind which a parenthesis opens an argument or parameter list. -/
def endsCallee : Kind → Bool
  | .identifier | .punct .rbracket | .builtin _ => true
  | _ => false

/-- Why the parentheses at two indices are not needed, if so. -/
def redundancy? (tokens : List Token) (closing : List (Option Nat)) (opened closed : Nat) :
    Option Redundancy :=
  let before := if opened = 0 then none else some (kindAt tokens (opened - 1))
  if (before = some (.keyword .if) ∨ before = some (.keyword .while)) ∧
      kindAt tokens (closed + 1) = .punct .lbrace then
    some .condition
  else if kindAt tokens (opened + 1) = .punct .lparen ∧
      closing[opened + 1]?.join = some (closed - 1) then
    some .doubled
  else if closed = opened + 2 ∧ isAtom (kindAt tokens (opened + 1)) ∧
      !(before.map endsCallee).getD false then
    some .singleValue
  else none

/-- The span from one token to another. -/
def spanBetween (tokens : List Token) (opened closed : Nat) : Span :=
  (tokens[opened]?.getD default).span.join (tokens[closed]?.getD default).span

/-- Parentheses that could go, by where they open. -/
def redundantParens (tokens : List Token) : List Finding :=
  let closing := matchParens tokens
  closing.zipIdx.filterMap fun (closed?, opened) => do
    let closed ← closed?
    let why ← redundancy? tokens closing opened closed
    return ⟨.redundantParens why, spanBetween tokens opened closed⟩

def isNewline (token : Token) : Bool :=
  token.kind == .newline

/-- Runs of blank lines that are too long. The first newline of a run ends a line that is
not blank, unless the run begins the file. -/
def blankLines (atStart : Bool) : List Token → List Finding
  | [] => []
  | token :: tokens =>
    if isNewline token then
      let blank := if atStart then token :: tokens.takeWhile isNewline else tokens.takeWhile isNewline
      let found := match blank with
        | first :: _ =>
          if maxBlankLines < blank.length then [⟨.blankLines blank.length, first.span⟩] else []
        | [] => []
      found ++ blankLines false (tokens.dropWhile isNewline)
    else blankLines false tokens
termination_by tokens => tokens.length
decreasing_by
  · have hlength := (List.dropWhile_suffix isNewline (l := tokens)).length_le
    simp only [List.length_cons]
    omega
  · simp

/-- All remarks on the style of a source. -/
def check (tokens : List Token) : List Finding :=
  redundantParens tokens ++ blankLines true tokens

end KCompiler.Style
