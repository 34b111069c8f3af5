/-! # Lines and columns of text

Splitting a text into its lines, and the blanks that align columns.
-/

namespace KCompiler.Text

/-- Drops one carriage return from the end of a line. -/
def dropReturn (line : List Char) : List Char :=
  if line.getLast? = some '\r' then line.dropLast else line

/-- The lines of a text. A newline ends a line and takes a carriage return right
before it along; nothing follows a newline that ends the text. -/
def lines : List Char → List (List Char)
  | [] => []
  | c :: cs =>
    let rest := (c :: cs).dropWhile (· ≠ '\n')
    if rest.isEmpty then [c :: cs]
    else dropReturn ((c :: cs).takeWhile (· ≠ '\n')) :: lines rest.tail
termination_by text => text.length
decreasing_by
  have hlength := (List.dropWhile_suffix (fun x => decide (x ≠ '\n')) (l := c :: cs)).length_le
  simp only [List.length_tail, List.length_cons] at hlength ⊢
  omega

/-- The line with a number counted from one. -/
def line? (text : String) (number : Nat) : Option String :=
  match number with
  | 0 => none
  | index + 1 => (lines text.toList)[index]?.map String.ofList

def blanks (count : Nat) : String :=
  String.ofList (List.replicate count ' ')

/-- Fills a text with blanks on the right up to a width. -/
def padRight (width : Nat) (text : String) : String :=
  text ++ blanks (width - text.length)

end KCompiler.Text
