import KCompiler.Source.Location

/-! # Reading a source character by character

A cursor stands at a place of a source and sees the characters from there on. The
null character stands for the end of the text: a cursor neither passes one nor
tells it from the end, but it can look beyond it.
-/

namespace KCompiler

/-- A place in a source, with the characters that follow it. -/
structure Cursor where
  location : Location
  rest : List Char
  deriving DecidableEq, Repr

namespace Cursor

/-- What a cursor sees where there is nothing to see. -/
def sentinel : Char := '\x00'

/-- A cursor at the beginning of a text. -/
def ofText (text : String) : Cursor :=
  ⟨.start, text.toList⟩

/-- The character a number of places ahead. -/
def peek (cursor : Cursor) (ahead : Nat) : Char :=
  cursor.rest.getD ahead sentinel

/-- The character at the cursor. -/
def current (cursor : Cursor) : Char :=
  cursor.peek 0

def atEnd (cursor : Cursor) : Bool :=
  cursor.current == sentinel

/-- The cursor behind the current character; at the end it stays. -/
def next (cursor : Cursor) : Cursor :=
  match cursor.rest with
  | [] => cursor
  | c :: rest => if c = sentinel then cursor else ⟨cursor.location.after c, rest⟩

/-- Takes the current character. -/
def advance (cursor : Cursor) : Char × Cursor :=
  (cursor.current, cursor.next)

/-- Takes the current character if it is the wanted one. -/
def eat (cursor : Cursor) (wanted : Char) : Bool × Cursor :=
  if cursor.current = wanted ∧ cursor.atEnd = false then (true, cursor.next) else (false, cursor)

end Cursor
end KCompiler
