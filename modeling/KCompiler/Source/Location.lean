/-! # Places in a source text

A place is known by its byte offset and by its line and column, both counted from
one; a column is one character wide. Moving over a character is the only way to
get from one place to the next.
-/

namespace KCompiler

/-- A line and a column. -/
structure Position where
  line : Nat
  column : Nat
  deriving DecidableEq, Repr, Inhabited

namespace Position

/-- The beginning of every text. -/
def start : Position := ⟨1, 1⟩

/-- The order of reading: by line, then by column. -/
protected def le (p q : Position) : Prop :=
  p.line < q.line ∨ p.line = q.line ∧ p.column ≤ q.column

instance : LE Position := ⟨Position.le⟩

instance : DecidableLE Position := fun p q =>
  inferInstanceAs (Decidable (p.line < q.line ∨ p.line = q.line ∧ p.column ≤ q.column))

instance : LT Position := ⟨fun p q => p ≤ q ∧ p ≠ q⟩

instance : DecidableLT Position := fun p q => inferInstanceAs (Decidable (p ≤ q ∧ p ≠ q))

instance : Min Position := minOfLe

instance : Max Position := maxOfLe

/-- The line and the column with a colon between them. -/
def text (p : Position) : String :=
  s!"{p.line}:{p.column}"

/-- The position behind a character. -/
def after (p : Position) (c : Char) : Position :=
  if c = '\n' then ⟨p.line + 1, 1⟩ else ⟨p.line, p.column + 1⟩

end Position

/-- A stretch of source between two positions. -/
structure Span where
  start : Position
  finish : Position
  deriving DecidableEq, Repr, Inhabited

namespace Span

/-- The empty span at a position. -/
def point (p : Position) : Span := ⟨p, p⟩

/-- How many columns to underline: the width on one line, and one column for a span
that is empty, reversed or runs over several lines. -/
def length (span : Span) : Nat :=
  if span.start.line = span.finish.line ∧ span.start.column < span.finish.column then
    span.finish.column - span.start.column
  else 1

/-- The least span that covers both. -/
def join (a b : Span) : Span :=
  ⟨min a.start b.start, max a.finish b.finish⟩

end Span

/-- A stretch of source in bytes, by its beginning and its length. -/
structure ByteRange where
  lo : Nat
  length : Nat
  deriving DecidableEq, Repr, Inhabited

namespace ByteRange

/-- The greatest length a range can record. -/
def maxLength : Nat := UInt32.size - 1

/-- The range between two offsets; a longer one is cut to the greatest length. -/
def ofBounds (lo hi : Nat) : ByteRange :=
  ⟨lo, min (hi - lo) maxLength⟩

/-- The offset where the range ends. -/
def hi (range : ByteRange) : Nat :=
  range.lo + range.length

/-- Both bounds, with two dots between them. -/
def text (range : ByteRange) : String :=
  s!"{range.lo}..{range.hi}"

/-- The bounds and the length, as shown to a developer. -/
def describe (range : ByteRange) : String :=
  s!"Span({range.text}, len: {range.length})"

end ByteRange

/-- A place in a source: how many bytes lie before it, and its line and column. -/
structure Location where
  offset : Nat
  position : Position
  deriving DecidableEq, Repr, Inhabited

namespace Location

/-- The beginning of every source. -/
def start : Location := ⟨0, .start⟩

/-- The place behind a character. -/
def after (place : Location) (c : Char) : Location :=
  ⟨place.offset + c.utf8Size, place.position.after c⟩

/-- The place behind a run of characters. -/
def afterAll (place : Location) (text : List Char) : Location :=
  text.foldl after place

@[simp] theorem afterAll_nil (place : Location) : place.afterAll [] = place := rfl

@[simp] theorem afterAll_cons (place : Location) (c : Char) (text : List Char) :
    place.afterAll (c :: text) = (place.after c).afterAll text := rfl

theorem afterAll_append (place : Location) (first second : List Char) :
    place.afterAll (first ++ second) = (place.afterAll first).afterAll second := by
  simp [afterAll]

end Location
end KCompiler
