/-! # Ranges of code points

A class of characters outside ASCII is given as a list of inclusive ranges in
increasing order.
-/

namespace KCompiler.Text

/-- Whether one of the inclusive ranges holds the code point. -/
def inRanges (ranges : List (Nat × Nat)) (code : Nat) : Bool :=
  ranges.any fun range => range.1 ≤ code && code ≤ range.2

end KCompiler.Text
