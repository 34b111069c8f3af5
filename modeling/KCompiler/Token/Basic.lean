import KCompiler.Source.Location
import KCompiler.Text.Layout
import KCompiler.Text.Quoted
import KCompiler.Token.Kind

/-! # Tokens

A token is a kind with a text, and where it stands. The text is what the source
spells, except for string and character literals, whose text is their content.
-/

namespace KCompiler

/-- A token of the source. -/
structure Token where
  kind : Kind
  text : String
  bytes : ByteRange
  span : Span
  deriving DecidableEq, Repr

namespace Token

/-- The token that ends an input at a place. -/
def endOfInput (offset : Nat) (position : Position) : Token :=
  ⟨.eof, "", ⟨offset, 0⟩, .point position⟩

instance : Inhabited Token := ⟨endOfInput 0 .start⟩

/-- A token as shown to a developer. -/
def describe (token : Token) : String :=
  "Token(" ++ token.kind.name ++ ", " ++ Text.quoted token.text ++ ", " ++ token.bytes.text ++
    ", " ++ token.span.start.text ++ ")"

/-- One line of a token listing: place, kind and text in columns. -/
def listingLine (token : Token) : String :=
  Text.padRight 8 token.span.start.text ++ " " ++ Text.padRight 12 token.kind.name ++ " " ++
    Text.quoted token.text ++ "\n"

/-- A listing of tokens, one a line. -/
def listing (tokens : List Token) : String :=
  String.join (tokens.map listingLine)

end Token
end KCompiler
