import KCompiler.Diagnostic.Basic
import KCompiler.Text.Quoted
import KCompiler.Token.Kind
import KCompiler.Tree.Modifier

/-! # Issues of a source

Everything that can be wrong with a source, or worth a remark, by its cause. Level,
code, wording and hint of the diagnostic follow from the cause.
-/

namespace KCompiler

/-- A radix that a number literal can name. -/
inductive Radix where
  | hexadecimal
  | binary
  deriving DecidableEq, Repr

def Radix.base : Radix → Nat
  | .hexadecimal => 16
  | .binary => 2

def Radix.text : Radix → String
  | .hexadecimal => "hexadecimal"
  | .binary => "binary"

/-- Why a pair of parentheses is not needed. -/
inductive Redundancy where
  | condition
  | doubled
  | singleValue
  deriving DecidableEq, Repr

def Redundancy.text : Redundancy → String
  | .condition => "unnecessary parentheses around condition"
  | .doubled => "doubled parentheses"
  | .singleValue => "unnecessary parentheses around a single value"

/-- The literals that have a value to be read from their digits. -/
inductive NumberLiteral where
  | integer
  | float
  deriving DecidableEq, Repr

def NumberLiteral.text : NumberLiteral → String
  | .integer => "integer"
  | .float => "float"

/-- The statements that take no modifiers. -/
inductive Unmodified where
  | typeAlias
  | branch
  | loop
  | defer
  | loopControl
  | expression
  deriving DecidableEq, Repr

def Unmodified.text : Unmodified → String
  | .typeAlias => "a type alias"
  | .branch => "an if statement"
  | .loop => "a while loop"
  | .defer => "a defer block"
  | .loopControl => "a loop control statement"
  | .expression => "an expression"

/-- The blank lines allowed in a row. -/
def maxBlankLines : Nat := 2

/-- What there is to say about a source, by cause. -/
inductive Issue where
  /-- A block comment that is never closed. -/
  | openComment
  /-- A character literal that the input ends in. -/
  | openChar
  /-- A character literal with another character where its quote should be. -/
  | unclosedChar (found : Char)
  | emptyChar
  /-- A radix without digits after it. -/
  | missingDigits (radix : Radix)
  | redundantParens (why : Redundancy)
  | blankLines (count : Nat)
  | missingModule
  | invalidModuleName (found : Kind)
  /-- One token where another was needed. -/
  | unexpected (expected found : Kind)
  /-- A closing brace that closes nothing. -/
  | strayBrace
  /-- A token behind a statement that does not end it. -/
  | unendedStatement (found : Kind)
  | expectedExpression (found : Kind)
  | expectedType (found : Kind)
  | refusedModifier (error : ModifierError)
  | repeatedModifier (modifier : Modifier)
  /-- A number that has no value. -/
  | invalidNumber (literal : NumberLiteral) (text : String)
  | misplacedModifiers (modifiers : Modifiers) (target : Unmodified)
  /-- A record without members, by its written type. -/
  | emptyRecord (type : String)
  deriving DecidableEq, Repr

namespace Issue

def level : Issue → Level
  | .redundantParens _ | .blankLines _ => .warning
  | .emptyRecord _ => .info
  | _ => .error

def code : Issue → String
  | .openComment => "L001"
  | .openChar => "L002"
  | .unclosedChar _ => "L003"
  | .emptyChar => "L004"
  | .missingDigits _ => "L005"
  | .redundantParens _ => "W001"
  | .blankLines _ => "W002"
  | .missingModule => "P001"
  | .unexpected _ _ | .strayBrace | .unendedStatement _ => "P002"
  | .expectedExpression _ => "P003"
  | .invalidModuleName _ | .expectedType _ => "P004"
  | .refusedModifier _ => "P005"
  | .repeatedModifier _ => "P006"
  | .invalidNumber _ _ => "P007"
  | .misplacedModifiers _ _ => "P008"
  | .emptyRecord _ => "I001"

def message : Issue → String
  | .openComment => "unterminated block comment"
  | .openChar => "unterminated character literal"
  | .unclosedChar _ => "expected closing quote"
  | .emptyChar => "empty character literal"
  | .missingDigits _ => "expected digits after radix prefix"
  | .redundantParens why => why.text
  | .blankLines count => "too many blank lines (" ++ toString count ++ ")"
  | .missingModule => "missing module declaration"
  | .invalidModuleName found =>
    "invalid module name: expected identifier, found " ++ found.display
  | .unexpected expected found => "expected " ++ expected.display ++ ", found " ++ found.display
  | .strayBrace => "expected statement, found '\x7d'"
  | .unendedStatement found => "expected end of statement, found " ++ found.display
  | .expectedExpression found => "expected expression, found " ++ found.display
  | .expectedType found => "expected type, found " ++ found.display
  | .refusedModifier error => error.message
  | .repeatedModifier modifier => "duplicate modifier `" ++ modifier.text ++ "`"
  | .invalidNumber literal text => "invalid " ++ literal.text ++ " literal `" ++ text ++ "`"
  | .misplacedModifiers modifiers target =>
    "`" ++ modifiers.text ++ "` cannot be applied to " ++ target.text
  | .emptyRecord type => "empty record `" ++ type ++ "`"

def hint : Issue → Option String
  | .openComment => some "close the comment with `*/`"
  | .openChar => some "close the literal with `'`"
  | .unclosedChar found => some ("found " ++ Text.quotedChar found ++ " where `'` was expected")
  | .emptyChar => some "a character literal holds exactly one character"
  | .missingDigits radix => some ("add at least one " ++ radix.text ++ " digit")
  | .redundantParens _ => some "remove these parentheses"
  | .blankLines _ => some ("use at most " ++ toString maxBlankLines ++ " blank lines")
  | .missingModule => some "start the file with `mod <name>`"
  | .unexpected expected _ => some ("insert " ++ expected.display ++ " here")
  | .strayBrace => some "this brace has no matching '\x7b'"
  | .unendedStatement _ => some "put each statement on its own line or separate them with `;`"
  | .repeatedModifier _ => some "remove the repeated modifier"
  | _ => none

end Issue

/-- An issue at a span of the source. -/
structure Finding where
  issue : Issue
  span : Span
  deriving DecidableEq, Repr

namespace Finding

def isError (finding : Finding) : Bool :=
  finding.issue.level == .error

/-- The diagnostic of a finding. -/
def diagnostic (finding : Finding) : Diagnostic where
  level := finding.issue.level
  message := finding.issue.message
  span := finding.span
  hint := finding.issue.hint
  code := some finding.issue.code

@[simp] theorem isError_diagnostic (finding : Finding) :
    finding.diagnostic.isError = finding.isError := rfl

end Finding
end KCompiler
