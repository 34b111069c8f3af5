/-! # Kinds of tokens

What a token can be: a literal, a name, a keyword, a builtin type, punctuation, an
operator, the end of a line or the end of the input. Every fixed word and symbol of
the language is listed here once, with its spelling.
-/

namespace KCompiler

/-- The reserved words. -/
inductive Keyword where
  | «mod» | record | fx | «alias» | «as» | «if» | «else» | «while» | defer | «break» | «continue»
  | «true» | «false» | pub | «mut»
  deriving DecidableEq, Repr

namespace Keyword

def all : List Keyword :=
  [.mod, .record, .fx, .alias, .as, .if, .else, .while, .defer, .break, .continue, .true, .false,
    .pub, .mut]

/-- How a keyword is spelt. -/
def symbol : Keyword → String
  | .mod => "mod"
  | .record => "record"
  | .fx => "fx"
  | .alias => "alias"
  | .as => "as"
  | .if => "if"
  | .else => "else"
  | .while => "while"
  | .defer => "defer"
  | .break => "break"
  | .continue => "continue"
  | .true => "true"
  | .false => "false"
  | .pub => "pub"
  | .mut => "mut"

/-- The name of a keyword in token listings. -/
def name : Keyword → String
  | .mod => "Mod"
  | .record => "Record"
  | .fx => "Fx"
  | .alias => "Alias"
  | .as => "As"
  | .if => "If"
  | .else => "Else"
  | .while => "While"
  | .defer => "Defer"
  | .break => "Break"
  | .continue => "Continue"
  | .true => "True"
  | .false => "False"
  | .pub => "Pub"
  | .mut => "Mut"

end Keyword

/-- The primitive types of the language. -/
inductive Builtin where
  | int | float | double | byte | short | long | bool | ubyte | uint | ulong | unit
  deriving DecidableEq, Repr

namespace Builtin

def all : List Builtin :=
  [.int, .float, .double, .byte, .short, .long, .bool, .ubyte, .uint, .ulong, .unit]

/-- How a builtin type is spelt. -/
def symbol : Builtin → String
  | .int => "_Int"
  | .float => "_Float"
  | .double => "_Double"
  | .byte => "_Byte"
  | .short => "_Short"
  | .long => "_Long"
  | .bool => "_Bool"
  | .ubyte => "_UByte"
  | .uint => "_UInt"
  | .ulong => "_ULong"
  | .unit => "_Unit"

/-- The name of a builtin type in token listings. -/
def name : Builtin → String
  | .int => "TInt"
  | .float => "TFloat"
  | .double => "TDouble"
  | .byte => "TByte"
  | .short => "TShort"
  | .long => "TLong"
  | .bool => "TBool"
  | .ubyte => "TUByte"
  | .uint => "TUInt"
  | .ulong => "TULong"
  | .unit => "TUnit"

end Builtin

/-- Brackets and separators. -/
inductive Punct where
  | lparen | rparen | lbrace | rbrace | lbracket | rbracket | comma | colon | semicolon | dot
  deriving DecidableEq, Repr

namespace Punct

def all : List Punct :=
  [.lparen, .rparen, .lbrace, .rbrace, .lbracket, .rbracket, .comma, .colon, .semicolon, .dot]

/-- The one character that a punctuation mark is. -/
def char : Punct → Char
  | .lparen => '('
  | .rparen => ')'
  | .lbrace => '{'
  | .rbrace => '}'
  | .lbracket => '['
  | .rbracket => ']'
  | .comma => ','
  | .colon => ':'
  | .semicolon => ';'
  | .dot => '.'

def symbol (mark : Punct) : String :=
  String.singleton mark.char

/-- The name of a punctuation mark in token listings. -/
def name : Punct → String
  | .lparen => "LParen"
  | .rparen => "RParen"
  | .lbrace => "LBrace"
  | .rbrace => "RBrace"
  | .lbracket => "LBracket"
  | .rbracket => "RBracket"
  | .comma => "Comma"
  | .colon => "Colon"
  | .semicolon => "Semicolon"
  | .dot => "Dot"

end Punct

/-- The operators, as they are written. -/
inductive Operator where
  | plus | plusPlus | plusEq | minus | minusMinus | minusEq | star | starEq | slash | slashEq
  | percent | percentEq | assign | eqEq | bang | bangEq | less | lessEq | shl | shlEq | greater
  | greaterEq | shr | shrEq | amp | ampAmp | ampEq | pipe | pipePipe | pipeEq | caret | caretEq
  | tilde
  deriving DecidableEq, Repr

namespace Operator

/-- All operators, longer ones first. -/
def all : List Operator :=
  [.shlEq, .shrEq,
    .plusPlus, .plusEq, .minusMinus, .minusEq, .starEq, .slashEq, .percentEq, .eqEq, .bangEq,
    .lessEq, .shl, .greaterEq, .shr, .ampAmp, .ampEq, .pipePipe, .pipeEq, .caretEq,
    .plus, .minus, .star, .slash, .percent, .assign, .bang, .less, .greater, .amp, .pipe, .caret,
    .tilde]

/-- How an operator is spelt. -/
def symbol : Operator → String
  | .plus => "+"
  | .plusPlus => "++"
  | .plusEq => "+="
  | .minus => "-"
  | .minusMinus => "--"
  | .minusEq => "-="
  | .star => "*"
  | .starEq => "*="
  | .slash => "/"
  | .slashEq => "/="
  | .percent => "%"
  | .percentEq => "%="
  | .assign => "="
  | .eqEq => "=="
  | .bang => "!"
  | .bangEq => "!="
  | .less => "<"
  | .lessEq => "<="
  | .shl => "<<"
  | .shlEq => "<<="
  | .greater => ">"
  | .greaterEq => ">="
  | .shr => ">>"
  | .shrEq => ">>="
  | .amp => "&"
  | .ampAmp => "&&"
  | .ampEq => "&="
  | .pipe => "|"
  | .pipePipe => "||"
  | .pipeEq => "|="
  | .caret => "^"
  | .caretEq => "^="
  | .tilde => "~"

/-- The name of an operator in token listings. -/
def name : Operator → String
  | .plus => "Plus"
  | .plusPlus => "PlusPlus"
  | .plusEq => "PlusEq"
  | .minus => "Minus"
  | .minusMinus => "MinusMinus"
  | .minusEq => "MinusEq"
  | .star => "Star"
  | .starEq => "StarEq"
  | .slash => "Slash"
  | .slashEq => "SlashEq"
  | .percent => "Percent"
  | .percentEq => "PercentEq"
  | .assign => "Assign"
  | .eqEq => "EqEq"
  | .bang => "Bang"
  | .bangEq => "BangEq"
  | .less => "Less"
  | .lessEq => "LessEq"
  | .shl => "Shl"
  | .shlEq => "ShlEq"
  | .greater => "Greater"
  | .greaterEq => "GreaterEq"
  | .shr => "Shr"
  | .shrEq => "ShrEq"
  | .amp => "Amp"
  | .ampAmp => "AmpAmp"
  | .ampEq => "AmpEq"
  | .pipe => "Pipe"
  | .pipePipe => "PipePipe"
  | .pipeEq => "PipeEq"
  | .caret => "Caret"
  | .caretEq => "CaretEq"
  | .tilde => "Tilde"

end Operator

/-- What a token is. -/
inductive Kind where
  | integer
  | float
  | string
  | char
  | identifier
  | keyword (word : Keyword)
  | builtin (type : Builtin)
  | punct (mark : Punct)
  | op (operator : Operator)
  | newline
  | eof
  deriving DecidableEq, Repr

namespace Kind

instance : Inhabited Kind := ⟨.eof⟩

def all : List Kind :=
  [.integer, .float, .string, .char, .identifier] ++ Keyword.all.map keyword ++
    Builtin.all.map builtin ++ Punct.all.map punct ++ Operator.all.map op ++ [.newline, .eof]

/-- The spelling of a kind that has only one; empty for the others. -/
def symbol : Kind → String
  | .keyword word => word.symbol
  | .builtin type => type.symbol
  | .punct mark => mark.symbol
  | .op operator => operator.symbol
  | _ => ""

/-- A kind in words: its spelling, or what it is called if it has several. -/
def describe : Kind → String
  | .integer => "integer literal"
  | .float => "float literal"
  | .string => "string literal"
  | .char => "character literal"
  | .identifier => "identifier"
  | .newline => "newline"
  | .eof => "end of input"
  | kind => kind.symbol

/-- A kind as messages name it: a spelling stands between quotes. -/
def display (kind : Kind) : String :=
  if kind.symbol = "" then kind.describe else "'" ++ kind.symbol ++ "'"

/-- The name of a kind in token listings. -/
def name : Kind → String
  | .integer => "Integer"
  | .float => "Float"
  | .string => "String"
  | .char => "Char"
  | .identifier => "Identifier"
  | .keyword word => word.name
  | .builtin type => type.name
  | .punct mark => mark.name
  | .op operator => operator.name
  | .newline => "Newline"
  | .eof => "Eof"

def isKeyword : Kind → Bool
  | .keyword _ => true
  | _ => false

def isBuiltin : Kind → Bool
  | .builtin _ => true
  | _ => false

/-- The kind of a reserved word. -/
def ofWord? (word : String) : Option Kind :=
  ((Keyword.all.find? (·.symbol = word)).map keyword).or
    ((Builtin.all.find? (·.symbol = word)).map builtin)

/-- Newlines, semicolons, closing braces and the end of the input bound statements. -/
def isBoundary : Kind → Bool
  | .newline | .punct .semicolon | .punct .rbrace | .eof => true
  | _ => false

end Kind
end KCompiler
