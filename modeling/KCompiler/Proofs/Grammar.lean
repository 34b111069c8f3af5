import KCompiler.Parse.Statement
import KCompiler.Proofs.Ladder.Basic

/-! # The grammar of the language

Which token lists are types, expressions, statements and modules, and the trees they stand
for. A rule says how a list is put together from shorter ones. No rule looks at what stands
behind a list, skips a token or repairs anything, and no parser is used.
-/

namespace KCompiler

namespace Grammar

variable {α : Type}

/-- Line breaks, any number of them. -/
def Newlines (tokens : List Token) : Prop :=
  ∀ token ∈ tokens, token.kind = .newline

/-- A line break or a semicolon: what ends a statement. -/
def Ends (token : Token) : Prop :=
  token.kind = .newline ∨ token.kind = .punct .semicolon

/-- Items with commas between them and perhaps one behind the last; line breaks may stand
behind every comma. -/
inductive Commas (item : List Token → α → Prop) : List Token → List α → Prop
  | nil : Commas item [] []
  | last {tokens : List Token} {value : α} (hitem : item tokens value) :
      Commas item tokens [value]
  | cons {tokens breaks more : List Token} {comma : Token} {value : α} {values : List α}
      (hitem : item tokens value) (hcomma : comma.kind = .punct .comma) (hbreaks : Newlines breaks)
      (hmore : Commas item more values) :
      Commas item (tokens ++ comma :: (breaks ++ more)) (value :: values)

/-- Items in brackets; line breaks may stand behind the opening one. -/
inductive Bracketed (opening closing : Punct) (item : List Token → α → Prop) :
    List Token → List α → Prop
  | intro {first last : Token} {breaks items : List Token} {values : List α}
      (hfirst : first.kind = .punct opening) (hbreaks : Newlines breaks)
      (hitems : Commas item items values) (hlast : last.kind = .punct closing) :
      Bracketed opening closing item (first :: (breaks ++ (items ++ [last]))) values

/-- Items in brackets, or nothing at all. -/
inductive Optional (opening closing : Punct) (item : List Token → α → Prop) :
    List Token → Option (List α) → Prop
  | none : Optional opening closing item [] none
  | some {tokens : List Token} {values : List α}
      (hitems : Bracketed opening closing item tokens values) :
      Optional opening closing item tokens (some values)

/-- Statements behind each other, each ended by a line break or a semicolon; the last one
may go without. Further line breaks and semicolons may stand before every statement. -/
inductive Items (item : List Token → α → Prop) : List Token → List α → Prop
  | nil : Items item [] []
  | blank {token : Token} {tokens : List Token} {values : List α} (hends : Ends token)
      (hitems : Items item tokens values) : Items item (token :: tokens) values
  | last {tokens : List Token} {value : α} (hitem : item tokens value) : Items item tokens [value]
  | cons {tokens more : List Token} {token : Token} {value : α} {values : List α}
      (hitem : item tokens value) (hends : Ends token) (hmore : Items item more values) :
      Items item (tokens ++ token :: more) (value :: values)

/-- A type: a name, or a name with types in brackets. -/
inductive IsType : List Token → Ty → Prop
  | named {token : Token} (hkind : token.kind = .identifier) : IsType [token] (.named token.text)
  | builtin {token : Token} {type : Builtin} (hkind : token.kind = .builtin type) :
      IsType [token] (.builtin token.text)
  | generic {token : Token} {base : Ty} {tokens : List Token} {args : List Ty}
      (hbase : IsType [token] base)
      (hargs : Bracketed .lbracket .rbracket IsType tokens args) :
      IsType (token :: tokens) (.generic base args)

/-- A name in an expression; the names of builtin types count. -/
def IsName (token : Token) : Prop :=
  token.kind = .identifier ∨ token.kind.isBuiltin

mutual
/-- A cast, or an assignment to one; assignments group to the right. -/
inductive IsAssignment : List Token → Expr → Prop
  | cast {tokens : List Token} {value : Expr} (hcast : IsCast tokens value) :
      IsAssignment tokens value
  | assign {left right : List Token} {token : Token} {op : BinaryOp} {lhs rhs : Expr}
      (hleft : IsCast left lhs) (hop : Ladder.operatorOf? Ladder.assignments token.kind = some op)
      (hright : IsAssignment right rhs) : IsAssignment (left ++ token :: right) (.binary op lhs rhs)

/-- Binary operators, with any number of casts behind them. -/
inductive IsCast : List Token → Expr → Prop
  | level {tokens : List Token} {value : Expr} (hlevel : IsLevel Ladder.levels tokens value) :
      IsCast tokens value
  | cast {tokens type : List Token} {token : Token} {value : Expr} {target : Ty}
      (hvalue : IsCast tokens value) (has : token.kind = .keyword .as)
      (htype : IsType type target) : IsCast (tokens ++ token :: type) (.cast value target)

/-- The operators of a ladder of levels; those of one level group to the left. -/
inductive IsLevel : List (List BinaryOp) → List Token → Expr → Prop
  | unary {tokens : List Token} {value : Expr} (hunary : IsUnary tokens value) :
      IsLevel [] tokens value
  | tighter {ops : List BinaryOp} {tighter : List (List BinaryOp)} {tokens : List Token}
      {value : Expr} (hlevel : IsLevel tighter tokens value) : IsLevel (ops :: tighter) tokens value
  | binary {ops : List BinaryOp} {tighter : List (List BinaryOp)} {left right : List Token}
      {token : Token} {op : BinaryOp} {lhs rhs : Expr} (hleft : IsLevel (ops :: tighter) left lhs)
      (hop : Ladder.operatorOf? ops token.kind = some op) (hright : IsLevel tighter right rhs) :
      IsLevel (ops :: tighter) (left ++ token :: right) (.binary op lhs rhs)

/-- Unary operators before an operand. -/
inductive IsUnary : List Token → Expr → Prop
  | trailing {tokens : List Token} {value : Expr} (htrailing : IsTrailing tokens value) :
      IsUnary tokens value
  | leading {token : Token} {tokens : List Token} {op : UnaryOp} {value : Expr}
      (hop : Ladder.leadingOf? token.kind = some op) (hvalue : IsUnary tokens value) :
      IsUnary (token :: tokens) (.unary op .before value)

/-- Unary operators behind an operand. -/
inductive IsTrailing : List Token → Expr → Prop
  | primary {tokens : List Token} {value : Expr} (hprimary : IsPrimary tokens value) :
      IsTrailing tokens value
  | trailing {tokens : List Token} {token : Token} {op : UnaryOp} {value : Expr}
      (hvalue : IsTrailing tokens value) (hop : Ladder.trailingOf? token.kind = some op) :
      IsTrailing (tokens ++ [token]) (.unary op .behind value)

/-- An operand without operators. A literal token has to have a value. -/
inductive IsPrimary : List Token → Expr → Prop
  | literal {token : Token} {value : Literal} (hvalue : Literal.ofToken? token = some (value, [])) :
      IsPrimary [token] (.literal value)
  | name {token : Token} (hname : IsName token) : IsPrimary [token] (.ident token.text)
  | call {token : Token} {types args : List Token} {typeArgs : Option (List Ty)}
      {arguments : Option (List Expr)} (hname : IsName token)
      (htypes : Optional .lbracket .rbracket IsType types typeArgs)
      (hargs : Optional .lparen .rparen IsAssignment args arguments)
      (hcall : typeArgs.isSome ∨ arguments.isSome) :
      IsPrimary (token :: (types ++ args))
        (.call (.ident token.text) (typeArgs.getD []) (arguments.getD []))
  | group {first last : Token} {breaks tokens : List Token} {value : Expr}
      (hfirst : first.kind = .punct .lparen) (hbreaks : Newlines breaks)
      (hvalue : IsAssignment tokens value) (hlast : last.kind = .punct .rparen) :
      IsPrimary (first :: (breaks ++ (tokens ++ [last]))) value
end

/-- Modifiers before a declaration, in the order in which they are written. -/
inductive IsModifiers : List Token → List Modifier → Prop
  | nil : IsModifiers [] []
  | cons {token : Token} {tokens : List Token} {modifier : Modifier} {modifiers : List Modifier}
      (hmodifier : Modifier.ofKind? token.kind = some modifier)
      (hmore : IsModifiers tokens modifiers) : IsModifiers (token :: tokens) (modifier :: modifiers)

/-- A `mut` behind the name of a variable, or nothing. -/
inductive IsMark : List Token → List Modifier → Prop
  | none : IsMark [] []
  | mut {token : Token} (hkind : token.kind = .keyword .mut) : IsMark [token] [.mut]

/-- Modifiers that a declaration can carry at its place. -/
def Allowed (modifiers : Modifiers) (scope : Scope) (kind : DeclKind) : Prop :=
  ∀ modifier ∈ modifiers.toList, modifier.allows scope kind

instance (modifiers : Modifiers) (scope : Scope) (kind : DeclKind) :
    Decidable (Allowed modifiers scope kind) :=
  inferInstanceAs (Decidable (∀ modifier ∈ modifiers.toList, modifier.allows scope kind = true))

/-- A name with its type. Its modifiers are those before it and the one behind its name, and
as they are the modifiers of one declaration none of them is repeated. -/
inductive IsBinding (scope : Scope) : List Token → VariableDecl → Prop
  | intro {front mark tokens : List Token} {name colon : Token} {before behind : List Modifier}
      {modifiers : Modifiers} {type : Ty} (hfront : IsModifiers front before)
      (hname : name.kind = .identifier) (hmark : IsMark mark behind)
      (hcolon : colon.kind = .punct .colon) (htype : IsType tokens type)
      (hmodifiers : modifiers.toList = before ++ behind)
      (hallowed : Allowed modifiers scope .variable) :
      IsBinding scope (front ++ name :: (mark ++ colon :: tokens))
        { name := name.text, type, init := none, modifiers, scope }

/-- The declaration of a variable or a field, with or without an initial value. -/
inductive IsVariable (scope : Scope) : List Token → VariableDecl → Prop
  | bare {tokens : List Token} {decl : VariableDecl} (hbinding : IsBinding scope tokens decl) :
      IsVariable scope tokens decl
  | initial {tokens value : List Token} {equals : Token} {decl : VariableDecl} {init : Expr}
      (hbinding : IsBinding scope tokens decl) (hequals : equals.kind = .op .assign)
      (hvalue : IsAssignment value init) :
      IsVariable scope (tokens ++ equals :: value) { decl with init := some init }

/-- The name of a type parameter. -/
inductive IsIdentifier : List Token → String → Prop
  | intro {token : Token} (hkind : token.kind = .identifier) : IsIdentifier [token] token.text

/-- The type that a function returns; nothing stands for a function without value. -/
inductive IsReturn : List Token → Ty → Prop
  | none : IsReturn [] .unit
  | some {colon : Token} {tokens : List Token} {type : Ty} (hcolon : colon.kind = .punct .colon)
      (htype : IsType tokens type) : IsReturn (colon :: tokens) type

/-- A function without its body. -/
inductive IsSignature (scope : Scope) : List Token → Signature → Prop
  | intro {front names params returns : List Token} {keyword name : Token} {modifiers : Modifiers}
      {generics : Option (List String)} {decls : List VariableDecl} {type : Ty}
      (hfront : IsModifiers front modifiers.toList) (hallowed : Allowed modifiers scope .function)
      (hkeyword : keyword.kind = .keyword .fx) (hname : name.kind = .identifier)
      (hnames : Optional .lbracket .rbracket IsIdentifier names generics)
      (hparams : Bracketed .lparen .rparen (IsBinding .parameter) params decls)
      (hreturns : IsReturn returns type) :
      IsSignature scope (front ++ keyword :: name :: (names ++ (params ++ returns)))
        { name := name.text, modifiers, generics := generics.getD [], returnType := type,
          params := decls, scope }

mutual
/-- A statement at a place of the program. -/
inductive IsStmt : Scope → List Token → Stmt → Prop
  | expr {scope : Scope} {tokens : List Token} {value : Expr} (hvalue : IsAssignment tokens value) :
      IsStmt scope tokens (.expr value)
  | variable {scope : Scope} {tokens : List Token} {decl : VariableDecl}
      (hdecl : IsVariable scope tokens decl) : IsStmt scope tokens (.variable decl)
  | typeAlias {scope : Scope} {keyword as name : Token} {tokens : List Token} {target : Ty}
      (hkeyword : keyword.kind = .keyword .alias) (htype : IsType tokens target)
      (has : as.kind = .keyword .as) (hname : name.kind = .identifier) :
      IsStmt scope (keyword :: (tokens ++ [as, name])) (.typeAlias target name.text)
  | record {scope : Scope} {front tokens breaks body : List Token} {keyword first last : Token}
      {modifiers : Modifiers} {type : Ty} {members : List Member}
      (hfront : IsModifiers front modifiers.toList) (hallowed : Allowed modifiers scope .record)
      (hkeyword : keyword.kind = .keyword .record) (htype : IsType tokens type)
      (hbreaks : Newlines breaks) (hfirst : first.kind = .punct .lbrace)
      (hmembers : Items IsMember body members) (hlast : last.kind = .punct .rbrace) :
      IsStmt scope (front ++ keyword :: (tokens ++ (breaks ++ first :: (body ++ [last]))))
        (.record { type, fields := members.filterMap Member.field?, modifiers, scope }
          (members.filterMap Member.method?))
  | branch {scope : Scope} {tokens : List Token} {stmt : Stmt} (hbranch : IsBranch tokens stmt) :
      IsStmt scope tokens stmt
  | loop {scope : Scope} {keyword : Token} {tokens body : List Token} {condition : Expr}
      {stmts : List Stmt} (hkeyword : keyword.kind = .keyword .while)
      (hcondition : IsAssignment tokens condition) (hbody : IsBlock body stmts) :
      IsStmt scope (keyword :: (tokens ++ body)) (.loop condition stmts)
  | defer {scope : Scope} {keyword : Token} {body : List Token} {stmts : List Stmt}
      (hkeyword : keyword.kind = .keyword .defer) (hbody : IsBlock body stmts) :
      IsStmt scope (keyword :: body) (.defer stmts)
  | break {scope : Scope} {keyword : Token} (hkeyword : keyword.kind = .keyword .break) :
      IsStmt scope [keyword] .break
  | continue {scope : Scope} {keyword : Token} (hkeyword : keyword.kind = .keyword .continue) :
      IsStmt scope [keyword] .continue
  | function {scope : Scope} {tokens : List Token} {decl : FunctionDecl}
      (hdecl : IsFunction scope tokens decl) : IsStmt scope tokens (.function decl)

/-- A function or a method. -/
inductive IsFunction : Scope → List Token → FunctionDecl → Prop
  | intro {scope : Scope} {tokens body : List Token} {signature : Signature} {stmts : List Stmt}
      (hsignature : IsSignature scope tokens signature) (hbody : IsBlock body stmts) :
      IsFunction scope (tokens ++ body) ⟨signature, stmts⟩

/-- A member of a record. -/
inductive IsMember : List Token → Member → Prop
  | field {tokens : List Token} {decl : VariableDecl} (hdecl : IsVariable .field tokens decl) :
      IsMember tokens (.field decl)
  | method {tokens : List Token} {decl : FunctionDecl} (hdecl : IsFunction .method tokens decl) :
      IsMember tokens (.method decl)

/-- An `if` statement; its `else` may stand some lines below. -/
inductive IsBranch : List Token → Stmt → Prop
  | alone {keyword : Token} {tokens body : List Token} {condition : Expr} {stmts : List Stmt}
      (hkeyword : keyword.kind = .keyword .if) (hcondition : IsAssignment tokens condition)
      (hbody : IsBlock body stmts) :
      IsBranch (keyword :: (tokens ++ body)) (.branch condition stmts none)
  | otherwise {keyword last : Token} {tokens body breaks tail : List Token} {condition : Expr}
      {stmts other : List Stmt} (hkeyword : keyword.kind = .keyword .if)
      (hcondition : IsAssignment tokens condition) (hbody : IsBlock body stmts)
      (hbreaks : Newlines breaks) (hlast : last.kind = .keyword .else)
      (hother : IsOtherwise tail other) :
      IsBranch (keyword :: (tokens ++ (body ++ (breaks ++ last :: tail))))
        (.branch condition stmts (some other))

/-- What stands behind an `else`: a block or another `if` statement. -/
inductive IsOtherwise : List Token → List Stmt → Prop
  | block {tokens : List Token} {stmts : List Stmt} (hblock : IsBlock tokens stmts) :
      IsOtherwise tokens stmts
  | branch {tokens : List Token} {stmt : Stmt} (hbranch : IsBranch tokens stmt) :
      IsOtherwise tokens [stmt]

/-- Statements in braces. -/
inductive IsBlock : List Token → List Stmt → Prop
  | intro {breaks body : List Token} {first last : Token} {stmts : List Stmt}
      (hbreaks : Newlines breaks) (hfirst : first.kind = .punct .lbrace)
      (hbody : Items (IsStmt .block) body stmts) (hlast : last.kind = .punct .rbrace) :
      IsBlock (breaks ++ first :: (body ++ [last])) stmts
end

/-- A module, without the token that ends the input. Its header is ended like a statement. -/
inductive IsModule : List Token → Module → Prop
  | header {breaks : List Token} {keyword name : Token} (hbreaks : Newlines breaks)
      (hkeyword : keyword.kind = .keyword .mod) (hname : name.kind = .identifier) :
      IsModule (breaks ++ [keyword, name]) ⟨name.text, []⟩
  | body {breaks tokens : List Token} {keyword name last : Token} {stmts : List Stmt}
      (hbreaks : Newlines breaks) (hkeyword : keyword.kind = .keyword .mod)
      (hname : name.kind = .identifier) (hlast : Ends last)
      (hstmts : Items (IsStmt .topLevel) tokens stmts) :
      IsModule (breaks ++ keyword :: name :: last :: tokens) ⟨name.text, stmts⟩

end Grammar
end KCompiler
