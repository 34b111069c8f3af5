import KCompiler.Parse.Expression

/-! # Printing trees

A tree is printed as words, and each word says what its token has to be: a mark of a kind,
a name, or a literal with a value. What is not fixed by the tree, such as the places of the
tokens and how a number is written, is left open. Every compound expression stands in
parentheses, every statement on a line of its own and every block in braces.
-/

namespace KCompiler

/-- What the tree says about one token. -/
inductive Word where
  | punct (mark : Punct)
  | keyword (word : Keyword)
  | op (operator : Operator)
  | newline
  | name (text : String)
  | builtin (text : String)
  | literal (value : Literal)

namespace Word

/-- A token that a word can be written by. -/
def Spelt (token : Token) : Word → Prop
  | .punct mark => token.kind = .punct mark
  | .keyword word => token.kind = .keyword word
  | .op operator => token.kind = .op operator
  | .newline => token.kind = .newline
  | .name text => token.kind = .identifier ∧ token.text = text
  | .builtin text => token.kind.isBuiltin ∧ token.kind.symbol = text ∧ token.text = text
  | .literal value => Literal.ofToken? token = some (value, [])

instance (token : Token) (word : Word) : Decidable (word.Spelt token) :=
  match word with
  | .punct _ | .keyword _ | .op _ | .newline | .literal _ => inferInstanceAs (Decidable (_ = _))
  | .name _ | .builtin _ => inferInstanceAs (Decidable (_ ∧ _))

variable {token : Token}

@[simp]
theorem spelt_punct {mark : Punct} : (punct mark).Spelt token ↔ token.kind = .punct mark := Iff.rfl

@[simp]
theorem spelt_keyword {word : Keyword} : (keyword word).Spelt token ↔ token.kind = .keyword word :=
  Iff.rfl

@[simp]
theorem spelt_op {operator : Operator} : (op operator).Spelt token ↔ token.kind = .op operator :=
  Iff.rfl

@[simp]
theorem spelt_newline : newline.Spelt token ↔ token.kind = .newline := Iff.rfl

/-- No word stands for the end of the input. -/
theorem Spelt.kind_ne_eof {word : Word} (hspelt : word.Spelt token) : token.kind ≠ .eof := by
  intro hkind
  cases word <;> simp [Spelt, hkind, Kind.isBuiltin, Literal.ofToken?] at hspelt

end Word

/-- Tokens that write some words, one token a word. -/
def Spells : List Token → List Word → Prop
  | [], [] => True
  | token :: tokens, word :: words => word.Spelt token ∧ Spells tokens words
  | _, _ => False

instance decidableSpells : (tokens : List Token) → (words : List Word) →
    Decidable (Spells tokens words)
  | [], [] => .isTrue trivial
  | _ :: tokens, _ :: words =>
    have := decidableSpells tokens words
    inferInstanceAs (Decidable (_ ∧ _))
  | [], _ :: _ | _ :: _, [] => .isFalse id

/-- Items with a comma between any two. -/
def commaWords : List (List Word) → List Word
  | [] => []
  | [item] => item
  | item :: items => item ++ .punct .comma :: commaWords items

/-- Items in brackets. -/
def bracketWords (opening closing : Punct) (items : List (List Word)) : List Word :=
  .punct opening :: (commaWords items ++ [.punct closing])

mutual
def Ty.words : Ty → List Word
  | .builtin name => [.builtin name]
  | .named name => [.name name]
  | .generic base args => base.words ++ bracketWords .lbracket .rbracket (Ty.wordLists args)

def Ty.wordLists : List Ty → List (List Word)
  | [] => []
  | type :: types => type.words :: Ty.wordLists types
end

/-- Words in parentheses. -/
def groupWords (words : List Word) : List Word :=
  .punct .lparen :: (words ++ [.punct .rparen])

mutual
/-- An expression; a compound one stands in parentheses. -/
def Expr.words : Expr → List Word
  | .ident name => [.name name]
  | .literal value => [.literal value]
  | .binary op lhs rhs => groupWords (lhs.words ++ .op op.operator :: rhs.words)
  | .unary op .before operand => groupWords (.op op.operator :: operand.words)
  | .unary op .behind operand => groupWords (operand.words ++ [.op op.operator])
  | .cast operand target => groupWords (operand.words ++ .keyword .as :: target.words)
  | .call callee typeArgs args =>
    callee.words ++ (bracketWords .lbracket .rbracket (Ty.wordLists typeArgs) ++
      bracketWords .lparen .rparen (Expr.wordLists args))

def Expr.wordLists : List Expr → List (List Word)
  | [] => []
  | expr :: exprs => expr.words :: Expr.wordLists exprs
end

def Modifier.word : Modifier → Word
  | .pub => .keyword .pub
  | .mut => .keyword .mut

def Modifiers.words (modifiers : Modifiers) : List Word :=
  modifiers.toList.map Modifier.word

/-- A name with its type. -/
def VariableDecl.bindingWords (decl : VariableDecl) : List Word :=
  .name decl.name :: .punct .colon :: decl.type.words

/-- An initial value, if there is one. -/
def initialWords : Option Expr → List Word
  | none => []
  | some init => .op .assign :: init.words

def VariableDecl.words (decl : VariableDecl) : List Word :=
  decl.modifiers.words ++ (decl.bindingWords ++ initialWords decl.init)

def VariableDecl.parameterWords (decl : VariableDecl) : List Word :=
  decl.modifiers.words ++ decl.bindingWords

/-- The names of type parameters, if there are any. -/
def genericWords (names : List String) : List Word :=
  if names.isEmpty then []
  else bracketWords .lbracket .rbracket (names.map fun name => [.name name])

/-- A function from its name to its result. -/
def Signature.words (signature : Signature) : List Word :=
  .name signature.name :: (genericWords signature.generics ++
    (bracketWords .lparen .rparen (signature.params.map VariableDecl.parameterWords) ++
      .punct .colon :: signature.returnType.words))

/-- Lines in braces. -/
def braceWords (lines : List Word) : List Word :=
  .punct .lbrace :: .newline :: (lines ++ [.punct .rbrace])

mutual
def Stmt.words : Stmt → List Word
  | .expr value => value.words
  | .variable decl => decl.words
  | .typeAlias target name => .keyword .alias :: (target.words ++ [.keyword .as, .name name])
  | .record head methods =>
    head.modifiers.words ++ .keyword .record :: (head.type.words ++
      braceWords (head.fields.flatMap (fun field => field.words ++ [.newline]) ++
        FunctionDecl.lines methods))
  | .branch condition body none =>
    .keyword .if :: (condition.words ++ braceWords (Stmt.lines body))
  | .branch condition body (some otherwise) =>
    .keyword .if :: (condition.words ++ (braceWords (Stmt.lines body) ++
      .keyword .else :: braceWords (Stmt.lines otherwise)))
  | .loop condition body => .keyword .while :: (condition.words ++ braceWords (Stmt.lines body))
  | .defer body => .keyword .defer :: braceWords (Stmt.lines body)
  | .break => [.keyword .break]
  | .continue => [.keyword .continue]
  | .function decl => decl.words

/-- Statements, each on a line of its own. -/
def Stmt.lines : List Stmt → List Word
  | [] => []
  | stmt :: stmts => stmt.words ++ .newline :: Stmt.lines stmts

def FunctionDecl.words : FunctionDecl → List Word
  | ⟨signature, body⟩ =>
    signature.modifiers.words ++ .keyword .fx :: (signature.words ++
      braceWords (Stmt.lines body))

def FunctionDecl.lines : List FunctionDecl → List Word
  | [] => []
  | decl :: decls => decl.words ++ .newline :: FunctionDecl.lines decls
end

def Module.words (program : Module) : List Word :=
  .keyword .mod :: .name program.name :: .newline :: Stmt.lines program.statements

mutual
/-- The types of the records in a statement that have no members. -/
def Stmt.emptyRecords : Stmt → List Ty
  | .record head methods =>
    FunctionDecl.allEmptyRecords methods ++
      if head.fields.isEmpty && methods.isEmpty then [head.type] else []
  | .branch _ body none => Stmt.allEmptyRecords body
  | .branch _ body (some otherwise) =>
    Stmt.allEmptyRecords body ++ Stmt.allEmptyRecords otherwise
  | .loop _ body => Stmt.allEmptyRecords body
  | .defer body => Stmt.allEmptyRecords body
  | .function decl => decl.emptyRecords
  | _ => []

def Stmt.allEmptyRecords : List Stmt → List Ty
  | [] => []
  | stmt :: stmts => stmt.emptyRecords ++ Stmt.allEmptyRecords stmts

def FunctionDecl.emptyRecords : FunctionDecl → List Ty
  | ⟨_, body⟩ => Stmt.allEmptyRecords body

def FunctionDecl.allEmptyRecords : List FunctionDecl → List Ty
  | [] => []
  | decl :: decls => decl.emptyRecords ++ FunctionDecl.allEmptyRecords decls
end

def Module.emptyRecords (program : Module) : List Ty :=
  Stmt.allEmptyRecords program.statements

/-- What there is to say about records without members. -/
def remarks (records : List Ty) : List Issue :=
  records.map fun type => .emptyRecord type.text

theorem remarks_append (first second : List Ty) :
    remarks (first ++ second) = remarks first ++ remarks second :=
  List.map_append

section Spelling

variable {tokens : List Token} {word : Word} {words first second : List Word}

@[simp]
theorem spells_nil : Spells tokens [] ↔ tokens = [] := by
  cases tokens <;> simp [Spells]

@[simp]
theorem spells_cons :
    Spells tokens (word :: words) ↔
      ∃ token rest, tokens = token :: rest ∧ word.Spelt token ∧ Spells rest words := by
  constructor
  · intro htokens
    cases tokens with
    | nil => exact htokens.elim
    | cons token rest => exact ⟨token, rest, rfl, htokens⟩
  · rintro ⟨token, rest, rfl, htokens⟩
    exact htokens

theorem spells_singleton : Spells tokens [word] ↔ ∃ token, tokens = [token] ∧ word.Spelt token := by
  rw [spells_cons]
  constructor
  · rintro ⟨token, rest, rfl, hword, hrest⟩
    obtain rfl := spells_nil.mp hrest
    exact ⟨token, rfl, hword⟩
  · rintro ⟨token, rfl, hword⟩
    exact ⟨token, [], rfl, hword, spells_nil.mpr rfl⟩

@[simp]
theorem spells_append :
    Spells tokens (first ++ second) ↔
      ∃ front back, tokens = front ++ back ∧ Spells front first ∧ Spells back second := by
  induction first generalizing tokens with
  | nil =>
      constructor
      · intro hsecond
        exact ⟨[], tokens, rfl, trivial, hsecond⟩
      · rintro ⟨front, back, rfl, hfront, hback⟩
        rwa [spells_nil.mp hfront]
  | cons word words ih =>
      simp only [List.cons_append, spells_cons, ih]
      constructor
      · rintro ⟨token, _, rfl, hword, front, back, rfl, hfront, hback⟩
        exact ⟨token :: front, back, rfl, ⟨token, front, rfl, hword, hfront⟩, hback⟩
      · rintro ⟨_, back, rfl, ⟨token, front, rfl, hword, hfront⟩, hback⟩
        exact ⟨token, front ++ back, rfl, hword, front, back, rfl, hfront, hback⟩

theorem Spells.kind_ne_eof (htokens : Spells tokens words) :
    ∀ token ∈ tokens, token.kind ≠ .eof := by
  induction words generalizing tokens with
  | nil => simp [spells_nil.mp htokens]
  | cons word words ih =>
      obtain ⟨token, rest, rfl, hspelt, hrest⟩ := spells_cons.mp htokens
      rw [List.forall_mem_cons]
      exact ⟨hspelt.kind_ne_eof, ih hrest⟩

end Spelling

theorem Ty.wordLists_eq_map (types : List Ty) : wordLists types = types.map words := by
  induction types with
  | nil => rfl
  | cons type types ih => simp [wordLists, ih]

theorem Expr.wordLists_eq_map (exprs : List Expr) : wordLists exprs = exprs.map words := by
  induction exprs with
  | nil => rfl
  | cons expr exprs ih => simp [wordLists, ih]

end KCompiler
