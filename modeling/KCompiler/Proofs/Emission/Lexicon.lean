import KCompiler.Proofs.Emission.Target

/-! # The words of emitted expressions

The C text of an expression is the same for everyone who reads it, but what it is taken for
depends on the reader. A lexicon says which names and literals a reader knows, and how texts are
put together for it; then the whole text is read as the words of the expression, and no two of
them run together.
-/

namespace KCompiler

open Scan

/-- The words of an expression in C. A cast is two groups, the first of which holds the type. -/
def Expr.cWords : Expr → List Word
  | .ident name => [.name name]
  | .literal value => [.literal value]
  | .binary op lhs rhs => groupWords (lhs.cWords ++ .op op.operator :: rhs.cWords)
  | .unary op .before operand => groupWords (.op op.operator :: operand.cWords)
  | .unary op .behind operand => groupWords (operand.cWords ++ [.op op.operator])
  | .cast operand target => groupWords [.name target.text] ++ groupWords operand.cWords
  | .call _ _ _ => []

/-- The words of an expression that stands as a statement, up to its semicolon. An assignment needs
no parentheses there. -/
def Expr.statementWords : Expr → List Word
  | .binary op lhs rhs =>
    if op.isAssignment then lhs.cWords ++ .op op.operator :: rhs.cWords
    else (Expr.binary op lhs rhs).cWords
  | expr => expr.cWords

/-- A text whose first character does not go on with an operator. -/
def BeginsOperand (text : List Char) : Prop :=
  ∃ c tail, text = c :: tail ∧ endsOperator c

theorem WordLike.beginsOperand {name : String} (hname : WordLike name) :
    BeginsOperand name.toList := by
  obtain ⟨c, tail, htext, hfirst, -⟩ := hname
  exact ⟨c, tail, htext, endsOperator_of_isIdentifierPart (isIdentifierPart_of_start hfirst)⟩

theorem Literal.beginsOperand_int {value : Int} (hvalue : 0 ≤ value) (mangling : Mangling) :
    BeginsOperand ((Literal.int value).emit mangling).toList := by
  obtain ⟨n, rfl⟩ := Int.eq_ofNat_of_zero_le hvalue
  obtain ⟨c, tail, htext, hfirst, -⟩ := exists_repr_cons n
  exact ⟨c, tail, htext, endsOperator_of_isIdentifierPart (isIdentifierPart_of_isDigit hfirst)⟩

/-- Marks that run into nothing, in the language and in C. -/
def Punct.standsAlone : Punct → Bool
  | .colon | .dot => false
  | _ => true

/-- What a reader makes of texts. Which character may stand behind a text is all that it asks
about what follows. -/
structure Lexicon where
  Writes : (Char → Bool) → List Char → List Word → Prop
  IsName : String → Prop
  IsLiteral : Literal → Prop
  append {ends stricter : Char → Bool} {first second : List Char} {words more : List Word}
    (hfirst : Writes ends first words) (hsecond : Writes stricter second more)
    (hmeet : ∃ c tail, second = c :: tail ∧ ends c) :
    Writes stricter (first ++ second) (words ++ more)
  name {name : String} (hname : IsName name) : Writes endsOperand name.toList [.name name]
  name_begins {name : String} (hname : IsName name) : BeginsOperand name.toList
  literal {value : Literal} (hvalue : IsLiteral value) (mangling : Mangling) :
    Writes endsOperand (value.emit mangling).toList [.literal value]
  literal_begins {value : Literal} (hvalue : IsLiteral value) (mangling : Mangling) :
    BeginsOperand (value.emit mangling).toList
  operator (operator : Operator) : Writes endsOperator operator.symbol.toList [.op operator]
  punct {mark : Punct} (hmark : mark.standsAlone) (ends : Char → Bool) :
    Writes ends [mark.char] [.punct mark]

/-- Every operator ends an operand. -/
theorem endsOperand_symbol (operator : Operator) :
    ∃ c tail, operator.symbol.toList = c :: tail ∧ endsOperand c := by
  cases operator <;> exact ⟨_, _, rfl, by decide⟩

namespace Lexicon

variable (lexicon : Lexicon)

/-- An expression in C of names and literals that a reader knows. -/
def Covers : Expr → Prop
  | .ident name => lexicon.IsName name
  | .literal value => lexicon.IsLiteral value
  | .binary _ lhs rhs => Covers lhs ∧ Covers rhs
  | .unary _ _ operand => Covers operand
  | .cast operand target => Covers operand ∧ lexicon.IsName target.text
  | .call _ _ _ => False

section Texts

variable {lexicon} {ends : Char → Bool} {inside left right : List Char}
  {words first second : List Word}

/-- A text in parentheses. -/
theorem group (hinside : lexicon.Writes ends inside words) (hclose : ends ')')
    (behind : Char → Bool) :
    lexicon.Writes behind ('(' :: (inside ++ [')'])) (groupWords words) := by
  have hopening := @lexicon.punct .lparen rfl fun _ => true
  have hclosing := @lexicon.punct .rparen rfl behind
  refine lexicon.append hopening (lexicon.append hinside hclosing ⟨')', [], rfl, hclose⟩) ?_
  cases inside with
  | nil => exact ⟨_, _, rfl, rfl⟩
  | cons c tail => exact ⟨_, _, rfl, rfl⟩

/-- An operator and the operand behind it. -/
theorem operator_operand (operator : Operator) (hright : lexicon.Writes endsOperand right second)
    (hbegins : BeginsOperand right) :
    lexicon.Writes endsOperand (operator.symbol.toList ++ right) (.op operator :: second) :=
  lexicon.append (lexicon.operator operator) hright hbegins

theorem binary (operator : Operator) (hleft : lexicon.Writes endsOperand left first)
    (hright : lexicon.Writes endsOperand right second) (hbegins : BeginsOperand right) :
    lexicon.Writes endsOperand (left ++ (operator.symbol.toList ++ right))
      (first ++ .op operator :: second) := by
  refine lexicon.append hleft (operator_operand operator hright hbegins) ?_
  obtain ⟨c, tail, hsymbol, hends⟩ := endsOperand_symbol operator
  exact ⟨c, tail ++ right, by simp [hsymbol], hends⟩

theorem trailing (operator : Operator) (hleft : lexicon.Writes endsOperand left first) :
    lexicon.Writes endsOperator (left ++ operator.symbol.toList) (first ++ [.op operator]) :=
  lexicon.append hleft (lexicon.operator operator) (endsOperand_symbol operator)

end Texts
end Lexicon

theorem exists_of_bind_eq_ok {ε α β : Type} {first : Except ε α} {next : α → Except ε β} {value : β}
    (hok : first >>= next = .ok value) :
    ∃ middle, first = .ok middle ∧ next middle = .ok value := by
  cases first with
  | error _ => cases hok
  | ok middle => exact ⟨middle, rfl, hok⟩

section Emission

variable {mangling : Mangling} {text : String}

theorem emitName_eq_ok {name : String} (hemit : emitName mangling name = .ok text) :
    name.toList.head? ≠ some '@' ∧ text = mangling.apply name := by
  unfold emitName at hemit
  split at hemit
  next => cases hemit
  next hforeign =>
    cases hemit
    exact ⟨hforeign, rfl⟩

/-- The text of a type is its name in C. -/
theorem Ty.emit_eq_ok {type : Ty} (hemit : type.emit mangling = .ok text) :
    type.inC mangling = .named text := by
  cases type with
  | builtin name =>
      rw [Ty.emit] at hemit
      split at hemit
      next cType hbuiltin =>
        cases hemit
        rw [Ty.inC, hbuiltin]
        rfl
      next => cases hemit
  | named name =>
      obtain ⟨-, rfl⟩ := emitName_eq_ok hemit
      rfl
  | generic base args => cases hemit

theorem Expr.emit_binary_eq_ok {op : BinaryOp} {lhs rhs : Expr}
    (hemit : (Expr.binary op lhs rhs).emit mangling = .ok text) :
    ∃ left right, lhs.emit mangling = .ok left ∧ rhs.emit mangling = .ok right ∧
      text.toList =
        '(' :: ((left.toList ++ (op.operator.symbol.toList ++ right.toList)) ++ [')']) := by
  obtain ⟨left, hleft, hemit⟩ := exists_of_bind_eq_ok hemit
  obtain ⟨right, hright, hemit⟩ := exists_of_bind_eq_ok hemit
  cases hemit
  exact ⟨left, right, hleft, hright, by simp [BinaryOp.symbol]⟩

theorem Expr.emit_leading_eq_ok {op : UnaryOp} {operand : Expr}
    (hemit : (Expr.unary op .before operand).emit mangling = .ok text) :
    ∃ inner, operand.emit mangling = .ok inner ∧
      text.toList = '(' :: ((op.operator.symbol.toList ++ inner.toList) ++ [')']) := by
  obtain ⟨inner, hinner, hemit⟩ := exists_of_bind_eq_ok hemit
  cases hemit
  exact ⟨inner, hinner, by simp [UnaryOp.symbol]⟩

theorem Expr.emit_trailing_eq_ok {op : UnaryOp} {operand : Expr}
    (hemit : (Expr.unary op .behind operand).emit mangling = .ok text) :
    ∃ inner, operand.emit mangling = .ok inner ∧
      text.toList = '(' :: ((inner.toList ++ op.operator.symbol.toList) ++ [')']) := by
  obtain ⟨inner, hinner, hemit⟩ := exists_of_bind_eq_ok hemit
  cases hemit
  exact ⟨inner, hinner, by simp [UnaryOp.symbol]⟩

theorem Expr.emit_cast_eq_ok {operand : Expr} {target : Ty}
    (hemit : (Expr.cast operand target).emit mangling = .ok text) :
    ∃ type inner, target.emit mangling = .ok type ∧ operand.emit mangling = .ok inner ∧
      text.toList = '(' :: (type.toList ++ [')']) ++ '(' :: (inner.toList ++ [')']) := by
  obtain ⟨type, htype, hemit⟩ := exists_of_bind_eq_ok hemit
  obtain ⟨inner, hinner, hemit⟩ := exists_of_bind_eq_ok hemit
  cases hemit
  exact ⟨type, inner, htype, hinner, by simp⟩

theorem Expr.emitStatement_eq_ok {expr : Expr} (hemit : expr.emitStatement mangling = .ok text) :
    (∃ op lhs rhs left right, expr = .binary op lhs rhs ∧ op.isAssignment ∧
      lhs.emit mangling = .ok left ∧ rhs.emit mangling = .ok right ∧
      text.toList = (left.toList ++ (op.operator.symbol.toList ++ right.toList)) ++ [';']) ∨
    (∃ inner, (expr.inC mangling).statementWords = (expr.inC mangling).cWords ∧
      expr.emit mangling = .ok inner ∧ text.toList = inner.toList ++ [';']) := by
  unfold emitStatement at hemit
  split at hemit
  next op lhs rhs =>
    by_cases hop : op.isAssignment
    · rw [if_pos hop] at hemit
      obtain ⟨left, hleft, hemit⟩ := exists_of_bind_eq_ok hemit
      obtain ⟨right, hright, hemit⟩ := exists_of_bind_eq_ok hemit
      cases hemit
      exact .inl ⟨op, lhs, rhs, left, right, rfl, hop, hleft, hright, by simp [BinaryOp.symbol]⟩
    · rw [if_neg hop] at hemit
      obtain ⟨inner, hinner, hemit⟩ := exists_of_bind_eq_ok hemit
      cases hemit
      exact .inr ⟨inner, by rw [Expr.inC, statementWords, if_neg hop], hinner, by simp⟩
  next hother =>
    obtain ⟨inner, hinner, hemit⟩ := exists_of_bind_eq_ok hemit
    cases hemit
    refine .inr ⟨inner, ?_, hinner, by simp⟩
    cases expr with
    | binary op lhs rhs => exact absurd rfl (hother op lhs rhs)
    | literal value => cases value <;> rfl
    | _ => rfl

end Emission

/-- The C text of an expression is read as its words, and no operator before it runs into it. -/
theorem Lexicon.writes_emitted (lexicon : Lexicon) (mangling : Mangling) :
    (expr : Expr) → lexicon.Covers (expr.inC mangling) →
      ∀ text, expr.emit mangling = .ok text →
        lexicon.Writes endsOperand text.toList (expr.inC mangling).cWords ∧
          BeginsOperand text.toList
  | .ident name, hcovers, text, hemit => by
      obtain ⟨-, rfl⟩ := emitName_eq_ok hemit
      exact ⟨lexicon.name hcovers, lexicon.name_begins hcovers⟩
  | .literal value, hcovers, text, hemit => by
      cases hemit
      cases value with
      | bool value => exact ⟨lexicon.name hcovers, lexicon.name_begins hcovers⟩
      | _ => exact ⟨lexicon.literal hcovers mangling, lexicon.literal_begins hcovers mangling⟩
  | .binary op lhs rhs, hcovers, text, hemit => by
      obtain ⟨left, right, hleft, hright, htext⟩ := Expr.emit_binary_eq_ok hemit
      obtain ⟨hfirst, -⟩ := lexicon.writes_emitted mangling lhs hcovers.1 left hleft
      obtain ⟨hsecond, hbegins⟩ := lexicon.writes_emitted mangling rhs hcovers.2 right hright
      have hinside := binary op.operator hfirst hsecond hbegins
      rw [htext]
      exact ⟨group hinside (by decide) endsOperand, _, _, rfl, by decide⟩
  | .unary op .before operand, hcovers, text, hemit => by
      obtain ⟨inner, hinner, htext⟩ := Expr.emit_leading_eq_ok hemit
      obtain ⟨hoperand, hbegins⟩ := lexicon.writes_emitted mangling operand hcovers inner hinner
      have hinside := operator_operand op.operator hoperand hbegins
      rw [htext]
      exact ⟨group hinside (by decide) endsOperand, _, _, rfl, by decide⟩
  | .unary op .behind operand, hcovers, text, hemit => by
      obtain ⟨inner, hinner, htext⟩ := Expr.emit_trailing_eq_ok hemit
      obtain ⟨hoperand, -⟩ := lexicon.writes_emitted mangling operand hcovers inner hinner
      have hinside := trailing op.operator hoperand
      rw [htext]
      exact ⟨group hinside (by decide) endsOperand, _, _, rfl, by decide⟩
  | .cast operand target, hcovers, text, hemit => by
      obtain ⟨type, inner, htype, hinner, htext⟩ := Expr.emit_cast_eq_ok hemit
      obtain ⟨hoperand, -⟩ := lexicon.writes_emitted mangling operand hcovers.1 inner hinner
      have hname : lexicon.IsName type := by
        have htarget := hcovers.2
        rwa [Ty.emit_eq_ok htype] at htarget
      have htypes := group (lexicon.name hname) (by decide) (fun _ => true)
      have hvalue := group hoperand (by decide) endsOperand
      rw [htext, Expr.inC, Ty.emit_eq_ok htype]
      exact ⟨lexicon.append htypes hvalue ⟨_, _, rfl, rfl⟩, _, _, rfl, by decide⟩
  | .call _ _ _, hcovers, _, _ => hcovers.elim

theorem Lexicon.writes_emittedStatement (lexicon : Lexicon) (mangling : Mangling) {expr : Expr}
    (hcovers : lexicon.Covers (expr.inC mangling)) {text : String}
    (hemit : expr.emitStatement mangling = .ok text) :
    lexicon.Writes (fun _ => true) text.toList
      ((expr.inC mangling).statementWords ++ [.punct .semicolon]) := by
  have hend := @lexicon.punct .semicolon rfl fun _ => true
  rcases Expr.emitStatement_eq_ok hemit with
    ⟨op, lhs, rhs, left, right, rfl, hop, hleft, hright, htext⟩ | ⟨inner, hwords, hinner, htext⟩
  · obtain ⟨hfirst, -⟩ := lexicon.writes_emitted mangling lhs hcovers.1 left hleft
    obtain ⟨hsecond, hbegins⟩ := lexicon.writes_emitted mangling rhs hcovers.2 right hright
    rw [htext, Expr.inC, Expr.statementWords, if_pos hop]
    exact lexicon.append (binary op.operator hfirst hsecond hbegins) hend ⟨_, _, rfl, by decide⟩
  · obtain ⟨hexpr, -⟩ := lexicon.writes_emitted mangling expr hcovers inner hinner
    rw [htext, hwords]
    exact lexicon.append hexpr hend ⟨_, _, rfl, by decide⟩

end KCompiler
