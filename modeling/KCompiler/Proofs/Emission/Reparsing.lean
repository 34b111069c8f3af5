import KCompiler.Proofs.Emission.Lexicon
import KCompiler.Proofs.RoundTrip.Expression

/-! # Emitted expressions are expressions of the language

Without casts, calls and floats, the C text of an expression is a text of the language too. It is
lexed and parsed to the expression that was emitted, in the names of C.
-/

namespace KCompiler

open Scan

/-- Literals that C and the language write alike. -/
def Literal.Plain : Literal → Prop
  | .int value => 0 ≤ value ∧ value ≤ Number.maxInteger
  | .float _ => False
  | .string value => ∀ c ∈ value.toList, isPlain c
  | .char value => isPlain value
  | .bool _ => True

/-- Expressions that C and the language write alike. Their names are words that nothing is
reserved for. -/
def Expr.Plain : Expr → Prop
  | .ident name =>
    WordLike name ∧ name.toList.head? ≠ some '@' ∧ Kind.ofWord? name = none
  | .literal value => value.Plain
  | .binary _ lhs rhs => lhs.Plain ∧ rhs.Plain
  | .unary op side operand => op.standsOn side ∧ operand.Plain
  | .cast _ _ => False
  | .call _ _ _ => False

def Literal.isBool : Literal → Bool
  | .bool _ => true
  | _ => false

/-- The lexer of the language as a reader of C texts. -/
def Lexicon.language : Lexicon where
  Writes := KCompiler.Writes
  IsName name := WordLike name ∧ Kind.ofWord? name = none
  IsLiteral value := value.Plain ∧ value.isBool = false
  append := KCompiler.Writes.append
  name hname := writes_name hname.1 hname.2
  name_begins hname := hname.1.beginsOperand
  literal {value} hvalue mangling := by
    cases value with
    | int value =>
        obtain ⟨n, rfl⟩ := Int.eq_ofNat_of_zero_le hvalue.1.1
        exact writes_int (by exact_mod_cast hvalue.1.2)
    | float value => exact hvalue.1.elim
    | string value => exact writes_string hvalue.1 _
    | char value => exact writes_char hvalue.1 _
    | bool value => cases hvalue.2
  literal_begins {value} hvalue mangling := by
    cases value with
    | int value => exact Literal.beginsOperand_int hvalue.1.1 mangling
    | float value => exact hvalue.1.elim
    | string value => exact ⟨_, _, toList_stringText value, by decide⟩
    | char value => exact ⟨_, _, toList_charText value, by decide⟩
    | bool value => cases hvalue.2
  operator := writes_operator
  punct {mark} _ ends := writes_punct mark ends

/-- Nothing keeps a plain expression from being emitted. -/
theorem Expr.Plain.emits (mangling : Mangling) :
    (expr : Expr) → expr.Plain → ∃ text, expr.emit mangling = .ok text
  | .ident name, hplain => ⟨_, by rw [Expr.emit, emitName, if_neg hplain.2.1]⟩
  | .literal value, _ => ⟨_, rfl⟩
  | .binary op lhs rhs, hplain => by
      obtain ⟨left, hleft⟩ := emits mangling lhs hplain.1
      obtain ⟨right, hright⟩ := emits mangling rhs hplain.2
      exact ⟨_, by rw [Expr.emit, hleft, hright]; rfl⟩
  | .unary op .before operand, hplain | .unary op .behind operand, hplain => by
      obtain ⟨inner, hinner⟩ := emits mangling operand hplain.2
      exact ⟨_, by rw [Expr.emit, hinner]; rfl⟩

theorem Expr.Plain.covers (mangling : Mangling) :
    (expr : Expr) → expr.Plain → Lexicon.language.Covers (expr.inC mangling)
  | .ident _, hplain => ⟨hplain.1.apply mangling, Kind.ofWord?_apply hplain.2.2 mangling⟩
  | .literal value, hplain => by
      cases value with
      | bool value =>
          refine ⟨(wordLike_truth value).apply mangling, Kind.ofWord?_apply ?_ mangling⟩
          cases value <;> decide
      | _ => exact ⟨hplain, rfl⟩
  | .binary _ lhs rhs, hplain =>
      ⟨covers mangling lhs hplain.1, covers mangling rhs hplain.2⟩
  | .unary _ _ operand, hplain => covers mangling operand hplain.2

/-- Without casts, the words of C are those of the language. -/
theorem Expr.Plain.cWords_eq (mangling : Mangling) :
    (expr : Expr) → expr.Plain → (expr.inC mangling).cWords = (expr.inC mangling).words
  | .ident _, _ => rfl
  | .literal value, _ => by cases value <;> rfl
  | .binary _ lhs rhs, hplain => by
      rw [Expr.inC, Expr.cWords, Expr.words, cWords_eq mangling lhs hplain.1,
        cWords_eq mangling rhs hplain.2]
  | .unary _ .before operand, hplain | .unary _ .behind operand, hplain => by
      rw [Expr.inC, Expr.cWords, Expr.words, cWords_eq mangling operand hplain.2]

theorem Expr.Plain.wellFormed (mangling : Mangling) :
    (expr : Expr) → expr.Plain → (expr.inC mangling).WellFormed
  | .ident _, _ => trivial
  | .literal value, _ => by cases value <;> trivial
  | .binary _ lhs rhs, hplain =>
      ⟨wellFormed mangling lhs hplain.1, wellFormed mangling rhs hplain.2⟩
  | .unary _ _ operand, hplain => ⟨hplain.1, wellFormed mangling operand hplain.2⟩

/-- A plain expression is emitted, and its C text is lexed and parsed without a finding to the
expression in the names of C. -/
theorem parseExpression_emitted (mangling : Mangling) {expr : Expr} (hplain : expr.Plain) :
    ∃ text, expr.emit mangling = .ok text ∧ (lex text).findings = [] ∧
      parseExpression (lex text).tokens = ⟨expr.inC mangling, []⟩ := by
  obtain ⟨text, hemit⟩ := Expr.Plain.emits mangling expr hplain
  obtain ⟨hwrites, -⟩ := Lexicon.language.writes_emitted mangling expr
    (Expr.Plain.covers mangling expr hplain) text hemit
  rw [Expr.Plain.cWords_eq mangling expr hplain] at hwrites
  obtain ⟨tokens, eof, htokens, heof, hlex⟩ := Writes.lex_eq hwrites
  refine ⟨text, hemit, by rw [hlex], ?_⟩
  rw [hlex]
  exact parseExpression_printed (Expr.Plain.wellFormed mangling expr hplain) htokens heof

/-- Signs that would run together without the parentheses, and quotes within quotes. -/
theorem parseExpression_emitted_signs :
    let negated := Expr.unary .neg .before (.unary .dec .before (.unary .inc .behind (.ident "a@")))
    let quotes := Expr.binary .div (.literal (.string "\"\n'\\")) (.literal (.char '\''))
    let expr := Expr.binary .shlAssign negated (.binary .sub quotes (.literal (.bool true)))
    expr.Plain ∧ ∃ text, expr.emit .on = .ok text ∧ (lex text).findings = [] ∧
      parseExpression (lex text).tokens = ⟨expr.inC .on, []⟩ := by
  intro negated quotes expr
  have hname : (Expr.ident "a@").Plain := ⟨by decide, by decide, by decide⟩
  have htext : ∀ c ∈ "\"\n'\\".toList, isPlain c := List.all_eq_true.mp rfl
  have hquotes : quotes.Plain := ⟨htext, show isPlain '\'' by decide⟩
  have hplain : expr.Plain := ⟨⟨rfl, rfl, rfl, hname⟩, hquotes, trivial⟩
  exact ⟨hplain, parseExpression_emitted .on hplain⟩

end KCompiler
