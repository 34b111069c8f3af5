import KCompiler.Proofs.CReader.Reading
import KCompiler.Proofs.CReader.Spelling
import KCompiler.Proofs.Trees.Expressions
import KCompiler.Proofs.Trees.Source

/-! # What C makes of emitted expressions

C reads the text of an expression as the expression in the names of C, with one exception. A cast
is emitted without parentheses around it, so that C takes an operator behind it for one behind the
operand of the cast.
-/

namespace KCompiler

def Literal.isFloat : Literal → Bool
  | .float _ => true
  | _ => false

mutual
/-- A float stands somewhere in an expression. -/
def Expr.hasFloat : Expr → Bool
  | .ident _ => false
  | .literal value => value.isFloat
  | .binary _ lhs rhs => lhs.hasFloat || rhs.hasFloat
  | .unary _ _ operand => operand.hasFloat
  | .cast operand _ => operand.hasFloat
  | .call callee _ args => callee.hasFloat || Expr.anyHasFloat args

def Expr.anyHasFloat : List Expr → Bool
  | [] => false
  | expr :: exprs => expr.hasFloat || Expr.anyHasFloat exprs
end

/-- An operator stands behind a cast somewhere in an expression. Calls are not emitted, and
nothing is looked for in them. -/
def Expr.trailsCast : Expr → Bool
  | .unary _ .behind operand => operand.isCast || operand.trailsCast
  | .unary _ .before operand => operand.trailsCast
  | .binary _ lhs rhs => lhs.trailsCast || rhs.trailsCast
  | .cast operand _ => operand.trailsCast
  | .ident _ | .literal _ | .call _ _ _ => false

/-- Operators behind casts are all that C groups in another way. -/
theorem Expr.regrouped_eq_self_iff : (expr : Expr) → expr.regrouped = expr ↔ expr.trailsCast = false
  | .ident _ | .literal _ | .call _ _ _ => ⟨fun _ => rfl, fun _ => rfl⟩
  | .binary op lhs rhs => by
      rw [Expr.regrouped, Expr.trailsCast, Bool.or_eq_false_iff, ← regrouped_eq_self_iff lhs,
        ← regrouped_eq_self_iff rhs, Expr.binary.injEq]
      exact and_iff_right rfl
  | .unary op .before operand => by
      rw [Expr.regrouped, Expr.trailsCast, ← regrouped_eq_self_iff operand, Expr.unary.injEq]
      · simp
      · simp
  | .unary op .behind operand => by
      have hoperand := regrouped_eq_self_iff operand
      cases hcast : operand.isCast with
      | true =>
          cases operand with
          | cast inner target => simp [Expr.regrouped, Expr.trailsCast, Expr.isCast]
          | _ => cases hcast
      | false =>
          rw [C.regrouped_trailing hcast, Expr.trailsCast, hcast, Bool.false_or, ← hoperand,
            Expr.unary.injEq]
          simp
  | .cast operand target => by
      rw [Expr.regrouped, Expr.trailsCast, ← regrouped_eq_self_iff operand, Expr.cast.injEq]
      exact and_iff_left rfl

section InC

variable (mangling : Mangling)

theorem Expr.isCast_inC (expr : Expr) : (expr.inC mangling).isCast = expr.isCast := by
  cases expr with
  | literal value => cases value <;> rfl
  | _ => rfl

theorem Expr.trailsCast_inC : (expr : Expr) → (expr.inC mangling).trailsCast = expr.trailsCast
  | .ident _ | .call _ _ _ => rfl
  | .literal value => by cases value <;> rfl
  | .binary op lhs rhs => by
      rw [Expr.inC, Expr.trailsCast, trailsCast_inC lhs, trailsCast_inC rhs, Expr.trailsCast]
  | .unary op .before operand => by
      rw [Expr.inC, Expr.trailsCast, trailsCast_inC operand, Expr.trailsCast]
  | .unary op .behind operand => by
      rw [Expr.inC, Expr.trailsCast, Expr.isCast_inC, trailsCast_inC operand, Expr.trailsCast]
  | .cast operand target => by
      rw [Expr.inC, Expr.trailsCast, trailsCast_inC operand, Expr.trailsCast]

end InC

/-! ## Emitted expressions are readable -/

theorem wordLike_cType (type : Builtin) : WordLike type.cType := by
  cases type <;> decide

section Readable

variable {mangling : Mangling} {text : String}

theorem Ty.wordLike_of_emit {type : Ty} (hover : type.Over .source)
    (hemit : type.emit mangling = .ok text) : WordLike text := by
  cases type with
  | builtin name =>
      rw [Ty.emit] at hemit
      split at hemit
      next cType hbuiltin =>
        cases hemit
        obtain ⟨builtin, -, rfl⟩ := Option.map_eq_some_iff.mp hbuiltin
        exact wordLike_cType builtin
      next => cases hemit
  | named name =>
      obtain ⟨-, rfl⟩ := emitName_eq_ok hemit
      exact WordLike.apply hover mangling
  | generic base args => cases hemit

/-- C knows all names and literals of an expression of a source that is emitted, and such an
expression has neither calls nor types that are no names. -/
theorem Expr.covers_of_emit : (expr : Expr) → expr.Fits .source → expr.hasFloat = false →
    ∀ text, expr.emit mangling = .ok text →
      Lexicon.c.Covers (expr.inC mangling) ∧ (expr.inC mangling).Readable
  | .ident name, hfits, _, _, _ => ⟨WordLike.apply hfits.2 mangling, trivial⟩
  | .literal value, hfits, hfloat, _, _ => by
      cases value with
      | int value | string value => exact ⟨hfits.2, trivial⟩
      | char value => exact ⟨trivial, trivial⟩
      | bool value => exact ⟨(wordLike_truth value).apply mangling, trivial⟩
      | float value => cases hfloat
  | .binary op lhs rhs, hfits, hfloat, text, hemit => by
      obtain ⟨left, right, hleft, hright, -⟩ := Expr.emit_binary_eq_ok hemit
      obtain ⟨hfirst, hsecond⟩ := Bool.or_eq_false_iff.mp hfloat
      have hlhs := covers_of_emit lhs ⟨hfits.1.1, hfits.2.1⟩ hfirst left hleft
      have hrhs := covers_of_emit rhs ⟨hfits.1.2, hfits.2.2⟩ hsecond right hright
      exact ⟨⟨hlhs.1, hrhs.1⟩, hlhs.2, hrhs.2⟩
  | .unary op .before operand, hfits, hfloat, text, hemit => by
      obtain ⟨inner, hinner, -⟩ := Expr.emit_leading_eq_ok hemit
      have hoperand := covers_of_emit operand ⟨hfits.1.2, hfits.2⟩ hfloat inner hinner
      exact ⟨hoperand.1, hfits.1.1, hoperand.2⟩
  | .unary op .behind operand, hfits, hfloat, text, hemit => by
      obtain ⟨inner, hinner, -⟩ := Expr.emit_trailing_eq_ok hemit
      have hoperand := covers_of_emit operand ⟨hfits.1.2, hfits.2⟩ hfloat inner hinner
      exact ⟨hoperand.1, hfits.1.1, hoperand.2⟩
  | .cast operand target, hfits, hfloat, text, hemit => by
      obtain ⟨type, inner, htype, hinner, -⟩ := Expr.emit_cast_eq_ok hemit
      have hoperand := covers_of_emit operand ⟨hfits.1.1, hfits.2.1⟩ hfloat inner hinner
      have hname := Ty.wordLike_of_emit hfits.2.2 htype
      rw [Expr.inC, Ty.emit_eq_ok htype]
      exact ⟨⟨hoperand.1, hname⟩, hoperand.2, type, rfl⟩
  | .call _ _ _, _, _, _, hemit => by cases hemit

theorem C.Writes.words?_eq {ends : Char → Bool} {text : List Char} {words : List Word}
    (hwrites : C.Writes ends text words) : C.words? text = some words := by
  have hwords := hwrites [] (by simp)
  rw [List.append_nil, C.words?] at hwords
  simpa using hwords

variable {expr : Expr} (hfits : expr.Fits .source) (hfloat : expr.hasFloat = false)

include hfits hfloat

theorem readExpression_of_emit (hemit : expr.emit mangling = .ok text) :
    C.readExpression text = some (expr.inC mangling).regrouped := by
  obtain ⟨hcovers, hreadable⟩ := expr.covers_of_emit hfits hfloat text hemit
  obtain ⟨hwrites, -⟩ := Lexicon.c.writes_emitted mangling expr hcovers text hemit
  exact C.readExpression_eq hreadable (C.Writes.words?_eq hwrites)

theorem readStatement_of_emit (hemit : expr.emitStatement mangling = .ok text) :
    C.readStatement text = some (expr.inC mangling).regrouped := by
  obtain ⟨inner, hinner⟩ : ∃ inner, expr.emit mangling = .ok inner := by
    rcases Expr.emitStatement_eq_ok hemit with
      ⟨op, lhs, rhs, left, right, rfl, -, hleft, hright, -⟩ | ⟨inner, -, hinner, -⟩
    · exact ⟨_, by rw [Expr.emit, hleft, hright]; rfl⟩
    · exact ⟨inner, hinner⟩
  obtain ⟨hcovers, hreadable⟩ := expr.covers_of_emit hfits hfloat inner hinner
  have hwrites := Lexicon.c.writes_emittedStatement mangling hcovers hemit
  exact C.readStatement_eq hreadable (C.Writes.words?_eq hwrites)

end Readable

/-- C reads every expression of a source without floats, alone or as a statement, as it groups it.
That is the expression in the names of C exactly if no operator stands behind a cast in it.

The reader goes by the grammar of C expressions, with three conventions. It knows no type names: a
name in parentheses is a type if an operand begins behind it. It knows no reserved words: each word
is a name, also one that C keeps for itself. And it lets any operand stand left of an assignment, a
cast as well, although C wants something there that can be assigned to. -/
theorem read_emitted_eq_regrouped (source : String) (mangling : Mangling) {expr : Expr}
    (hmem : expr ∈ (parseModule (lex source).tokens).value.expressions)
    (hfloat : expr.hasFloat = false) :
    (∀ text, expr.emit mangling = .ok text →
      C.readExpression text = some (expr.inC mangling).regrouped) ∧
    (∀ text, expr.emitStatement mangling = .ok text →
      C.readStatement text = some (expr.inC mangling).regrouped) ∧
    ((expr.inC mangling).regrouped = expr.inC mangling ↔ expr.trailsCast = false) := by
  have hfits : expr.Fits .source := (parseModule_lex_fits source).expressions expr hmem
  refine ⟨fun _ => readExpression_of_emit hfits hfloat, fun _ => readStatement_of_emit hfits hfloat,
    ?_⟩
  rw [Expr.regrouped_eq_self_iff, Expr.trailsCast_inC]

/-- Casts before and behind operators, and within each other, in an assignment. -/
theorem read_emitted_eq_regrouped_casts :
    let source := "mod m\nx = -(y++ as _Long) << ('a' as _Int as T)\n"
    let lhs := Expr.unary .neg .before (.cast (.unary .inc .behind (.ident "y")) (.builtin "_Long"))
    let rhs := Expr.cast (.cast (.literal (.char 'a')) (.builtin "_Int")) (.named "T")
    let expr := Expr.binary .assign (.ident "x") (.binary .shl lhs rhs)
    let text := "x=((-(int64_t)((y++)))<<(T)((int32_t)('a')));"
    expr ∈ (parseModule (lex source).tokens).value.expressions ∧ expr.hasFloat = false ∧
      expr.emitStatement .off = .ok text ∧ C.readStatement text = some (expr.inC .off) := by
  have hconclude {source text : String} {expr : Expr} (hfloat : expr.hasFloat = false)
      (hcast : expr.trailsCast = false) (hemit : expr.emitStatement .off = .ok text)
      (hmodule : (parseModule (lex source).tokens).value = ⟨"m", [.expr expr]⟩) :
      expr ∈ (parseModule (lex source).tokens).value.expressions ∧ expr.hasFloat = false ∧
        expr.emitStatement .off = .ok text ∧ C.readStatement text = some (expr.inC .off) := by
    have hmem : expr ∈ (parseModule (lex source).tokens).value.expressions :=
      Module.mem_expressions (by simp [hmodule])
    obtain ⟨-, hstatement, hgroups⟩ := read_emitted_eq_regrouped source .off hmem hfloat
    exact ⟨hmem, hfloat, hemit, by rw [hstatement text hemit, hgroups.mpr hcast]⟩
  exact hconclude rfl rfl (by rfl) (by with_unfolding_all rfl)

/-- C takes the operator behind a cast for one behind its operand. -/
theorem read_emitted_trailed_cast :
    let source := "mod m\n(x as _Int)++\n"
    let expr := Expr.unary .inc .behind (.cast (.ident "x") (.builtin "_Int"))
    let other := Expr.cast (.unary .inc .behind (.ident "x")) (.named "int32_t")
    (lex source).findings = [] ∧ (parseModule (lex source).tokens).findings = [] ∧
      (parseModule (lex source).tokens).value = ⟨"m", [.expr expr]⟩ ∧
      expr.emit .off = .ok "((int32_t)(x)++)" ∧
      C.readExpression "((int32_t)(x)++)" = some other ∧ other ≠ expr.inC .off := by
  refine ⟨by decide +kernel, by decide +kernel, by with_unfolding_all rfl, by rfl, ?_, nofun⟩
  have hname : WordLike "x" := by decide
  have htype : WordLike "_Int" := by decide
  have hfits : (Expr.unary .inc .behind (.cast (.ident "x") (.builtin "_Int"))).Fits .source :=
    ⟨⟨rfl, trivial, trivial⟩, hname, htype⟩
  exact @readExpression_of_emit .off _ _ hfits rfl (by rfl)

end KCompiler
