import KCompiler.Emit.Statement
import KCompiler.Proofs.Lexing.Spelling

/-! # Expressions in the names of C

C knows an expression by other names: names carry their mark, truth values are the names of two
macros, and builtin types have C types. The operators stay what they are.
-/

namespace KCompiler

/-- A type by its name in C. One that is applied to others has none. -/
def Ty.inC (mangling : Mangling) : Ty → Ty
  | .builtin name => .named ((builtinCType? name).getD name)
  | .named name => .named (mangling.apply name)
  | .generic base args => .generic base args

def Literal.inC (mangling : Mangling) : Literal → Expr
  | .bool value => .ident (mangling.apply (if value then "TRUE" else "FALSE"))
  | value => .literal value

/-- An expression by its names in C. Calls are left alone: they are not emitted. -/
def Expr.inC (mangling : Mangling) : Expr → Expr
  | .ident name => .ident (mangling.apply name)
  | .literal value => value.inC mangling
  | .binary op lhs rhs => .binary op (lhs.inC mangling) (rhs.inC mangling)
  | .unary op side operand => .unary op side (operand.inC mangling)
  | .cast operand target => .cast (operand.inC mangling) (target.inC mangling)
  | .call callee typeArgs args => .call callee typeArgs args

variable {name : String}

theorem WordLike.apply (hname : WordLike name) (mangling : Mangling) :
    WordLike (mangling.apply name) := by
  cases mangling with
  | off => exact hname
  | on =>
      refine ⟨'k', '_' :: name.toList, by simp [Mangling.apply, Mangling.mark], by decide, ?_⟩
      exact List.forall_mem_cons.mpr ⟨by decide, hname.isIdentifierPart⟩

/-- No word of the language carries the mark of names. -/
theorem Kind.ofWord?_mark (name : String) : Kind.ofWord? (Mangling.mark ++ name) = none := by
  have hsecond : (Mangling.mark ++ name).toList.head? = some 'k' := by simp [Mangling.mark]
  have hkeywords : Keyword.all.find? (·.symbol = Mangling.mark ++ name) = none := by
    refine List.find?_eq_none.mpr fun word _ hsymbol => ?_
    rw [← decide_eq_true_eq.mp hsymbol] at hsecond
    revert hsecond
    cases word <;> decide
  have hbuiltins : Builtin.all.find? (·.symbol = Mangling.mark ++ name) = none := by
    refine List.find?_eq_none.mpr fun type _ hsymbol => ?_
    rw [← decide_eq_true_eq.mp hsymbol] at hsecond
    revert hsecond
    cases type <;> decide
  simp [Kind.ofWord?, hkeywords, hbuiltins]

theorem Kind.ofWord?_apply (hword : Kind.ofWord? name = none) (mangling : Mangling) :
    Kind.ofWord? (mangling.apply name) = none := by
  cases mangling with
  | off => exact hword
  | on => exact Kind.ofWord?_mark name

/-- The name of the macro for a truth value. -/
theorem wordLike_truth (value : Bool) : WordLike (if value then "TRUE" else "FALSE") := by
  cases value <;> decide

end KCompiler
