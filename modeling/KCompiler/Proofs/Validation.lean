import KCompiler.Proofs.Equations
import KCompiler.Proofs.Outcome

/-! # Declarations pass their checks

A record or a function is checked when it is made. The parsers drop the modifiers that do not suit
it before that, so that the check is always passed and the parsers can be read without it.
-/

namespace KCompiler

open Grammar Outcome

variable {eof : Token} {scope : Scope} {modifiers : Modifiers} {start : Span} {input : List Token}

theorem Stmt.validate_record {head : RecordHead} (methods : List FunctionDecl)
    (hallowed : Allowed head.modifiers head.scope .record) :
    (Stmt.record head methods).validate = .ok (.record head methods) := by
  simp [Stmt.validate, RecordHead.validate, Modifiers.validate_of_allowed hallowed, Except.map]

theorem FunctionDecl.validate_mk {signature : Signature} (body : List Stmt)
    (hallowed : Allowed signature.modifiers signature.scope .function) :
    (FunctionDecl.mk signature body).validate = .ok ⟨signature, body⟩ := by
  simp [FunctionDecl.validate, Signature.validate, Modifiers.validate_of_allowed hallowed,
    Except.map]

/-- The check of a record that is about to be made. -/
theorem validate_makeRecord (scope : Scope) (modifiers : Modifiers) (start finish : Span)
    (type : Ty) (members : List Member) :
    (makeRecord scope modifiers start finish type members).1.validate =
      .ok (makeRecord scope modifiers start finish type members).1 :=
  Stmt.validate_record _ (allowed_allowed modifiers scope .record)

theorem scope_of_signature {declared : Signature}
    (hvalue : (signature eof scope modifiers input).value = some declared) :
    declared.scope = scope := by
  rw [signature_def] at hvalue
  obtain ⟨name, rest, -, hvalue⟩ := exists_of_value_expecting hvalue
  obtain ⟨generics, -, hvalue, -⟩ := exists_of_value_andThen hvalue
  obtain ⟨params, -, hvalue, -⟩ := exists_of_value_andThen hvalue
  obtain ⟨returnType, -, rfl⟩ := Option.map_eq_some_iff.mp hvalue
  rfl

/-- The check of a function that is about to be made. -/
theorem validate_signature {declared : Signature}
    (hvalue : (signature eof scope modifiers input).value = some declared) (body : List Stmt) :
    let decl : FunctionDecl :=
      ⟨{ declared with modifiers := modifiers.allowed scope .function }, body⟩
    decl.validate = .ok decl := by
  apply FunctionDecl.validate_mk
  rw [scope_of_signature hvalue]
  exact allowed_allowed modifiers scope .function

/-- A record, without the check. -/
theorem record_eq :
    record eof scope modifiers start input =
      (typeExpr eof input).andThen fun type rest _ =>
      Outcome.within (skipNewlines_suffix rest) <|
      expecting eof (.punct .lbrace) (skipNewlines rest) fun _ inner _ =>
      (members eof inner).andThen fun members rest _ =>
      expecting eof (.punct .rbrace) rest fun brace _ _ =>
        let (stmt, findings) := makeRecord scope modifiers start brace.span type members
        (Outcome.done stmt).reporting findings := by
  rw [record_def]
  simp only [validate_makeRecord, accepted]

/-- A function, without the check. -/
theorem function_eq :
    function eof scope modifiers start input =
      (signature eof scope modifiers input).andThen fun signature rest _ =>
      (block eof rest).andThen fun body _ _ =>
      (Outcome.done
        ⟨{ signature with modifiers := modifiers.allowed scope .function }, body⟩).reporting
          (refusals modifiers scope .function start) := by
  rw [function_def]
  apply andThen_congr
  intro declared hvalue _
  simp only [validate_signature hvalue, accepted]

end KCompiler
