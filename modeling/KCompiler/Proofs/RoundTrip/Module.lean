import KCompiler.Proofs.RoundTrip.Statement
import KCompiler.Token.Lexer

/-! # Parsing undoes printing

A well-formed module that is printed and parsed again is the same module, and the only remarks
are about its records without members. The proof is by induction over the statements of the
module and all that they hold.
-/

namespace KCompiler

open Outcome

section Programs

variable (eof : Token)

mutual
theorem stmt_restores (scope : Scope) :
    (stmt : Stmt) → stmt.WellFormed scope →
      RestoresLine (statement eof scope) stmt.words stmt (remarks stmt.emptyRecords)
  | .expr value, hwell => exprStmt_restores eof scope hwell
  | .variable decl, hwell => variableStmt_restores eof hwell
  | .typeAlias target name, hwell => by
      refine keyword_restores .empty rfl ?_
      intro start tokens newline rest htokens _ _
      exact typeAlias_restores eof hwell (fun _ => true) name newline rest htokens rfl
  | .record head methods, hwell => by
      refine keyword_restores head.modifiers rfl ?_
      intro start tokens newline rest htokens _ _
      have hmethods := methods_restore methods hwell.2
      exact record_yields hwell.1 hmethods start htokens
  | .branch condition body none, hwell => by
      refine keyword_restores .empty rfl ?_
      intro start tokens newline rest htokens hnewline helse
      have hbody := stmts_restore .block true body hwell.2
      rw [← afterElse?_newline hnewline] at helse
      exact branch_yields_none hwell.1 hbody helse htokens
  | .branch condition body (some otherwise), hwell => by
      refine keyword_restores .empty rfl ?_
      intro start tokens newline rest htokens _ _
      have hbody := stmts_restore .block true body hwell.2.1
      have hother := stmts_restore .block true otherwise hwell.2.2
      rw [Stmt.emptyRecords, remarks_append]
      exact branch_yields_some hwell.1 hbody hother htokens
  | .loop condition body, hwell => by
      refine keyword_restores .empty rfl ?_
      intro start tokens newline rest htokens _ _
      obtain ⟨front, back, rfl, hfront, hback⟩ := spells_append.mp htokens
      have hbody := block_yields (stmts_restore .block true body hwell.2) hback (newline :: rest)
      rw [List.append_assoc, keywordStatement]
      refine (condition_yields hwell.1 hfront hback).andThen fun _ => ?_
      exact hbody.map _
  | .defer body, hwell => by
      refine keyword_restores .empty rfl ?_
      intro start tokens newline rest htokens _ _
      exact (block_yields (stmts_restore .block true body hwell) htokens _).map _
  | .break, _ | .continue, _ => by
      refine keyword_restores .empty rfl ?_
      intro start tokens newline rest htokens _ _
      obtain rfl := spells_nil.mp htokens
      exact yields_done _
  | .function ⟨declared, body⟩, hwell => by
      refine keyword_restores declared.modifiers rfl ?_
      intro start tokens newline rest htokens _ _
      have hbody := stmts_restore .block true body hwell.2
      exact (function_yields hwell.1 hbody start htokens).map _

theorem stmts_restore (scope : Scope) (inBlock : Bool) :
    (stmts : List Stmt) → Stmt.AllWellFormed scope stmts → ∀ tokens rest,
      Spells tokens (Stmt.lines stmts) → Stops inBlock rest →
        (statements eof scope inBlock (tokens ++ rest)).Yields stmts rest
          (remarks (Stmt.allEmptyRecords stmts))
  | [], _ => by
      intro tokens rest htokens hstops
      obtain rfl := spells_nil.mp htokens
      exact (statements_loop eof scope inBlock).yields_nil hstops
  | stmt :: stmts, hwell => by
      intro tokens rest htokens hstops
      obtain ⟨front, _, rfl, hfront, htokens⟩ := spells_append.mp htokens
      obtain ⟨newline, back, rfl, hnewline, hback⟩ := spells_cons.mp htokens
      rw [Word.spelt_newline] at hnewline
      have hmore := stmts_restore scope inBlock stmts hwell.2 back rest hback hstops
      -- The next line is another statement or the end of them all: no `else` begins it.
      have helse : afterElse? (back ++ rest) = none := by
        cases stmts with
        | nil =>
            obtain rfl := spells_nil.mp hback
            exact afterElse?_of_stops hstops
        | cons next stmts => exact afterElse?_of_begins (next.startsStatement_words.append _) hback
      have hstmt := stmt_restores scope stmt hwell.1 newline (back ++ rest) hfront hnewline helse
      obtain ⟨token, more, rfl, hkind⟩ := stmt.startsStatement_words.exists_cons hfront
      rw [List.append_assoc, List.cons_append, Stmt.allEmptyRecords, remarks_append]
      exact (statements_loop eof scope inBlock).yields_cons hkind hnewline hstmt hmore

theorem methods_restore :
    (methods : List FunctionDecl) → FunctionDecl.AllWellFormed .method methods →
      RestoresMethods eof methods (remarks (FunctionDecl.allEmptyRecords methods))
  | [], _ => by
      intro tokens token rest htokens hkind
      obtain rfl := spells_nil.mp htokens
      exact (members_loop eof).yields_nil ⟨rfl, hkind⟩
  | ⟨declared, body⟩ :: methods, hwell => by
      intro tokens last rest htokens hlast
      obtain ⟨front, _, rfl, hfront, htokens⟩ := spells_append.mp htokens
      obtain ⟨newline, back, rfl, hnewline, hback⟩ := spells_cons.mp htokens
      rw [Word.spelt_newline] at hnewline
      have hmore := methods_restore methods hwell.2 back last rest hback hlast
      have hbody := stmts_restore .block true body hwell.1.2
      have hmethod := method_yields hwell.1.1 hbody hfront (newline :: (back ++ last :: rest))
      have hbegins : Begins Kind.startsStatement (FunctionDecl.mk declared body).words :=
        (begins_keyword rfl).modifiers _
      obtain ⟨token, more, rfl, hkind⟩ := hbegins.exists_cons hfront
      rw [List.append_assoc, List.cons_append, FunctionDecl.allEmptyRecords, remarks_append]
      exact (members_loop eof).yields_cons hkind hnewline hmethod hmore
end

end Programs

theorem moduleHeader_yields {eof keyword name newline : Token} {rest : List Token}
    (hkeyword : keyword.kind = .keyword .mod) (hname : name.kind = .identifier)
    (hnewline : newline.kind = .newline) :
    (moduleHeader eof (keyword :: name :: newline :: rest)).Yields name.text rest [] := by
  rw [moduleHeader, if_pos hkeyword, moduleName, if_pos hname, endStatement, if_pos (.inl hnewline)]
  exact ((((yields_done ()).behind newline).map _).behind name).behind keyword

theorem isError_of_remarks {findings : List Finding} {records : List Ty}
    (hissues : findings.map Finding.issue = remarks records) :
    ∀ finding ∈ findings, finding.isError = false := by
  intro finding hmem
  have hissue : finding.issue ∈ remarks records := hissues ▸ List.mem_map_of_mem hmem
  obtain ⟨type, -, hissue⟩ := List.mem_map.mp hissue
  simp [Finding.isError, ← hissue, Issue.level]

/-- A printed module is parsed to itself without an error, and with a remark about every record
without members. -/
theorem parseModule_of_spells {program : Module} {tokens : List Token} {eof : Token}
    (hwell : program.WellFormed) (htokens : Spells tokens program.words) (heof : eof.kind = .eof) :
    (parseModule (tokens ++ [eof])).value = program ∧
      (∀ finding ∈ (parseModule (tokens ++ [eof])).findings, finding.isError = false) ∧
      (parseModule (tokens ++ [eof])).findings.map Finding.issue =
        remarks program.emptyRecords := by
  rw [parseModule_eq (splitInput_append htokens.kind_ne_eof heof)]
  obtain ⟨keyword, _, rfl, hkeyword, htokens⟩ := spells_cons.mp htokens
  obtain ⟨name, _, rfl, ⟨hname, htext⟩, htokens⟩ := spells_cons.mp htokens
  obtain ⟨newline, lines, rfl, hnewline, hlines⟩ := spells_cons.mp htokens
  rw [Word.spelt_keyword] at hkeyword
  rw [skipNewlines_of_kind (by simp [hkeyword])]
  have hheader :
      (moduleHeader eof (keyword :: name :: newline :: lines)).Yields name.text lines [] :=
    moduleHeader_yields hkeyword hname hnewline
  have hstmts := stmts_restore eof .topLevel false program.statements hwell lines [] hlines trivial
  rw [List.append_nil] at hstmts
  have hquiet : (moduleHeader eof (keyword :: name :: newline :: lines)).findings = [] :=
    List.map_eq_nil_iff.mp hheader.issues_eq
  simp only [hheader.value_eq, hquiet, htext, List.nil_append]
  rw [hheader.rest_eq, hstmts.value_eq]
  exact ⟨rfl, isError_of_remarks hstmts.issues_eq, hstmts.issues_eq⟩

/-- An empty record, and a function with a call in the condition of its branch. -/
theorem parseModule_of_spells_branch :
    let source :=
      "mod m\nrecord E \x7b\n\x7d\npub fx f(a: T): _Int \x7b\n" ++
        "if (a == g[T](1)) \x7b\nbreak\n\x7d\n\x7d\n"
    let call := Expr.call (.ident "g") [.named "T"] [.literal (.int 1)]
    let condition := Expr.binary .eq (.ident "a") call
    let param : VariableDecl := ⟨"a", .named "T", none, .empty, .parameter⟩
    let head : Signature := ⟨"f", .ofList [.pub], [], .builtin "_Int", [param], .topLevel⟩
    let program : Module := ⟨"m", [.record ⟨.named "E", [], .empty, .topLevel⟩ [],
      .function ⟨head, [.branch condition [.break] none]⟩]⟩
    let parsed := parseModule ((lex source).tokens.dropLast ++ [.endOfInput 0 .start])
    parsed.value = program ∧ (∀ finding ∈ parsed.findings, finding.isError = false) ∧
      parsed.findings.map Finding.issue = [.emptyRecord "E"] := by
  refine parseModule_of_spells ⟨⟨⟨rfl, by decide, trivial, by simp⟩, trivial⟩, ⟨?_, ?_⟩, trivial⟩
    (by decide +kernel) rfl
  · refine ⟨rfl, by decide, trivial, ?_⟩
    simpa using ⟨rfl, by decide, trivial, by simp⟩
  · exact ⟨⟨⟨trivial, rfl, ⟨trivial, trivial⟩, trivial, trivial⟩, trivial, trivial⟩, trivial⟩

end KCompiler
