import KCompiler.Proofs.Emission.Walk
import KCompiler.Proofs.Number.Written
import KCompiler.Proofs.Trees.Source

/-! # The lines of emitted modules

Every statement of a source is written on one line, however many lines it took there: the names of
a source hold no line break, and the line breaks of its literals are escaped. What is known of the
parts of a text gives what is known of the text.
-/

namespace KCompiler

/-! ## Upper case -/

namespace Text

theorem toNat_ofNat_cases (n : Nat) : (Char.ofNat n).toNat = n ∨ (Char.ofNat n).toNat = 0 := by
  by_cases hvalid : n.isValidChar
  · rw [Char.ofNat, dif_pos hvalid]
    exact .inl rfl
  · rw [Char.ofNat, dif_neg hvalid]
    exact .inr rfl

theorem toUpper_of_toNat_lt :
    ∀ n < 0x80, (Char.ofNat n).toUpper.toNat ≤ 0x40 → (Char.ofNat n).toUpper = Char.ofNat n := by
  decide

theorem upperExpansions_letters : upperExpansions.all fun entry => entry.2.all (0x41 ≤ ·) := by
  decide +kernel

theorem upperRuns_letters : upperRuns.all fun run => 0x41 ≤ run.first + run.shift := by
  decide +kernel

/-- Upper-casing makes none of the marks and digits that stand before the letters. -/
theorem eq_of_mem_upperChar {mark c : Char} (hmark : 0 < mark.toNat ∧ mark.toNat ≤ 0x40)
    (hmem : mark ∈ upperChar c) : mark = c := by
  have hcode {n : Nat} (hn : 0x41 ≤ n) : mark ≠ Char.ofNat n := by
    rintro rfl
    have hcases := toNat_ofNat_cases n
    omega
  unfold upperChar at hmem
  split at hmem
  next hascii =>
    obtain rfl := List.mem_singleton.mp hmem
    have hupper := toUpper_of_toNat_lt c.toNat hascii
    rw [Char.ofNat_toNat] at hupper
    exact hupper hmark.2
  next =>
    split at hmem
    next codes hlookup =>
      obtain ⟨before, behind, htable, -⟩ := List.lookup_eq_some_iff.mp hlookup
      obtain ⟨n, hn, rfl⟩ := List.mem_map.mp hmem
      have hletters := List.all_eq_true.mp upperExpansions_letters (c.toNat, codes) (by simp [htable])
      exact absurd rfl (hcode (of_decide_eq_true (List.all_eq_true.mp hletters n hn)))
    next =>
      split at hmem
      next run hfind =>
        obtain rfl := List.mem_singleton.mp hmem
        have hcovers := List.find?_some hfind
        have hletters := of_decide_eq_true
          (List.all_eq_true.mp upperRuns_letters run (List.mem_of_find?_eq_some hfind))
        simp only [CaseRun.covers, Bool.and_eq_true, decide_eq_true_eq] at hcovers
        exact absurd rfl (hcode (by omega))
      next => exact List.mem_singleton.mp hmem

theorem mem_of_mem_upper {mark : Char} (hmark : 0 < mark.toNat ∧ mark.toNat ≤ 0x40) {text : String}
    (hmem : mark ∈ (upper text).toList) : mark ∈ text.toList := by
  rw [upper, String.toList_ofList] at hmem
  obtain ⟨c, hc, hmem⟩ := List.mem_flatMap.mp hmem
  rwa [eq_of_mem_upperChar hmark hmem]

end Text

/-! ## Parts of sources -/

/-- The characters of the fixed text in C. -/
def isMarkChar (c : Char) : Bool :=
  0x20 ≤ c.toNat && c.toNat < 0x7f && c ∉ ['"', '\'', '\\', '@']

/-- Parts that the text of a source can have. -/
def Part.IsSourced : Part → Prop
  | .mark text => text.toList.all isMarkChar
  | .defined name => name.toList.all isMarkChar
  | .named name => WordLike name
  | .literal _ => True

/-- Parts that are all of a source. -/
def AllSourced (parts : List Part) : Prop :=
  ∀ part ∈ parts, part.IsSourced

theorem allSourced_cons {part : Part} {parts : List Part} :
    AllSourced (part :: parts) ↔ part.IsSourced ∧ AllSourced parts :=
  List.forall_mem_cons

theorem allSourced_append {first second : List Part} :
    AllSourced (first ++ second) ↔ AllSourced first ∧ AllSourced second :=
  List.forall_mem_append

theorem allSourced_nil : AllSourced [] := by
  intro part hmem
  cases hmem

theorem BinaryOp.isMarkChar_symbol (op : BinaryOp) : op.symbol.toList.all isMarkChar := by
  cases op <;> decide

theorem UnaryOp.isMarkChar_symbol (op : UnaryOp) : op.symbol.toList.all isMarkChar := by
  cases op <;> decide

theorem Builtin.isMarkChar_cType (type : Builtin) : type.cType.toList.all isMarkChar := by
  cases type <;> decide

theorem isMarkChar_builtinCType? (name : String) :
    ((builtinCType? name).getD "").toList.all isMarkChar := by
  rw [builtinCType?]
  cases Builtin.all.find? (·.symbol = name) with
  | none => rfl
  | some type => exact type.isMarkChar_cType

section Sourced

theorem Ty.allSourced {type : Ty} (hover : type.Over .source) : AllSourced type.cParts := by
  cases type with
  | builtin name => exact allSourced_cons.mpr ⟨isMarkChar_builtinCType? name, allSourced_nil⟩
  | named name => exact allSourced_cons.mpr ⟨hover, allSourced_nil⟩
  | generic base args => exact allSourced_nil

theorem Expr.allSourced : (expr : Expr) → expr.Over .source → AllSourced expr.cParts
  | .ident name, hover => allSourced_cons.mpr ⟨hover, allSourced_nil⟩
  | .literal value, _ => allSourced_cons.mpr ⟨trivial, allSourced_nil⟩
  | .binary op lhs rhs, hover => by
      simp only [cParts, allSourced_cons, allSourced_append]
      exact ⟨rfl, lhs.allSourced hover.1, op.isMarkChar_symbol, rhs.allSourced hover.2, rfl,
        allSourced_nil⟩
  | .unary op .before operand, hover => by
      simp only [cParts, allSourced_cons, allSourced_append]
      exact ⟨rfl, op.isMarkChar_symbol, operand.allSourced hover, rfl, allSourced_nil⟩
  | .unary op .behind operand, hover => by
      simp only [cParts, allSourced_cons, allSourced_append]
      exact ⟨rfl, operand.allSourced hover, op.isMarkChar_symbol, rfl, allSourced_nil⟩
  | .cast operand target, hover => by
      simp only [cParts, allSourced_cons, allSourced_append]
      exact ⟨rfl, target.allSourced hover.2, rfl, operand.allSourced hover.1, rfl, allSourced_nil⟩
  | .call _ _ _, _ => allSourced_nil

theorem Expr.allSourced_statementParts {expr : Expr} (hover : expr.Over .source) :
    AllSourced expr.statementParts := by
  have hplain : AllSourced (expr.cParts ++ [.mark ";"]) :=
    allSourced_append.mpr ⟨expr.allSourced hover, allSourced_cons.mpr ⟨rfl, allSourced_nil⟩⟩
  cases expr with
  | binary op lhs rhs =>
      rw [statementParts]
      split
      · simp only [allSourced_cons, allSourced_append]
        exact ⟨lhs.allSourced hover.1, op.isMarkChar_symbol, rhs.allSourced hover.2, rfl,
          allSourced_nil⟩
      · exact hplain
  | _ => exact hplain

theorem VariableDecl.allSourced {decl : VariableDecl} (hover : decl.Over .source) :
    AllSourced decl.cParts := by
  have hdefined : (Part.defined (if decl.isMutable then "MUT" else "IMMUT")).IsSourced := by
    split <;> rfl
  have hinit : AllSourced (decl.init.elim [] Expr.cParts) := by
    cases hinit : decl.init with
    | none => exact allSourced_nil
    | some init => exact init.allSourced (hover.init init hinit)
  simp only [cParts, allSourced_cons, allSourced_append]
  exact ⟨hdefined, rfl, decl.type.allSourced hover.type, rfl, hover.name, rfl, hinit, rfl,
    allSourced_nil⟩

theorem VariableDecl.allSourced_fieldParts {decl : VariableDecl} (hover : decl.Over .source) :
    AllSourced decl.fieldParts := by
  simp only [fieldParts, allSourced_cons, allSourced_append]
  exact ⟨decl.type.allSourced hover.type, rfl, hover.name, rfl, allSourced_nil⟩

theorem RecordHead.allSourced {head : RecordHead} (hover : head.Over .source) :
    AllSourced head.cParts := by
  have hfields : AllSourced (head.fields.flatMap VariableDecl.fieldParts) := by
    intro part hmem
    obtain ⟨field, hfield, hpart⟩ := List.mem_flatMap.mp hmem
    exact VariableDecl.allSourced_fieldParts (hover.fields field hfield) part hpart
  have htype := head.type.allSourced hover.type
  simp only [cParts, allSourced_cons, allSourced_append]
  exact ⟨rfl, htype, rfl, hfields, rfl, htype, rfl, allSourced_nil⟩

mutual
theorem Stmt.allSourced : (stmt : Stmt) → stmt.Over .source → AllSourced stmt.cParts
  | .expr _, hover => Expr.allSourced_statementParts hover
  | .variable _, hover => VariableDecl.allSourced hover
  | .typeAlias target name, hover => by
      simp only [Stmt.cParts, allSourced_cons, allSourced_append]
      exact ⟨rfl, target.allSourced hover.1, rfl, hover.2, rfl, allSourced_nil⟩
  | .record _ _, hover => RecordHead.allSourced hover.1
  | .branch condition body none, hover => by
      simp only [Stmt.cParts, allSourced_cons, allSourced_append]
      exact ⟨rfl, condition.allSourced hover.1, rfl, Stmt.allSourced_all body hover.2, rfl,
        allSourced_nil⟩
  | .branch condition body (some otherwise), hover => by
      simp only [Stmt.cParts, allSourced_cons, allSourced_append]
      exact ⟨rfl, condition.allSourced hover.1, rfl, Stmt.allSourced_all body hover.2.1, rfl,
        Stmt.allSourced_all otherwise hover.2.2, rfl, allSourced_nil⟩
  | .loop condition body, hover => by
      simp only [Stmt.cParts, allSourced_cons, allSourced_append]
      exact ⟨rfl, condition.allSourced hover.1, rfl, Stmt.allSourced_all body hover.2, rfl,
        allSourced_nil⟩
  | .defer _, _ => allSourced_nil
  | .break, _ => allSourced_cons.mpr ⟨rfl, allSourced_nil⟩
  | .continue, _ => allSourced_cons.mpr ⟨rfl, allSourced_nil⟩
  | .function _, _ => allSourced_nil

theorem Stmt.allSourced_all : (stmts : List Stmt) → Stmt.AllOver .source stmts →
    AllSourced (Stmt.allParts stmts)
  | [], _ => allSourced_nil
  | stmt :: stmts, hover =>
      allSourced_append.mpr ⟨stmt.allSourced hover.1, Stmt.allSourced_all stmts hover.2⟩
end

theorem Stmt.over_of_mem {vocabulary : Vocabulary} {stmts : List Stmt}
    (hover : Stmt.AllOver vocabulary stmts) : ∀ stmt ∈ stmts, stmt.Over vocabulary := by
  induction stmts with
  | nil => simp
  | cons stmt stmts ih => exact List.forall_mem_cons.mpr ⟨hover.1, ih hover.2⟩

end Sourced

/-! ## Line breaks -/

section LineBreaks

variable {mangling : Mangling}

theorem mem_of_mem_apply {c : Char} {name : String} (hmem : c ∈ (mangling.apply name).toList)
    (hmark : c ∉ Mangling.mark.toList) : c ∈ name.toList := by
  cases mangling with
  | off => exact hmem
  | on =>
      rw [Mangling.apply, String.toList_append] at hmem
      exact (List.mem_append.mp hmem).resolve_left hmark

/-- What a character of a literal is written by: an escape, of which only digits stand behind its
second character, or the character itself. -/
theorem escapeChar_cases (quote c : Char) :
    (∃ mark digits, escapeChar quote c = '\\' :: mark :: digits ∧
      (mark = quote ∨ mark ≠ '\n') ∧ ∀ digit ∈ digits, digit.isDigit) ∨
    (escapeChar quote c = [c] ∧ c ≠ quote ∧ c ≠ '\n' ∧ c ≠ '\\') := by
  have hshort : ∀ pair ∈ shortEscapes, pair.2 ≠ '\n' := by decide
  have hdigit : ∀ n < 8, (Nat.digitChar n).isDigit := by decide
  have hoctal (n : Nat) : (Nat.digitChar (n % 8)).isDigit := hdigit _ (Nat.mod_lt n (by decide))
  have hform := escaped_escapeChar quote c
  generalize escapeChar quote c = text at hform ⊢
  cases hform with
  | short hmark => exact .inl ⟨_, [], rfl, .inr (hshort _ hmark), by simp⟩
  | null => exact .inl ⟨_, [], rfl, .inr (by decide), by simp⟩
  | quote hquote => exact .inl ⟨_, [], rfl, .inl hquote, by simp⟩
  | octal =>
      refine .inl ⟨_, _, rfl, .inr ?_, by simp [hoctal]⟩
      intro hline
      have hfirst := hoctal (c.toNat / 64)
      rw [hline] at hfirst
      exact absurd hfirst (by decide)
  | plain hlong hquote _ =>
      exact .inr ⟨rfl, hquote, fun hc => hlong (by rw [hc]; decide),
        fun hc => hlong (by rw [hc]; decide)⟩

theorem newline_notMem_escapeText {quote : Char} (hquote : quote ≠ '\n') (text : List Char) :
    '\n' ∉ escapeText quote text := by
  intro hmem
  obtain ⟨c, -, hmem⟩ := List.mem_flatMap.mp hmem
  rcases escapeChar_cases quote c with ⟨mark, digits, hform, hmark, hdigits⟩ | ⟨hform, -, hline, -⟩
  · rw [hform, List.mem_cons, List.mem_cons] at hmem
    rcases hmem with hslash | hmem | hmem
    · cases hslash
    · rcases hmark with hmark | hmark
      · exact hquote (hmark.symm.trans hmem.symm)
      · exact hmark hmem.symm
    · exact absurd (hdigits _ hmem) (by decide)
  · rw [hform, List.mem_singleton] at hmem
    exact hline hmem.symm

theorem Literal.newline_notMem_emit (value : Literal) : '\n' ∉ (value.emit mangling).toList := by
  cases value with
  | int n => exact Number.newline_notMem_toString n
  | float x => exact x.newline_notMem_text
  | string text =>
      have hinside := newline_notMem_escapeText (by decide : '"' ≠ '\n') text.toList
      simp [Literal.emit, stringText, hinside]
  | char c =>
      have hinside := newline_notMem_escapeText (by decide : '\'' ≠ '\n') [c]
      simp [Literal.emit, charText, hinside]
  | bool b =>
      intro hmem
      have hname := mem_of_mem_apply hmem (by decide)
      revert hname
      cases b <;> decide

theorem Part.newline_notMem_text {part : Part} (hsourced : part.IsSourced) :
    '\n' ∉ (part.text mangling).toList := by
  intro hmem
  cases part with
  | mark text => exact absurd (List.all_eq_true.mp hsourced _ hmem) (by decide)
  | defined name =>
      exact absurd (List.all_eq_true.mp hsourced _ (mem_of_mem_apply hmem (by decide))) (by decide)
  | named name =>
      exact absurd (hsourced.isIdentifierPart _ (mem_of_mem_apply hmem (by decide))) (by decide)
  | literal value => exact value.newline_notMem_emit hmem

theorem toList_written (mangling : Mangling) (parts : List Part) :
    (written mangling parts).toList = parts.flatMap fun part => (part.text mangling).toList := by
  rw [written, String.toList_join, List.flatMap_map]

/-- Parts of a source are written on one line. -/
theorem newline_notMem_written {parts : List Part} (hsourced : AllSourced parts) :
    '\n' ∉ (written mangling parts).toList := by
  intro hmem
  rw [toList_written] at hmem
  obtain ⟨part, hpart, hmem⟩ := List.mem_flatMap.mp hmem
  exact part.newline_notMem_text (hsourced part hpart) hmem

/-- A mark in the guard of a module comes from its name. -/
theorem Module.mem_of_mem_guard {program : Module} {mark : Char}
    (hmark : 0 < mark.toNat ∧ mark.toNat ≤ 0x40) (hmem : mark ∈ (program.guard mangling).toList) :
    mark ∈ program.name.toList := by
  have hletters (letters : List Char) (hall : letters.all (0x41 ≤ ·.toNat)) : mark ∉ letters := by
    intro hletter
    have hcode := of_decide_eq_true (List.all_eq_true.mp hall _ hletter)
    omega
  have hname := mem_of_mem_apply hmem (hletters _ (by decide))
  rw [String.toList_append, String.toList_append, List.mem_append, List.mem_append] at hname
  rcases hname with (hopening | hupper) | hclosing
  · exact absurd hopening (hletters _ (by decide))
  · exact Text.mem_of_mem_upper hmark hupper
  · exact absurd hclosing (hletters _ (by decide))

end LineBreaks

theorem Module.emit_of_mem {program : Module} {mangling : Mangling} {out : String}
    (hemit : program.emit mangling = .ok out) :
    ∀ stmt ∈ program.statements, stmt.emit mangling = .ok (stmt.line mangling) := by
  rw [Module.emit_eq] at hemit
  have hnone := (unobstructed_eq_ok_iff.mp hemit).1
  rw [Module.obstacles, Stmt.allObstacles_eq, List.flatMap_eq_nil_iff] at hnone
  intro stmt hmem
  rw [stmt.emit_eq, hnone stmt hmem]
  rfl

/-- The C text of a source is a guard around the prelude and one line for every statement, which
depends on nothing but the statement and the mangling. -/
theorem emitted_line_per_statement {source out : String} {mangling : Mangling} {program : Module}
    (hprogram : (parseModule (lex source).tokens).value = program)
    (hemit : program.emit mangling = .ok out) :
    out = "#ifndef " ++ program.guard mangling ++ "\n" ++ "#define " ++ program.guard mangling ++
        "\n" ++ preludeText mangling ++
        String.join (program.statements.map fun stmt => stmt.line mangling ++ "\n") ++ "#endif\n" ∧
      '\n' ∉ (program.guard mangling).toList ∧
      ∀ stmt ∈ program.statements,
        stmt.emit mangling = .ok (stmt.line mangling) ∧ '\n' ∉ (stmt.line mangling).toList := by
  have hover : program.Over .source := hprogram ▸ (parseModule_lex_fits source).2
  have hlines := program.emit_of_mem hemit
  rw [Module.emit_eq] at hemit
  refine ⟨?_, ?_, ?_⟩
  · rw [← (unobstructed_eq_ok_iff.mp hemit).2]
    simp only [endLines, List.map_cons, List.map_nil, List.map_map, Function.comp_def,
      String.join_cons, String.join_nil, String.append_empty, String.append_assoc]
  · intro hmem
    have hname := program.mem_of_mem_guard (by decide) hmem
    exact absurd (WordLike.isIdentifierPart hover.1 _ hname) (by decide)
  · intro stmt hmem
    refine ⟨hlines stmt hmem, newline_notMem_written (stmt.allSourced ?_)⟩
    exact Stmt.over_of_mem hover.2 stmt hmem

/-- A string over two lines, in a loop inside a branch. -/
theorem emitted_line_per_statement_nested :
    let program : Module := ⟨"m", [.branch (.ident "x") [.loop (.ident "y")
      [.expr (.binary .assign (.ident "s") (.literal (.string "a\nb")))]] none, .break]⟩
    let source := "mod m\nif x \x7b\nwhile y \x7b\ns = \"a\nb\"\n\x7d\n\x7d\nbreak"
    (parseModule (lex source).tokens).value = program ∧
      ∃ out, program.emit .on = .ok out ∧
        out = "#ifndef " ++ program.guard .on ++ "\n" ++ "#define " ++ program.guard .on ++
          "\n" ++ preludeText .on ++
          String.join (program.statements.map fun stmt => stmt.line .on ++ "\n") ++ "#endif\n" ∧
        '\n' ∉ (program.guard .on).toList ∧
        ∀ stmt ∈ program.statements,
          stmt.emit .on = .ok (stmt.line .on) ∧ '\n' ∉ (stmt.line .on).toList := by
  have hprogram : (parseModule (lex
      "mod m\nif x \x7b\nwhile y \x7b\ns = \"a\nb\"\n\x7d\n\x7d\nbreak").tokens).value =
      ⟨"m", [.branch (.ident "x") [.loop (.ident "y")
        [.expr (.binary .assign (.ident "s") (.literal (.string "a\nb")))]] none, .break]⟩ := by
    with_unfolding_all rfl
  exact ⟨hprogram, _, rfl, emitted_line_per_statement hprogram rfl⟩

end KCompiler
