import KCompiler.Proofs.Completeness.Statement
import KCompiler.Proofs.Soundness.Module

/-! # Files of the grammar are accepted

A file is parsed without an error if and only if its tokens follow the grammar, and then the module
is the tree of the derivation. So what may be changed in a file can be said by the grammar alone.
-/

namespace KCompiler

open Grammar Outcome

/-- A file is parsed to a module without an error. -/
structure Accepted (tokens : List Token) (program : Module) : Prop where
  value_eq : (parseModule tokens).value = program
  harmless : ∀ finding ∈ (parseModule tokens).findings, finding.isError = false

/-- How a file is read: a header behind line breaks, and statements to the end of the input. -/
structure ReadFile (eof : Token) (body : List Token) (program : Module) (breaks : List Token)
    (keyword name : Token) (rest middle : List Token) : Prop where
  body_eq : body = breaks ++ keyword :: name :: rest
  newlines : Newlines breaks
  isKeyword : keyword.kind = .keyword .mod
  isName : name.kind = .identifier
  ended : (endStatement rest).Gives () middle
  reads : (statements eof .topLevel false middle).Gives program.statements []
  name_eq : program.name = name.text

variable {eof : Token} {body : List Token} {program : Module}

theorem moduleHeader_gives {keyword name : Token} {rest middle : List Token}
    (hkeyword : keyword.kind = .keyword .mod) (hname : name.kind = .identifier)
    (hended : (endStatement rest).Gives () middle) :
    (moduleHeader eof (keyword :: name :: rest)).Gives name.text middle := by
  rw [moduleHeader, if_pos hkeyword, moduleName, if_pos hname]
  exact ((hended.map _).behind name).behind keyword

/-- A file with a usable header, by what the header leaves. -/
theorem parseModule_of_header {name : String} {middle : List Token}
    (hbody : ∀ token ∈ body, token.kind ≠ .eof) (heof : eof.kind = .eof)
    (hvalue : (moduleHeader eof (skipNewlines body)).value = some name)
    (hrest : (moduleHeader eof (skipNewlines body)).rest = middle) :
    parseModule (body ++ [eof]) =
      ⟨⟨name, (statements eof .topLevel false middle).value.getD []⟩,
        (moduleHeader eof (skipNewlines body)).findings ++
          (statements eof .topLevel false middle).findings⟩ := by
  subst hrest
  rw [parseModule_eq (splitInput_append hbody heof)]
  simp only [hvalue]

theorem exists_readFile (hbody : ∀ token ∈ body, token.kind ≠ .eof) (heof : eof.kind = .eof)
    (haccepted : Accepted (body ++ [eof]) program) :
    ∃ breaks keyword name rest middle, ReadFile eof body program breaks keyword name rest middle := by
  obtain ⟨rfl, hharmless⟩ := haccepted
  obtain ⟨breaks, hbreaks, hinput⟩ := exists_newlines body
  -- The findings of the header are among all findings, whether it is usable or not.
  have hheader : ∀ finding ∈ (moduleHeader eof (skipNewlines body)).findings,
      finding.Harmless := by
    intro finding hmem
    apply hharmless
    rw [parseModule_eq (splitInput_append hbody heof)]
    split
    · exact hmem
    · exact List.mem_append_left _ hmem
  obtain ⟨keyword, name, rest, hskip, hkeyword, hname, hvalue, hleft, hended⟩ :=
    moduleHeader_cases hheader
  rw [hskip] at hinput
  have hnil : (statements eof .topLevel false (endStatement rest).rest).rest = [] := by
    apply rest_statements_eq_nil
    intro token htoken
    apply hbody token
    rw [hinput]
    simp [(endStatement rest).suffix.mem htoken]
  have hsome : (statements eof .topLevel false (endStatement rest).rest).value.isSome :=
    statements_isSome .topLevel false _
  obtain ⟨stmts, hstmts⟩ := Option.isSome_iff_exists.mp hsome
  rw [parseModule_of_header hbody heof hvalue hleft] at hharmless ⊢
  refine ⟨breaks, keyword, name, rest, (endStatement rest).rest, hinput, hbreaks, hkeyword, hname,
    ⟨value_endStatement rest, rfl, hended⟩, ⟨by simp [hstmts], hnil, ?_⟩, rfl⟩
  intro finding hmem
  exact hharmless finding (List.mem_append_right _ hmem)

theorem ReadFile.accepted {breaks rest middle : List Token} {keyword name : Token}
    (hread : ReadFile eof body program breaks keyword name rest middle)
    (hbody : ∀ token ∈ body, token.kind ≠ .eof) (heof : eof.kind = .eof) :
    Accepted (body ++ [eof]) program := by
  have hskip : skipNewlines body = keyword :: name :: rest := by
    rw [hread.body_eq, skipNewlines_append hread.newlines,
      skipNewlines_of_kind (by simp [hread.isKeyword])]
  have hheader : (moduleHeader eof (skipNewlines body)).Gives name.text middle := by
    rw [hskip]
    exact moduleHeader_gives hread.isKeyword hread.isName hread.ended
  have hparse := parseModule_of_header hbody heof hheader.value_eq hheader.rest_eq
  rw [hread.reads.value_eq, Option.getD_some, ← hread.name_eq] at hparse
  refine ⟨by rw [hparse], ?_⟩
  rw [hparse, List.forall_mem_append]
  exact ⟨hheader.harmless, hread.reads.harmless⟩

theorem ReadFile.isModule {breaks rest middle : List Token} {keyword name : Token}
    (hread : ReadFile eof body program breaks keyword name rest middle) :
    IsModule body program := by
  obtain ⟨rfl, hbreaks, hkeyword, hname, hended, hreads, hprogram⟩ := hread
  obtain ⟨_, stmts⟩ := program
  obtain rfl := hprogram
  have hmiddle := hended.rest_eq
  rcases endStatement_cases hended.harmless with ⟨last, hlast, hrest⟩ | ⟨hrest, hatEnd⟩
  · obtain ⟨taken, rfl, hitems⟩ := statements_reads .topLevel false _ stmts [] hreads
    rw [hmiddle, List.append_nil] at hrest
    rw [hrest]
    exact .body hbreaks hkeyword hname hlast hitems
  · -- A header without a token that ends it is all of the file.
    obtain rfl : rest = middle := hrest.symm.trans hmiddle
    obtain ⟨_, rfl, rfl, rfl⟩ := statements_atEnd hatEnd stmts [] hreads
    exact .header hbreaks hkeyword hname

theorem statements_gives_nil : (statements eof .topLevel false []).Gives [] [] := by
  rw [(statements_loop eof .topLevel false).nil]
  exact gives_done.mpr ⟨rfl, rfl⟩

theorem exists_readFile_of_isModule (eof : Token) (hmodule : IsModule body program) :
    ∃ breaks keyword name rest middle, ReadFile eof body program breaks keyword name rest middle := by
  cases hmodule with
  | @header breaks keyword name hbreaks hkeyword hname =>
      exact ⟨breaks, keyword, name, [], [], rfl, hbreaks, hkeyword, hname,
        endStatement_gives_atEnd (by simp [AtEnd]), statements_gives_nil, rfl⟩
  | @body breaks tokens keyword name last stmts hbreaks hkeyword hname hlast hstmts =>
      refine ⟨breaks, keyword, name, last :: tokens, tokens, rfl, hbreaks, hkeyword, hname,
        endStatement_gives_ends hlast tokens, ?_, rfl⟩
      have hread := hstmts.imp fun _ _ hitem =>
        ReadStatement.mk (headed_of_isStmt hitem) (statement_reads_stmt eof hitem)
      have hgives := (statements_loop eof .topLevel false).repeats.reads hread (by simp [AtEnd])
        statements_gives_nil
      rwa [List.append_nil] at hgives

/-- Exactly the files of the grammar are accepted. -/
theorem accepted_iff (hbody : ∀ token ∈ body, token.kind ≠ .eof) (heof : eof.kind = .eof) :
    Accepted (body ++ [eof]) program ↔ IsModule body program := by
  constructor
  · intro haccepted
    obtain ⟨breaks, keyword, name, rest, middle, hread⟩ := exists_readFile hbody heof haccepted
    exact hread.isModule
  · intro hmodule
    obtain ⟨breaks, keyword, name, rest, middle, hread⟩ := exists_readFile_of_isModule eof hmodule
    exact hread.accepted hbody heof

end KCompiler
