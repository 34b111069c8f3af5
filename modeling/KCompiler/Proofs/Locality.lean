import KCompiler.Compilation
import KCompiler.Proofs.Diagnosis.Collecting
import KCompiler.Proofs.EndOfInput
import KCompiler.Proofs.Invariant.Basic

/-! # Broken statements stay local

Whatever stands on a line without braces, parsing goes on behind its line break as if the line
were not there. Two runs that share the line go in lockstep up to the line break, so that what
they make of the line cannot depend on what follows it.
-/

namespace KCompiler

open Outcome

/-- The kinds of tokens that end a statement, stand at a block, or begin a statement that may go
over several lines. -/
def Kind.leavingLine : List Kind :=
  [.newline, .punct .semicolon, .punct .lbrace, .punct .rbrace, .eof, .keyword .if, .keyword .while,
    .keyword .defer, .keyword .fx, .keyword .record]

/-- Tokens of which no statement goes on behind a line break. -/
structure IsLine (line : List Token) : Prop where
  stays : ∀ token ∈ line, token.kind ∉ Kind.leavingLine
  ends : ∀ token ∈ line.getLast?, token.kind.allowsBreak = false

section Kinds

variable {kind : Kind} (hkind : kind ∉ Kind.leavingLine)

include hkind

theorem Kind.isBoundary_of_stays : kind.isBoundary = false := by
  unfold Kind.isBoundary
  split
  case h_5 => rfl
  all_goals simp [leavingLine] at hkind

theorem Kind.opensBody_of_stays : kind.opensBody = false := by
  unfold Kind.opensBody
  split
  case h_6 => rfl
  all_goals simp [leavingLine] at hkind

theorem Kind.ne_lbrace_of_stays : kind ≠ .punct .lbrace := by
  rintro rfl
  simp [leavingLine] at hkind

end Kinds

/-- Inputs that share the end of a line, and its line break. -/
def Likeness.upTo (newline : Token) (line rest₁ rest₂ : List Token) : Likeness where
  Same input₁ input₂ := ∃ front, front <:+ line ∧ input₁ = front ++ newline :: rest₁ ∧
    input₂ = front ++ newline :: rest₂
  Marks := Eq

/-- What is left of two inputs behind a statement on a line, with the line break or without. -/
def Likeness.beyond (newline : Token) (rest₁ rest₂ : List Token) : Likeness where
  Same input₁ input₂ := input₁ = rest₁ ∧ input₂ = rest₂ ∨
    input₁ = newline :: rest₁ ∧ input₂ = newline :: rest₂
  Marks := Eq

/-- Recovery stops at the line break. -/
theorem recover_line {newline : Token} {front : List Token} (hnewline : newline.kind = .newline)
    (hfront : ∀ token ∈ front, token.kind ∉ Kind.leavingLine) (rest : List Token) :
    recover (front ++ newline :: rest) = newline :: rest := by
  induction front with
  | nil => simp [recover, hnewline, Kind.isBoundary]
  | cons token front ih =>
      obtain ⟨hstays, hmore⟩ := List.forall_mem_cons.mp hfront
      rw [List.cons_append, recover, Kind.isBoundary_of_stays hstays, skipToken,
        if_neg (Kind.ne_lbrace_of_stays hstays)]
      exact ih hmore

section Line

variable {newline : Token} {line rest₁ rest₂ : List Token} {eof₁ eof₂ : Token}

/-- The first token of two inputs that share the end of a line is its line break, or stands on
the line. -/
theorem upTo_cases {token : Token} {tokens₁ input₂ : List Token}
    (hsame : (Likeness.upTo newline line rest₁ rest₂).Same (token :: tokens₁) input₂) :
    (token = newline ∧ tokens₁ = rest₁ ∧ input₂ = token :: rest₂) ∨
      ∃ front, token :: front <:+ line ∧ tokens₁ = front ++ newline :: rest₁ ∧
        input₂ = token :: (front ++ newline :: rest₂) := by
  obtain ⟨_ | ⟨first, front⟩, hsuffix, heq, rfl⟩ := hsame
  · cases heq
    exact .inl ⟨rfl, rfl, rfl⟩
  · cases heq
    exact .inr ⟨front, hsuffix, rfl, rfl⟩

variable (hnewline : newline.kind = .newline) (hline : IsLine line)

include hnewline hline

theorem lockstep_upTo : Lockstep (.upTo newline line rest₁ rest₂) eof₁ eof₂ where
  nil hsame := by
    obtain ⟨front, -, hnil, -⟩ := hsame
    simp at hnil
  cons hsame := by
    obtain ⟨rfl, rfl, rfl⟩ | ⟨front, -, rfl, rfl⟩ := upTo_cases hsame
    · exact ⟨_, _, rfl, rfl, rfl, rfl⟩
    · exact ⟨_, _, rfl, rfl, rfl, rfl⟩
  passes hkind token₁ token₂ tokens₁ tokens₂ htoken hsame := by
    obtain ⟨rfl, -, -⟩ | ⟨front, hsuffix, rfl, heq⟩ := upTo_cases hsame
    · rw [← htoken, hnewline] at hkind
      cases hkind
    · cases heq
      exact ⟨front, (List.suffix_cons token₁ front).trans hsuffix, rfl, rfl⟩
  block {token₁ token₂ tokens₁ tokens₂} hkind hsame := by
    obtain ⟨rfl, -, -⟩ | ⟨front, hsuffix, -, -⟩ := upTo_cases hsame
    · rw [hnewline] at hkind
      cases hkind
    · exact absurd hkind (Kind.ne_lbrace_of_stays (hline.stays token₁ (hsuffix.mem (by simp))))
  breaks {token₁ token₂ tokens₁ tokens₂} hkind hsame := by
    obtain ⟨rfl, -, -⟩ | ⟨front, hsuffix, rfl, heq⟩ := upTo_cases hsame
    · rw [hnewline] at hkind
      cases hkind
    cases heq
    cases front with
    | nil =>
        -- the line would end behind a token that allows a break
        have hlast : token₁ ∈ line.getLast? := by
          obtain ⟨before, rfl⟩ := hsuffix
          simp
        rw [hline.ends token₁ hlast] at hkind
        cases hkind
    | cons next front =>
        have hinner : next :: front <:+ line := (List.suffix_cons token₁ _).trans hsuffix
        have hnext : next.kind ≠ .newline := by
          intro hnext
          have hstays := hline.stays next (hinner.mem (by simp))
          simp [hnext, Kind.leavingLine] at hstays
        rw [List.cons_append, List.cons_append, skipNewlines_of_kind hnext,
          skipNewlines_of_kind hnext]
        exact ⟨next :: front, hinner, rfl, rfl⟩

theorem statement_upTo (scope : Scope) :
    (statement eof₁ scope (line ++ newline :: rest₁)).Alike (.upTo newline line rest₁ rest₂) Eq
      (statement eof₂ scope (line ++ newline :: rest₂)) := by
  have lockstep : Lockstep (.upTo newline line rest₁ rest₂) eof₁ eof₂ :=
    lockstep_upTo hnewline hline
  have hsame : (Likeness.upTo newline line rest₁ rest₂).Same (line ++ newline :: rest₁)
      (line ++ newline :: rest₂) :=
    ⟨line, List.suffix_rfl, rfl, rfl⟩
  rw [statement_def, statement_def]
  refine (lockstep.modifierList_alike .empty hsame).andThen ?_
  rintro modifiers _ rfl tokens₁ tokens₂ htokens _ _
  refine lockstep.simpleStatement_alike scope modifiers (lockstep.peek_span hsame) htokens ?_
  obtain ⟨_ | ⟨token, front⟩, hsuffix, rfl, rfl⟩ := htokens
  · rintro _ ⟨⟩
    rw [hnewline]
    rfl
  · rintro _ ⟨⟩
    exact Kind.opensBody_of_stays (hline.stays token (hsuffix.mem (by simp)))

theorem same_recover_upTo {input₁ input₂ : List Token}
    (hsame : (Likeness.upTo newline line rest₁ rest₂).Same input₁ input₂) :
    (Likeness.beyond newline rest₁ rest₂).Same (recover input₁) (recover input₂) := by
  obtain ⟨front, hsuffix, rfl, rfl⟩ := hsame
  have hfront (token : Token) (hmem : token ∈ front) : token.kind ∉ Kind.leavingLine :=
    hline.stays token (hsuffix.mem hmem)
  exact .inr ⟨recover_line hnewline hfront rest₁, recover_line hnewline hfront rest₂⟩

theorem endStatement_upTo {input₁ input₂ : List Token}
    (hsame : (Likeness.upTo newline line rest₁ rest₂).Same input₁ input₂) :
    (endStatement input₁).Alike (.beyond newline rest₁ rest₂) Eq (endStatement input₂) := by
  have hrecover := same_recover_upTo hnewline hline hsame
  obtain ⟨_ | ⟨token, front⟩, hsuffix, rfl, rfl⟩ := hsame
  · rw [List.nil_append, List.nil_append, endStatement, endStatement, if_pos (.inl hnewline),
      if_pos (.inl hnewline)]
    exact ⟨.some rfl, .inl ⟨rfl, rfl⟩, .nil⟩
  · have hstays := hline.stays token (hsuffix.mem (by simp))
    have hends : ¬(token.kind = .newline ∨ token.kind = .punct .semicolon) := by
      rintro (hkind | hkind) <;> simp [hkind, Kind.leavingLine] at hstays
    rw [List.cons_append, List.cons_append, endStatement, endStatement, if_neg hends, if_neg hends,
      Kind.isBoundary_of_stays hstays]
    exact ⟨.some rfl, hrecover, alike_finding rfl rfl⟩

theorem finishStatement_upTo {input₁ input₂ : List Token} {α : Type} {first : Outcome input₁ α}
    {second : Outcome input₂ α}
    (halike : first.Alike (.upTo newline line rest₁ rest₂) Eq second) :
    (finishStatement first).Alike (.beyond newline rest₁ rest₂) Eq (finishStatement second) := by
  obtain ⟨value₁, inner₁, findings₁, hsuffix₁⟩ := first
  obtain ⟨value₂, inner₂, findings₂, hsuffix₂⟩ := second
  obtain ⟨hvalue, hrest, hshared⟩ := halike
  have hfindings : List.Forall₂ (Finding.Alike (.beyond newline rest₁ rest₂)) findings₁ findings₂ :=
    hshared.imp fun _ _ halike => ⟨halike.issue_eq, halike.not_style, halike.span⟩
  cases hvalue with
  | none => exact ⟨.some rfl, same_recover_upTo hnewline hline hrest, hfindings⟩
  | @some value _ hvalue =>
      obtain rfl := hvalue
      exact (((endStatement_upTo hnewline hline hrest).mapEq fun _ => some value).reporting
        hfindings).within hsuffix₁ hsuffix₂

end Line

/-- Statements and findings that come before those of the input behind them. -/
structure Adds (stmts : List Stmt) (findings : List Finding) {input rest : List Token}
    (outcome : Outcome input (List Stmt)) (behind : Outcome rest (List Stmt)) : Prop where
  value : outcome.value = behind.value.map (stmts ++ ·)
  findings : outcome.findings = findings ++ behind.findings

theorem Adds.getD {stmts : List Stmt} {findings : List Finding} {input rest : List Token}
    {outcome : Outcome input (List Stmt)} {behind : Outcome rest (List Stmt)}
    (hadds : Adds stmts findings outcome behind) (hsome : behind.value.isSome) :
    outcome.value.getD [] = stmts ++ behind.value.getD [] := by
  obtain ⟨value, hvalue⟩ := Option.isSome_iff_exists.mp hsome
  rw [hadds.value, hvalue]
  rfl

section Statements

variable {eof token newline : Token} {scope : Scope} {inBlock : Bool} {tokens rest : List Token}

theorem adds_newline (hnewline : newline.kind = .newline) :
    Adds [] [] (statements eof scope inBlock (newline :: rest))
      (statements eof scope inBlock rest) := by
  rw [(statements_loop eof scope inBlock).blank (.inl hnewline)]
  constructor <;> simp

/-- A statement adds to what is left behind it, be there a line break or not. -/
theorem adds_finished (hboundary : token.kind.isBoundary = false)
    (hnewline : newline.kind = .newline) {finished : Outcome (token :: tokens) (Option Stmt)}
    (hfinished : finishStatement (statement eof scope (token :: tokens)) = finished)
    (hrest : finished.rest = rest ∨ finished.rest = newline :: rest) :
    Adds finished.value.join.toList finished.findings
      (statements eof scope inBlock (token :: tokens)) (statements eof scope inBlock rest) := by
  have hadds : Adds finished.value.join.toList finished.findings
      (statements eof scope inBlock (token :: tokens))
      (statements eof scope inBlock finished.rest) := by
    subst hfinished
    rw [(statements_loop eof scope inBlock).item hboundary]
    constructor <;> simp
  rcases hrest with hrest | hrest
  · rwa [hrest] at hadds
  · have hbreak : Adds [] [] (statements eof scope inBlock (newline :: rest))
        (statements eof scope inBlock rest) := adds_newline hnewline
    rw [hrest] at hadds
    refine ⟨?_, ?_⟩
    · rw [hadds.value, hbreak.value]
      simp
    · rw [hadds.findings, hbreak.findings, List.nil_append]

end Statements

/-- Two runs find the same statements on a line. -/
theorem exists_adds_line {newline : Token} {line : List Token} (hnewline : newline.kind = .newline)
    (hline : IsLine line) (scope : Scope) (inBlock : Bool) (eof₁ eof₂ : Token)
    (rest₁ rest₂ : List Token) :
    ∃ stmts findings,
      Adds stmts findings (statements eof₁ scope inBlock (line ++ newline :: rest₁))
        (statements eof₁ scope inBlock rest₁) ∧
      Adds stmts findings (statements eof₂ scope inBlock (line ++ newline :: rest₂))
        (statements eof₂ scope inBlock rest₂) := by
  cases line with
  | nil => exact ⟨[], [], adds_newline hnewline, adds_newline hnewline⟩
  | cons token more =>
      have hboundary : token.kind.isBoundary = false :=
        Kind.isBoundary_of_stays (hline.stays token (by simp))
      have hstmt : (statement eof₁ scope (token :: more ++ newline :: rest₁)).Alike
          (.upTo newline (token :: more) rest₁ rest₂) Eq
          (statement eof₂ scope (token :: more ++ newline :: rest₂)) :=
        statement_upTo hnewline hline scope
      have hfinished := finishStatement_upTo hnewline hline hstmt
      have hfindings := findings_eq_of_alike rfl hfinished.findings
      simp only [List.cons_append] at hfinished hfindings ⊢
      refine ⟨_, _, adds_finished hboundary hnewline rfl ?_, ?_⟩
      · exact hfinished.rest.imp And.left And.left
      · rw [hfinished.value_eq, hfindings]
        exact adds_finished hboundary hnewline rfl (hfinished.rest.imp And.right And.right)

/-! ## Files -/

section Ends

variable {front tokens : List Token} (hfront : ∀ token ∈ front, token.kind ≠ .eof)

include hfront

theorem splitInput_behind :
    (splitInput (front ++ tokens)).1 = front ++ (splitInput tokens).1 := by
  exact List.takeWhile_append_of_pos (by simpa using hfront)

/-- The token that ends an input depends on the last tokens only. -/
theorem splitInput_behind_eof (htokens : tokens ≠ []) :
    (splitInput (front ++ tokens)).2 = (splitInput tokens).2 := by
  have hfind : (front ++ tokens).find? (·.kind = .eof) = tokens.find? (·.kind = .eof) := by
    rw [List.find?_append, List.find?_eq_none.mpr (by simpa using hfront), Option.none_or]
  unfold splitInput
  rw [hfind, List.getLast?_append_of_ne_nil front htokens]

end Ends

/-- The kinds of the tokens of a header on a line of its own. -/
def Kind.heading : List Kind :=
  [.keyword .mod, .identifier, .newline]

/-- The statements of a file behind its header. -/
def fileBody (heading tokens : List Token) : Outcome (splitInput tokens).1 (List Stmt) :=
  statements (splitInput (heading ++ tokens)).2 .topLevel false (splitInput tokens).1

theorem statements_splitInput_nil (eof : Token) :
    statements eof .topLevel false (splitInput []).1 = .done [] :=
  (statements_loop eof .topLevel false).nil

section Files

variable {heading line : List Token} {newline : Token}
  (hheading : heading.map Token.kind = Kind.heading)

include hheading

theorem parseModule_heading (tokens : List Token) :
    (parseModule (heading ++ tokens)).value.statements =
        (fileBody heading tokens).value.getD [] ∧
      (parseModule (heading ++ tokens)).findings = (fileBody heading tokens).findings := by
  obtain ⟨mod, heading, rfl, hmod, hheading⟩ := List.map_eq_cons_iff.mp hheading
  obtain ⟨name, heading, rfl, hname, hheading⟩ := List.map_eq_cons_iff.mp hheading
  obtain ⟨newline, heading, rfl, hnewline, hheading⟩ := List.map_eq_cons_iff.mp hheading
  obtain rfl := List.map_eq_nil_iff.mp hheading
  have hinput : (splitInput ([mod, name, newline] ++ tokens)).1 =
      mod :: name :: newline :: (splitInput tokens).1 :=
    splitInput_behind (by simp [hmod, hname, hnewline])
  have hheader (eof : Token) (input : List Token) :
      moduleHeader eof (mod :: name :: newline :: input) =
        ((((Outcome.done ()).behind newline).map fun _ => name.text).behind name).behind mod := by
    rw [moduleHeader, if_pos hmod, moduleName, if_pos hname, endStatement, if_pos (.inl hnewline)]
  rw [parseModule_eq (Prod.ext hinput rfl), skipNewlines_of_kind (by simp [hmod]), hheader]
  exact ⟨rfl, rfl⟩

theorem kind_ne_eof_of_heading : ∀ token ∈ heading, token.kind ≠ .eof := by
  intro token hmem heof
  have hkind := List.mem_map_of_mem (f := Token.kind) hmem
  simp [hheading, heof, Kind.heading] at hkind

variable (hline : IsLine line) (hnewline : newline.kind = .newline)

include hline hnewline

/-- A line adds the same to the body of a file whatever stands behind it. -/
theorem exists_adds_fileBody (rest₁ rest₂ : List Token) :
    ∃ stmts findings,
      Adds stmts findings (fileBody heading (line ++ [newline] ++ rest₁))
        (fileBody heading rest₁) ∧
      Adds stmts findings (fileBody heading (line ++ [newline] ++ rest₂))
        (fileBody heading rest₂) := by
  have hkinds := kind_ne_eof_of_heading hheading
  have hfree : ∀ token ∈ line ++ [newline], token.kind ≠ .eof := by
    refine List.forall_mem_append.mpr ⟨fun token hmem heof => ?_, by simp [hnewline]⟩
    have hstays := hline.stays token hmem
    simp [heof, Kind.leavingLine] at hstays
  let ending (rest : List Token) := (splitInput (heading ++ (line ++ [newline] ++ rest))).2
  have hinput (rest : List Token) :
      line ++ newline :: (splitInput rest).1 = (splitInput (line ++ [newline] ++ rest)).1 := by
    rw [splitInput_behind hfree, List.append_assoc, List.singleton_append]
  have hbehind (rest : List Token) :
      statements (ending rest) .topLevel false (splitInput rest).1 = fileBody heading rest := by
    by_cases hnil : rest = []
    · subst hnil
      rw [fileBody, statements_splitInput_nil, statements_splitInput_nil]
    · have hfront := List.forall_mem_append.mpr ⟨hkinds, hfree⟩
      rw [fileBody, splitInput_behind_eof hkinds hnil, ← splitInput_behind_eof hfront hnil,
        List.append_assoc]
  obtain ⟨stmts, findings, hadds₁, hadds₂⟩ := exists_adds_line hnewline hline .topLevel false
    (ending rest₁) (ending rest₂) (splitInput rest₁).1 (splitInput rest₂).1
  rw [hinput, hbehind] at hadds₁ hadds₂
  exact ⟨stmts, findings, hadds₁, hadds₂⟩

end Files

/-- All findings become diagnostics if there are not too many errors. -/
theorem entries_note {findings : List Finding}
    (hroom : findings.countP Finding.isError ≤ maxErrors) :
    (Diagnostics.empty.note findings).entries.toList = findings.map Finding.diagnostic := by
  rw [Diagnostics.note, (Diagnostics.records_reportAll _).entries_eq]
  refine Diagnostics.kept_eq_self _ ?_
  rwa [errors, ← List.countP_eq_length_filter, List.countP_map]

/-- Whatever stands on a line, the statements and the findings of a file are those of the line and
those of the rest. So are the diagnostics, unless there are too many errors. -/
theorem parseModule_append_line {heading line : List Token} {newline : Token}
    (hheading : heading.map Token.kind = Kind.heading) (hline : IsLine line)
    (hnewline : newline.kind = .newline) (rest : List Token) :
    let whole := parseModule (heading ++ line ++ [newline] ++ rest)
    let alone := parseModule (heading ++ line ++ [newline])
    let others := parseModule (heading ++ rest)
    whole.value.statements = alone.value.statements ++ others.value.statements ∧
      whole.findings = alone.findings ++ others.findings ∧
      (whole.findings.countP Finding.isError ≤ maxErrors →
        (Diagnostics.empty.note whole.findings).entries =
          (Diagnostics.empty.note alone.findings).entries ++
            (Diagnostics.empty.note others.findings).entries) := by
  intro whole alone others
  have hothers := parseModule_heading hheading rest
  obtain ⟨stmts, findings, hadds, haddsNil⟩ :=
    exists_adds_fileBody hheading hline hnewline rest []
  have hwhole : whole.value.statements = stmts ++ others.value.statements ∧
      whole.findings = findings ++ others.findings := by
    have hwhole := parseModule_heading hheading (line ++ [newline] ++ rest)
    rw [hadds.getD (statements_isSome _ _ _), hadds.findings, ← hothers.1, ← hothers.2] at hwhole
    simpa only [whole, List.append_assoc] using hwhole
  have halone : alone.value.statements = stmts ∧ alone.findings = findings := by
    have hnil : fileBody heading [] = .done [] := statements_splitInput_nil _
    have halone := parseModule_heading hheading (line ++ [newline] ++ [])
    rw [haddsNil.getD (statements_isSome _ _ _), haddsNil.findings, hnil] at halone
    simpa [alone] using halone
  refine ⟨by rw [hwhole.1, halone.1], by rw [hwhole.2, halone.2], fun hroom => ?_⟩
  rw [hwhole.2, List.countP_append] at hroom
  rw [← Array.toList_inj, Array.toList_append, hwhole.2, halone.2,
    entries_note (by rw [List.countP_append]; omega), entries_note (by omega),
    entries_note (by omega), List.map_append]

/-- A declaration without a type is reported and left out; the next line is not affected. -/
theorem parseModule_append_line_untyped :
    let token (kind : Kind) (text : String) : Token := ⟨kind, text, ⟨0, 0⟩, .point .start⟩
    let newline := token .newline "\n"
    let heading := [token (.keyword .mod) "mod", token .identifier "m", newline]
    let line := [token .identifier "x", token (.punct .colon) ":", token .integer "5",
      token (.punct .rparen) ")"]
    let rest := [token .identifier "y", newline]
    let whole := parseModule (heading ++ line ++ [newline] ++ rest)
    let alone := parseModule (heading ++ line ++ [newline])
    let others := parseModule (heading ++ rest)
    heading.map Token.kind = Kind.heading ∧ IsLine line ∧ newline.kind = .newline ∧
      whole.value.statements = others.value.statements ∧
      (Diagnostics.empty.note whole.findings).entries =
        (Diagnostics.empty.note alone.findings).entries ++
          (Diagnostics.empty.note others.findings).entries ∧
      whole.findings.length = 1 := by
  intro token newline heading line rest whole alone others
  have hheading : heading.map Token.kind = Kind.heading := rfl
  have hline : IsLine line := ⟨by decide, by decide⟩
  have hnewline : newline.kind = .newline := rfl
  obtain ⟨hstmts, -, hentries⟩ := parseModule_append_line hheading hline hnewline rest
  have halone : alone.value.statements = [] := by with_unfolding_all rfl
  have hfindings : whole.findings = [⟨.expectedType .integer, .point .start⟩] := by
    with_unfolding_all rfl
  refine ⟨hheading, hline, hnewline, ?_, hentries ?_, ?_⟩
  · rw [hstmts, halone, List.nil_append]
  · rw [hfindings]
    decide
  · rw [hfindings]
    rfl

end KCompiler
