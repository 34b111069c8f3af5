import KCompiler.Parse.Statement

/-! # Statements one behind the other

The statements of a file, the statements of a block and the members of a record are read by one
loop. It passes over line breaks and semicolons, reads an item where none of them stands, and
stops with the input or, in braces, at the closing brace. What holds of every such loop is proved
once, by induction over an input as the loop takes it apart.
-/

namespace KCompiler

variable {α : Type} {inBraces : Bool}

/-- Kinds at which statements stop: the end of the input and, in braces, the closing brace. -/
def Kind.StopsStatements (inBraces : Bool) (kind : Kind) : Prop :=
  kind = .eof ∨ kind = .punct .rbrace ∧ inBraces

theorem Kind.StopsStatements.isBoundary {kind : Kind} (hstop : kind.StopsStatements inBraces) :
    kind.isBoundary := by
  rcases hstop with hkind | ⟨hkind, -⟩ <;> rw [hkind] <;> rfl

theorem Kind.cases_of_isBoundary {kind : Kind} (inBraces : Bool) (hboundary : kind.isBoundary) :
    kind.StopsStatements inBraces ∨ (kind = .newline ∨ kind = .punct .semicolon) ∨
      (kind = .punct .rbrace ∧ inBraces = false) := by
  unfold Kind.isBoundary at hboundary
  split at hboundary
  · exact .inr (.inl (.inl rfl))
  · exact .inr (.inl (.inr rfl))
  · cases inBraces with
    | false => exact .inr (.inr ⟨rfl, rfl⟩)
    | true => exact .inl (.inr ⟨rfl, rfl⟩)
  · exact .inl (.inl rfl)
  · cases hboundary

/-- Induction over an input as a loop over statements takes it apart. -/
theorem statementInduction (inBraces : Bool) (parse : (input : List Token) → Outcome input α)
    {motive : List Token → Prop} (nil : motive [])
    (stop : ∀ token rest, token.kind.StopsStatements inBraces → motive (token :: rest))
    (blank : ∀ token rest, token.kind = .newline ∨ token.kind = .punct .semicolon →
      motive rest → motive (token :: rest))
    (stray : ∀ token rest, token.kind = .punct .rbrace → inBraces = false →
      motive rest → motive (token :: rest))
    (item : ∀ token rest, token.kind.isBoundary = false →
      motive (finishStatement (parse (token :: rest))).rest → motive (token :: rest))
    (input : List Token) : motive input := by
  induction hlength : input.length using Nat.strongRecOn generalizing input with
  | ind length ih =>
      subst hlength
      cases input with
      | nil => exact nil
      | cons token rest =>
          have hrest : motive rest := ih rest.length (Nat.lt_succ_self _) rest rfl
          cases hboundary : token.kind.isBoundary with
          | false =>
              have hless := length_finishStatement_lt hboundary (parse (token :: rest))
              exact item token rest hboundary (ih _ hless _ rfl)
          | true =>
              rcases Kind.cases_of_isBoundary inBraces hboundary with hstop | hends | ⟨hbrace, hopen⟩
              · exact stop token rest hstop
              · exact blank token rest hends hrest
              · exact stray token rest hbrace hopen hrest

/-- A parser that reads statements by `parse`, one behind the other. Outside braces a closing
brace is stray, and passed over with an error. -/
structure StatementLoop (inBraces : Bool) (loop : (input : List Token) → Outcome input (List α))
    (parse : (input : List Token) → Outcome input α) : Prop where
  nil : loop [] = .done []
  stop {token : Token} {rest : List Token} (hstop : token.kind.StopsStatements inBraces) :
    loop (token :: rest) = .done []
  blank {token : Token} {rest : List Token}
    (hends : token.kind = .newline ∨ token.kind = .punct .semicolon) :
    loop (token :: rest) = (loop rest).behind token
  stray {token : Token} {rest : List Token} (hbrace : token.kind = .punct .rbrace)
    (hopen : inBraces = false) :
    loop (token :: rest) = ((loop rest).reporting [⟨.strayBrace, token.span⟩]).behind token
  item {token : Token} {rest : List Token} (hinner : token.kind.isBoundary = false) :
    loop (token :: rest) =
      ((((loop (finishStatement (parse (token :: rest))).rest).map fun values =>
        (finishStatement (parse (token :: rest))).value.join.toList ++ values).reporting
          (finishStatement (parse (token :: rest))).findings).within
            (finishStatement (parse (token :: rest))).suffix)

theorem statements_loop (eof : Token) (scope : Scope) (inBlock : Bool) :
    StatementLoop inBlock (statements eof scope inBlock) (statement eof scope) where
  nil := statements_nil eof scope inBlock
  stop {token rest} hstop := by
    rw [statements_cons, if_pos hstop.isBoundary]
    exact if_pos hstop
  blank {token rest} hends := by
    rw [statements_cons]
    rcases hends with hkind | hkind
    · simp only [hkind, Kind.isBoundary]
      rfl
    · simp only [hkind, Kind.isBoundary]
      rfl
  stray {token rest} hbrace hopen := by
    rw [statements_cons]
    simp only [hbrace, hopen, Kind.isBoundary]
    rfl
  item hinner := by
    rw [statements_cons, if_neg (by simp [hinner])]

theorem members_loop (eof : Token) : StatementLoop true (members eof) (member eof) where
  nil := members_nil eof
  stop {token rest} hstop := by
    rw [members_cons, if_pos hstop.isBoundary]
    exact if_pos (hstop.imp_right And.left)
  blank {token rest} hends := by
    rw [members_cons]
    rcases hends with hkind | hkind
    · simp only [hkind, Kind.isBoundary]
      rfl
    · simp only [hkind, Kind.isBoundary]
      rfl
  stray _ hopen := by cases hopen
  item hinner := by
    rw [members_cons, if_neg (by simp [hinner])]

namespace StatementLoop

variable {loop : (input : List Token) → Outcome input (List α)}
  {parse : (input : List Token) → Outcome input α} (hloop : StatementLoop inBraces loop parse)

include hloop

/-- Broken statements are left out, so that a list of statements never gives up. -/
theorem isSome (input : List Token) : (loop input).value.isSome := by
  induction input using statementInduction inBraces parse with
  | nil =>
      rw [hloop.nil]
      rfl
  | stop token rest hstop =>
      rw [hloop.stop hstop]
      rfl
  | blank token rest hends ih =>
      rw [hloop.blank hends]
      exact ih
  | stray token rest hbrace hopen ih =>
      rw [hloop.stray hbrace hopen]
      exact ih
  | item token rest hinner ih =>
      rw [hloop.item hinner]
      simpa using ih

/-- Statements end with the input or at what stops them. -/
theorem stopsStatements (input : List Token) :
    ∀ token ∈ (loop input).rest.head?, token.kind.StopsStatements inBraces := by
  induction input using statementInduction inBraces parse with
  | nil =>
      rw [hloop.nil]
      simp
  | stop token rest hstop =>
      rw [hloop.stop hstop]
      simpa using hstop
  | blank token rest hends ih =>
      rw [hloop.blank hends]
      exact ih
  | stray token rest hbrace hopen ih =>
      rw [hloop.stray hbrace hopen]
      exact ih
  | item token rest hinner ih =>
      rw [hloop.item hinner]
      exact ih

end StatementLoop

end KCompiler
