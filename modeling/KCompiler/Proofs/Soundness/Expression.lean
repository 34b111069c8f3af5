import KCompiler.Proofs.Ladder.Agreement
import KCompiler.Proofs.Soundness.Basic

/-! # Accepted expressions

Expressions are read by the ladder, which has a function for each rule of the grammar.
-/

namespace KCompiler

open Grammar Outcome

variable {eof : Token}

theorem literal_of_opening {token : Token} {value : Literal} {findings : List Finding}
    (hopening : Opening.ofToken? token = some (.literal value findings))
    (hharmless : ∀ finding ∈ findings, finding.Harmless) :
    Literal.ofToken? token = some (value, []) := by
  have hliteral : Literal.ofToken? token = some (value, findings) := by
    unfold Opening.ofToken? at hopening
    split at hopening
    · simp at hopening
    · simp at hopening
    · simp at hopening
    · simp at hopening
    · simpa using hopening
  -- The only findings of a literal are errors about its digits.
  suffices hnone : findings = [] by rw [hliteral, hnone]
  unfold Literal.ofToken? at hliteral
  split at hliteral
  · split at hliteral <;> cases hliteral
    · rfl
    · simp [Finding.Harmless, Finding.isError, Issue.level] at hharmless
  · split at hliteral <;> cases hliteral
    · rfl
    · simp [Finding.Harmless, Finding.isError, Issue.level] at hharmless
  all_goals cases hliteral
  all_goals rfl

theorem isName_of_opening {token : Token} {name : String}
    (hopening : Opening.ofToken? token = some (.name name)) : IsName token ∧ name = token.text := by
  unfold Opening.ofToken? at hopening
  split at hopening
  · simp at hopening
  next hkind =>
    cases hopening
    exact ⟨.inl hkind, rfl⟩
  next hkind =>
    cases hopening
    exact ⟨.inr (by simp [hkind, Kind.isBuiltin]), rfl⟩
  · simp at hopening
  · simp at hopening

theorem kind_of_opening_group {token : Token} (hopening : Opening.ofToken? token = some .group) :
    token.kind = .punct .lparen := by
  unfold Opening.ofToken? at hopening
  split at hopening
  · simp at hopening
  · simp at hopening
  · simp at hopening
  next hkind => exact hkind
  · simp at hopening

theorem isPrimary_of_name {token : Token} (hname : IsName token) {types args : List Token}
    {typeArgs : Option (List Ty)} {arguments : Option (List Expr)}
    (htypes : Optional .lbracket .rbracket IsType types typeArgs)
    (hargs : Optional .lparen .rparen IsAssignment args arguments) :
    IsPrimary (token :: (types ++ args)) (Expr.ofName token.text typeArgs arguments) := by
  cases htypes with
  | none =>
      cases hargs with
      | none => exact .name hname
      | some hitems => exact .call hname .none (.some hitems) (.inr rfl)
  | some hitems => exact .call hname (.some hitems) hargs (.inl rfl)

namespace Ladder

theorem casts_reads {first : Expr} {tokens : List Token} (hfirst : IsCast tokens first)
    (input : List Token) : (casts eof first input).Reads fun taken => IsCast (tokens ++ taken) := by
  cases input with
  | nil =>
      rw [casts]
      exact reads_done (by simpa using hfirst)
  | cons token rest =>
      rw [casts]
      split
      next has =>
        apply Reads.behind
        apply (typeExpr_reads rest).andThen
        intro type target htype rest' hrest
        refine (casts_reads (.cast hfirst has htype) rest').mono ?_
        intro taken value hvalue
        simpa using hvalue
      next => exact reads_done (by simpa using hfirst)
termination_by input.length

theorem trailers_reads {first : Expr} {tokens : List Token} (hfirst : IsTrailing tokens first)
    (input : List Token) :
    (trailers first input).Reads fun taken => IsTrailing (tokens ++ taken) := by
  induction input generalizing first tokens with
  | nil => exact reads_done (by simpa using hfirst)
  | cons token rest ih =>
      rw [trailers]
      split
      next op hop =>
        apply Reads.behind
        refine (ih (.trailing hfirst hop)).mono ?_
        intro taken value hvalue
        simpa using hvalue
      next => exact reads_done (by simpa using hfirst)

mutual
theorem assignment_reads (input : List Token) : (assignment eof input).Reads IsAssignment := by
  rw [assignment]
  apply (cast_reads input).andThen
  intro left lhs hleft rest hrest
  cases rest with
  | nil => exact reads_done (by simpa using .cast hleft)
  | cons token rest =>
      simp only
      split
      next op hop =>
        apply Reads.behind
        apply Reads.map
        refine (assignment_reads rest).mono ?_
        intro right rhs hright
        exact .assign hleft hop hright
      next => exact reads_done (by simpa using .cast hleft)
termination_by (input.length, 16)

theorem cast_reads (input : List Token) : (cast eof input).Reads IsCast := by
  rw [cast]
  apply (level_reads levels input).andThen
  intro tokens first hfirst rest _
  exact casts_reads (.level hfirst) rest
termination_by (input.length, 15)
decreasing_by simp [Prod.lex_def, levels]

theorem level_reads (ladder : List (List BinaryOp)) (input : List Token) :
    (level eof ladder input).Reads (IsLevel ladder) := by
  cases ladder with
  | nil =>
      rw [level]
      exact (unary_reads input).mono fun _ _ => .unary
  | cons ops tighter =>
      rw [level]
      apply (level_reads tighter input).andThen
      intro tokens first hfirst rest _
      exact chain_reads (.tighter hfirst) rest
termination_by (input.length, 4 + ladder.length)
decreasing_by all_goals grind

theorem chain_reads {ops : List BinaryOp} {tighter : List (List BinaryOp)} {first : Expr}
    {tokens : List Token} (hfirst : IsLevel (ops :: tighter) tokens first) (input : List Token) :
    (chain eof ops tighter first input).Reads fun taken =>
      IsLevel (ops :: tighter) (tokens ++ taken) := by
  cases input with
  | nil =>
      rw [chain]
      exact reads_done (by simpa using hfirst)
  | cons token rest =>
      rw [chain]
      split
      next op hop =>
        apply Reads.behind
        apply (level_reads tighter rest).andThen
        intro right second hright rest' hrest
        refine (chain_reads (.binary hfirst hop hright) rest').mono ?_
        intro taken value hvalue
        simpa using hvalue
      next => exact reads_done (by simpa using hfirst)
termination_by (input.length, 3)
decreasing_by all_goals grind

theorem unary_reads (input : List Token) : (unary eof input).Reads IsUnary := by
  cases input with
  | nil =>
      rw [unary]
      exact (trailing_reads []).mono fun _ _ => .trailing
  | cons token rest =>
      rw [unary]
      split
      next op hop =>
        apply Reads.behind
        apply Reads.map
        exact (unary_reads rest).mono fun _ _ => .leading hop
      next => exact (trailing_reads (token :: rest)).mono fun _ _ => .trailing
termination_by (input.length, 3)

theorem trailing_reads (input : List Token) : (trailing eof input).Reads IsTrailing := by
  rw [trailing]
  apply (primary_reads input).andThen
  intro tokens first hfirst rest _
  exact trailers_reads (.primary hfirst) rest
termination_by (input.length, 2)

theorem primary_reads (input : List Token) : (primary eof input).Reads IsPrimary := by
  cases input with
  | nil =>
      rw [primary]
      exact reads_of_error ⟨_, List.mem_singleton_self _, rfl⟩
  | cons token rest =>
      rw [primary]
      split
      next value findings hopening =>
        apply Reads.behind
        apply Reads.reporting
        intro hharmless
        exact reads_done (.literal (literal_of_opening hopening hharmless))
      next name hopening =>
        obtain ⟨hname, rfl⟩ := isName_of_opening hopening
        apply Reads.behind
        rw [typeArguments_def]
        apply (delimited_reads fun inner _ => typeExpr_reads inner).andThen
        intro types typeArgs htypes rest' hrest
        apply Reads.map
        refine (delimited_reads fun inner hinner => assignment_reads inner).mono ?_
        intro args arguments hargs
        exact isPrimary_of_name hname htypes hargs
      next hopening =>
        have hnewlines := length_skipNewlines_le rest
        apply Reads.behind
        apply Reads.withinNewlines
        intro breaks hbreaks
        apply (assignment_reads (skipNewlines rest)).andThen
        intro tokens value hvalue rest' _
        apply Reads.expecting
        intro last hlast rest'' _
        exact reads_done (.group (kind_of_opening_group hopening) hbreaks hvalue hlast)
      next =>
        -- The placeholder for a missing operand never stands in an accepted tree.
        simp only
        split
        · exact reads_of_error ⟨_, List.mem_singleton_self _, rfl⟩
        · apply Reads.behind
          exact reads_of_error ⟨_, List.mem_singleton_self _, rfl⟩
termination_by (input.length, 1)
decreasing_by all_goals grind
end

end Ladder

theorem expression_reads (input : List Token) : (expression eof 0 input).Reads IsAssignment := by
  rw [Ladder.expression_eq_assignment (Nat.zero_le 1)]
  exact Ladder.assignment_reads input

end KCompiler
