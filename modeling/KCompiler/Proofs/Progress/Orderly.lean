import KCompiler.Proofs.Progress.Advance
import KCompiler.Proofs.Progress.Complete
import KCompiler.Token.Lexer
import Mathlib.Data.List.Chain

/-! # Parsing advances

Whatever the tokens are, with an end of the input behind them, among them or nowhere, parsing a file
or an expression leaves a complete record of a run in which the tokens ahead are always an end of
the input and never grow. A turn of a loop that is followed by another takes a token, and so does
everything that stands between two activations of one routine, one inside the other.
-/

namespace KCompiler

/-- A step of a run, in the run itself or inside one of its activations. -/
inductive Run.Occurs (run : Run) : List Run → Prop
  | here {runs : List Run} (hmem : run ∈ runs) : Occurs run runs
  | inside {runs inside : List Run} {routine : Routine} {start finish : List Token}
      (hmem : .call routine start finish inside ∈ runs) (hinside : Occurs run inside) :
      Occurs run runs

mutual
/-- The tokens ahead as a step goes on, from the first time to the last. A turn is noted when the
next one begins. -/
def Run.places : Run → List (List Token)
  | .call _ start finish inside => start :: (Run.allPlaces inside ++ [finish])
  | .turn _ _ finish => [finish]

/-- The tokens ahead as a run goes on. -/
def Run.allPlaces : List Run → List (List Token)
  | [] => []
  | run :: runs => run.places ++ Run.allPlaces runs
end

/-- A run over the tokens that gets on: in its loops, in its recursion, and in the input. -/
structure Orderly (tokens : List Token) (runs : List Run) : Prop where
  turn_advances : ∀ {loop : Loop} {start finish : List Token},
    Run.Occurs (.turn loop start finish) runs →
      start <:+ tokens ∧ finish <:+ start ∧ finish.length < start.length
  nested_advances : ∀ {routine : Routine} {start finish start' finish' : List Token}
    {inside inside' : List Run}, Run.Occurs (.call routine start finish inside) runs →
      Run.Occurs (.call routine start' finish' inside') inside →
        start' <:+ start ∧ start'.length < start.length
  places_advance : (tokens :: Run.allPlaces runs).Pairwise fun earlier later => later <:+ earlier

namespace Forward

variable {whole before after start finish : List Token} {bound : Nat} {runs inside : List Run}
  {routine : Routine} {loop : Loop}

theorem of_call_mem (hforward : Forward whole bound before runs after)
    (hmem : .call routine start finish inside ∈ runs) :
    start <:+ before ∧ routine.measure start < bound ∧
      Forward whole (routine.measure start) start inside finish := by
  induction hforward with
  | nil _ => cases hmem
  | call hstart hless hinside hruns _ ih =>
      rcases List.mem_cons.mp hmem with heq | hmem
      · cases heq
        exact ⟨hstart, hless, hinside⟩
      · obtain ⟨hsuffix, hrest⟩ := ih hmem
        exact ⟨(hsuffix.trans hinside.suffix).trans hstart, hrest⟩
  | turn _ hfinish _ _ ih =>
      obtain ⟨hsuffix, hrest⟩ := ih (by simpa using hmem)
      exact ⟨hsuffix.trans hfinish, hrest⟩

theorem of_turn_mem (hforward : Forward whole bound before runs after)
    (hmem : .turn loop start finish ∈ runs) :
    start <:+ whole ∧ finish <:+ before ∧ finish.length < start.length := by
  induction hforward with
  | nil _ => cases hmem
  | call hstart _ hinside _ _ ih =>
      obtain ⟨hwhole, hsuffix, hless⟩ := ih (by simpa using hmem)
      exact ⟨hwhole, (hsuffix.trans hinside.suffix).trans hstart, hless⟩
  | turn hstart hfinish hless _ ih =>
      rcases List.mem_cons.mp hmem with heq | hmem
      · cases heq
        exact ⟨hstart, hfinish, hless⟩
      · obtain ⟨hwhole, hsuffix, hless⟩ := ih hmem
        exact ⟨hwhole, hsuffix.trans hfinish, hless⟩

/-- An activation is below every activation around it. -/
theorem of_call_occurs (hforward : Forward whole bound before runs after)
    (hoccurs : Run.Occurs (.call routine start finish inside) runs) :
    start <:+ before ∧ routine.measure start < bound ∧
      Forward whole (routine.measure start) start inside finish := by
  induction hoccurs generalizing bound before after with
  | here hmem => exact hforward.of_call_mem hmem
  | inside hmem _ ih =>
      obtain ⟨houter, hbelow, hinside⟩ := hforward.of_call_mem hmem
      obtain ⟨hsuffix, hless, hforward⟩ := ih hinside
      exact ⟨hsuffix.trans houter, hless.trans hbelow, hforward⟩

theorem of_turn_occurs (hforward : Forward whole bound before runs after)
    (hoccurs : Run.Occurs (.turn loop start finish) runs) :
    start <:+ whole ∧ finish <:+ before ∧ finish.length < start.length := by
  induction hoccurs generalizing bound before after with
  | here hmem => exact hforward.of_turn_mem hmem
  | inside hmem _ ih =>
      obtain ⟨houter, _, hinside⟩ := hforward.of_call_mem hmem
      obtain ⟨hwhole, hsuffix, hless⟩ := ih hinside
      exact ⟨hwhole, hsuffix.trans houter, hless⟩

/-- Along a run the tokens ahead only get fewer, from its beginning to its end. -/
theorem isChain_places (hforward : Forward whole bound before runs after) :
    (before :: (Run.allPlaces runs ++ [after])).IsChain fun earlier later => later <:+ earlier := by
  induction hforward with
  | nil hsuffix => simpa [Run.allPlaces] using hsuffix
  | @call _ before start finish after routine inside runs hstart _ _ _ hinside hruns =>
      -- The places inside end where those behind begin.
      have hcall : (start :: Run.allPlaces inside ++
          finish :: (Run.allPlaces runs ++ [after])).IsChain fun earlier later => later <:+ earlier :=
        List.isChain_split.mpr ⟨hinside, hruns⟩
      simpa [Run.allPlaces, Run.places] using ⟨hstart, hcall⟩
  | turn _ hfinish _ _ hruns => simpa [Run.allPlaces, Run.places] using ⟨hfinish, hruns⟩

theorem orderly (hforward : Forward whole bound before runs after) (hbefore : before <:+ whole) :
    Orderly whole runs where
  turn_advances hturn := by
    obtain ⟨hstart, hfinish, hless⟩ := hforward.of_turn_occurs hturn
    have hsuffix := List.suffix_of_suffix_length_le (hfinish.trans hbefore) hstart hless.le
    exact ⟨hstart, hsuffix, hless⟩
  nested_advances houter hinner := by
    obtain ⟨_, _, hinside⟩ := hforward.of_call_occurs houter
    obtain ⟨hsuffix, hless, _⟩ := hinside.of_call_occurs hinner
    -- The routine is the same, so that the measure is down to the tokens.
    unfold Routine.measure at hless
    exact ⟨hsuffix, by omega⟩
  places_advance := by
    have hchain := (hforward.behind hbefore).isChain_places
    rw [← List.cons_append] at hchain
    let _ : Trans (fun earlier later : List Token => later <:+ earlier)
        (fun earlier later => later <:+ earlier) (fun earlier later => later <:+ earlier) :=
      ⟨fun hfirst hsecond => hsecond.trans hfirst⟩
    exact List.isChain_iff_pairwise.mp hchain.left_of_append

end Forward

theorem orderly_parseModule (tokens : List Token) :
    Orderly tokens (Recorded.parseModule tokens).runs := by
  have hheader := (moduleHeader (endToken tokens) (skipNewlines tokens)).suffix.trans
    (skipNewlines_suffix tokens)
  rw [Recorded.parseModule, (complete _).runs_module]
  split
  next =>
    have hempty : Forward tokens 0 tokens [] tokens := .nil List.suffix_rfl
    exact hempty.orderly List.suffix_rfl
  next =>
    exact (Traced.statements_advances .topLevel false _ _ (Nat.lt_succ_self _) hheader).orderly
      hheader

theorem orderly_parseExpression (tokens : List Token) :
    Orderly tokens (Recorded.parseExpression tokens).runs := by
  have hsuffix := skipNewlines_suffix tokens
  rw [Recorded.parseExpression, (complete _).runs_alone]
  exact (Traced.expression_advances 0 _ _ (Nat.lt_succ_self _) hsuffix).orderly hsuffix

/-- Parsing gets on, whatever the tokens are: a file and an expression are parsed together with a
record that leaves out nothing, and the recorded run is an orderly one. -/
theorem parsing_advances (tokens : List Token) :
    Complete (endToken tokens) ∧
    ((Recorded.parseModule tokens).parsed = parseModule tokens ∧
      Orderly tokens (Recorded.parseModule tokens).runs) ∧
    (Recorded.parseExpression tokens).parsed = parseExpression tokens ∧
      Orderly tokens (Recorded.parseExpression tokens).runs :=
  ⟨complete _, ⟨rfl, orderly_parseModule tokens⟩, rfl, orderly_parseExpression tokens⟩

mutual
/-- The routines and loops that a step goes through, with how many tokens are ahead at the beginning
and at the end. -/
def Run.outline : Run → List ((Routine ⊕ Loop) × Nat × Nat)
  | .call routine start finish inside =>
    (.inl routine, start.length, finish.length) :: Run.allOutlines inside
  | .turn loop start finish => [(.inr loop, start.length, finish.length)]

def Run.allOutlines : List Run → List ((Routine ⊕ Loop) × Nat × Nat)
  | [] => []
  | run :: runs => run.outline ++ Run.allOutlines runs
end

/-- A record with a method that breaks off inside of a branch, and tokens behind the end of the
input. -/
def brokenRecord : List Token :=
  (lex "mod m\nrecord R\x7bx:A;fx f(a:T,b:T)\x7bif x+").tokens ++ (lex "\x7d").tokens

theorem parsing_advances_brokenRecord :
    Run.allOutlines (Recorded.parseModule brokenRecord).runs =
      [(.inl .statement, 25, 3), (.inl .record, 25, 3), (.inl .type, 24, 23), (.inl .type, 20, 19),
        (.inr .members, 22, 18), (.inl .function, 18, 3), (.inl .list, 15, 8), (.inl .type, 13, 12),
        (.inr .items, 15, 11), (.inl .type, 9, 8), (.inl .block, 7, 3), (.inl .statement, 6, 3),
        (.inl .branch, 6, 3), (.inl .expression, 5, 3), (.inl .operand, 5, 4),
        (.inl .expression, 3, 3), (.inl .operand, 3, 3), (.inr .operators, 4, 3),
        (.inl .block, 3, 3), (.inr .statements, 6, 3), (.inr .members, 18, 3),
        (.inr .statements, 25, 3)] ∧
      Orderly brokenRecord (Recorded.parseModule brokenRecord).runs :=
  ⟨by decide +kernel, (parsing_advances brokenRecord).2.1.2⟩

end KCompiler
