import KCompiler.Proofs.Equations
import KCompiler.Proofs.Outcome
import KCompiler.Proofs.Printing

/-! # Reading back what was printed

A printed form is read back from its tokens whatever stands behind them, as long as that cannot
be taken for a part of the form. So a form comes with the kinds of tokens that end it, and with
those that begin it.
-/

namespace KCompiler

namespace Outcome

variable {input inner : List Token} {α β : Type}

/-- An outcome gives a value, leaves some tokens and finds some issues. -/
structure Yields (outcome : Outcome input α) (value : α) (rest : List Token)
    (issues : List Issue) : Prop where
  value_eq : outcome.value = some value
  rest_eq : outcome.rest = rest
  issues_eq : outcome.findings.map Finding.issue = issues

theorem yields_done (value : α) : (done value : Outcome input α).Yields value input [] :=
  ⟨rfl, rfl, rfl⟩

namespace Yields

variable {outcome : Outcome input α} {value : α} {rest : List Token} {issues : List Issue}

theorem map (hyields : outcome.Yields value rest issues) (f : α → β) :
    (outcome.map f).Yields (f value) rest issues :=
  ⟨by simp [hyields.value_eq], hyields.rest_eq, hyields.issues_eq⟩

theorem reporting (hyields : outcome.Yields value rest issues) (findings : List Finding) :
    (outcome.reporting findings).Yields value rest (findings.map Finding.issue ++ issues) :=
  ⟨hyields.value_eq, hyields.rest_eq, by simp [hyields.issues_eq]⟩

theorem within {outcome : Outcome inner α} (hyields : outcome.Yields value rest issues)
    (hsuffix : inner <:+ input) : (outcome.within hsuffix).Yields value rest issues :=
  ⟨hyields.value_eq, hyields.rest_eq, hyields.issues_eq⟩

theorem behind (hyields : outcome.Yields value rest issues) (token : Token) :
    (outcome.behind token).Yields value rest issues :=
  hyields.within _

theorem andThen {middle : List Token} {found : List Issue}
    {next : α → (rest : List Token) → rest.length ≤ input.length → Outcome rest β} {result : β}
    (hyields : outcome.Yields value middle found)
    (hnext : ∀ hlength, (next value middle hlength).Yields result rest issues) :
    (outcome.andThen next).Yields result rest (found ++ issues) := by
  obtain ⟨_, _, findings, hsuffix⟩ := outcome
  obtain ⟨rfl, rfl, rfl⟩ := hyields
  exact ((hnext hsuffix.length_le).reporting findings).within hsuffix

end Yields
end Outcome

open Outcome

/-- A parser reads a value back from its words if a token stands behind them that ends them. -/
def Restores {α : Type} (parse : (input : List Token) → Outcome input α) (ends : Kind → Bool)
    (words : List Word) (value : α) (issues : List Issue) : Prop :=
  ∀ ⦃tokens : List Token⦄ (last : Token) (rest : List Token), Spells tokens words →
    ends last.kind → (parse (tokens ++ last :: rest)).Yields value (last :: rest) issues

/-- The first of some words can only be written by tokens of some kinds. -/
def Begins (starts : Kind → Bool) (words : List Word) : Prop :=
  ∃ word more, words = word :: more ∧ ∀ token, word.Spelt token → starts token.kind

namespace Begins

variable {starts : Kind → Bool} {words : List Word}

theorem exists_cons (hbegins : Begins starts words) {tokens : List Token}
    (htokens : Spells tokens words) : ∃ token more, tokens = token :: more ∧ starts token.kind := by
  obtain ⟨word, more, rfl, hword⟩ := hbegins
  obtain ⟨token, rest, rfl, hspelt, -⟩ := spells_cons.mp htokens
  exact ⟨token, rest, rfl, hword token hspelt⟩

theorem append (hbegins : Begins starts words) (more : List Word) :
    Begins starts (words ++ more) := by
  obtain ⟨word, others, rfl, hword⟩ := hbegins
  exact ⟨word, others ++ more, rfl, hword⟩

theorem commaWords (hbegins : Begins starts words) (items : List (List Word)) :
    Begins starts (commaWords (words :: items)) := by
  cases items with
  | nil => exact hbegins
  | cons item items => exact hbegins.append _

end Begins

/-- Kinds that begin an item of a list or a statement. -/
def Kind.startsItem (kind : Kind) : Bool :=
  !kind.isBoundary && kind ≠ .punct .rparen && kind ≠ .punct .rbracket

/-- Kinds that begin a statement. -/
def Kind.startsStatement (kind : Kind) : Bool :=
  kind.startsItem && kind ≠ .keyword .else

theorem Kind.startsItem_of_startsStatement (kind : Kind) (hkind : kind.startsStatement) :
    kind.startsItem :=
  (Bool.and_eq_true_iff.mp hkind).1

/-- Kinds that end a type, so that no arguments follow. -/
def Kind.endsType (kind : Kind) : Bool :=
  kind ≠ .punct .lbracket

/-- Kinds that end an operand, so that no arguments follow. -/
def Kind.endsOperand (kind : Kind) : Bool :=
  kind ≠ .punct .lbracket && kind ≠ .punct .lparen

/-- Kinds that end an expression, so that no operator follows either. -/
def Kind.endsExpression (kind : Kind) : Bool :=
  kind.endsOperand && (Continuation.ofKind? kind).isNone

/-- The brackets that close a list. -/
inductive Closing : Punct → Prop
  | rparen : Closing .rparen
  | rbracket : Closing .rbracket

/-- Kinds that end an item of a list. -/
def Kind.endsItem (closing : Punct) (kind : Kind) : Bool :=
  kind = .punct .comma || kind = .punct closing

section Lists

variable {α : Type} {parse : (input : List Token) → Outcome input α} {words : α → List Word}
  {values : List α} {tokens rest : List Token} {opening closing : Punct} {last : Token}

theorem Begins.skipNewlines_append {words : List Word} (hbegins : Begins Kind.startsItem words)
    (htokens : Spells tokens words) : skipNewlines (tokens ++ rest) = tokens ++ rest := by
  obtain ⟨token, more, rfl, hstarts⟩ := hbegins.exists_cons htokens
  apply skipNewlines_of_kind
  intro hkind
  simp [hkind, Kind.startsItem, Kind.isBoundary] at hstarts

theorem Closing.not_starts {kind : Kind} (hclosing : Closing closing) (hkind : kind.startsItem) :
    ¬(kind = .punct closing ∨ kind = .eof) := by
  rintro (rfl | rfl)
  · cases hclosing <;> simp [Kind.startsItem] at hkind
  · simp [Kind.startsItem, Kind.isBoundary] at hkind

theorem itemsOf_last_yields {token : Token} {value : α} (hclosing : Closing closing)
    (htoken : token.kind.startsItem) (hlast : last.kind = .punct closing)
    (hitem : (parse (token :: tokens)).Yields value (last :: rest) []) :
    (itemsOf (.punct closing) (token :: tokens) fun inner _ => parse inner).Yields [value]
      (last :: rest) [] := by
  have hcomma : last.kind ≠ .punct .comma := by cases hclosing <;> simp [hlast]
  rw [itemsOf_cons, if_neg (hclosing.not_starts htoken)]
  refine hitem.andThen fun _ => ?_
  simp only [if_neg hcomma]
  exact yields_done [value]

theorem itemsOf_cons_yields {token comma : Token} {value : α} {more : List Token}
    (hclosing : Closing closing) (htoken : token.kind.startsItem)
    (hcomma : comma.kind = .punct .comma)
    (hitem : (parse (token :: tokens)).Yields value (comma :: more) [])
    (hmore : (itemsOf (.punct closing) (skipNewlines more) fun inner _ => parse inner).Yields values
      rest []) :
    (itemsOf (.punct closing) (token :: tokens) fun inner _ => parse inner).Yields
      (value :: values) rest [] := by
  rw [itemsOf_cons, if_neg (hclosing.not_starts htoken)]
  refine hitem.andThen fun _ => ?_
  simp only [if_pos hcomma]
  exact ((hmore.map _).within _).behind comma

theorem itemsOf_yields (hclosing : Closing closing)
    (hbegins : ∀ value ∈ values, Begins Kind.startsItem (words value))
    (hitems : ∀ value ∈ values, Restores parse (Kind.endsItem closing) (words value) value [])
    (htokens : Spells tokens (commaWords (values.map words))) (hlast : last.kind = .punct closing) :
    (itemsOf (.punct closing) (tokens ++ last :: rest) fun inner _ => parse inner).Yields values
      (last :: rest) [] := by
  induction values generalizing tokens with
  | nil =>
      obtain rfl := spells_nil.mp htokens
      rw [List.nil_append, itemsOf_cons, if_pos (.inl hlast)]
      exact yields_done []
  | cons value values ih =>
      rw [List.forall_mem_cons] at hbegins hitems
      cases values with
      | nil =>
          have hitem := hitems.1 last rest htokens (by simp [Kind.endsItem, hlast])
          obtain ⟨token, more, rfl, hkind⟩ := hbegins.1.exists_cons htokens
          exact itemsOf_last_yields hclosing hkind hlast hitem
      | cons second others =>
          obtain ⟨front, back, rfl, hfront, hback⟩ := spells_append.mp htokens
          obtain ⟨comma, tail, rfl, hcomma, htail⟩ := spells_cons.mp hback
          rw [Word.spelt_punct] at hcomma
          -- The comma ends the first item, and no line break stands between it and the second.
          have hends : comma.kind.endsItem closing := by simp [Kind.endsItem, hcomma]
          have hitem := hitems.1 comma (tail ++ last :: rest) hfront hends
          have hmore := ih hbegins.2 hitems.2 htail
          have hsecond := (hbegins.2 second List.mem_cons_self).commaWords (others.map words)
          obtain ⟨token, more, rfl, hkind⟩ := hbegins.1.exists_cons hfront
          rw [List.append_assoc]
          refine itemsOf_cons_yields hclosing hkind hcomma hitem ?_
          rwa [hsecond.skipNewlines_append htail]

theorem listOf_yields (hclosing : Closing closing)
    (hbegins : ∀ value ∈ values, Begins Kind.startsItem (words value))
    (hitems : ∀ value ∈ values, Restores parse (Kind.endsItem closing) (words value) value [])
    (htokens : Spells tokens (commaWords (values.map words))) (hlast : last.kind = .punct closing) :
    (listOf (.punct closing) (tokens ++ last :: rest) fun inner _ => parse inner).Yields values
      (last :: rest) [] := by
  have hskip : skipNewlines (tokens ++ last :: rest) = tokens ++ last :: rest := by
    cases values with
    | nil =>
        obtain rfl := spells_nil.mp htokens
        exact skipNewlines_of_kind (by simp [hlast])
    | cons value values =>
        exact ((hbegins value List.mem_cons_self).commaWords _).skipNewlines_append htokens
  rw [listOf_def]
  apply Yields.within
  change (itemsOf _ (skipNewlines (tokens ++ last :: rest)) fun inner _ => parse inner).Yields _ _ _
  rw [hskip]
  exact itemsOf_yields hclosing hbegins hitems htokens hlast

/-- A list in brackets is read back whatever stands behind it. -/
theorem delimited_yields {eof : Token} (hclosing : Closing closing)
    (hbegins : ∀ value ∈ values, Begins Kind.startsItem (words value))
    (hitems : ∀ value ∈ values, Restores parse (Kind.endsItem closing) (words value) value [])
    (htokens : Spells tokens (bracketWords opening closing (values.map words))) :
    (delimited eof (.punct opening) (.punct closing) (tokens ++ rest) fun inner _ =>
      parse inner).Yields (some values) rest [] := by
  obtain ⟨first, _, rfl, hfirst, htokens⟩ := spells_cons.mp htokens
  obtain ⟨inside, _, rfl, hinside, hclose⟩ := spells_append.mp htokens
  obtain ⟨last, rfl, hlast⟩ := spells_singleton.mp hclose
  rw [Word.spelt_punct] at hfirst hlast
  rw [List.cons_append, List.append_assoc, delimited_cons, if_pos hfirst]
  refine Yields.behind (Yields.andThen (listOf_yields hclosing hbegins hitems hinside hlast) ?_) _
  intro hlength
  rw [expecting_of_kind hlast]
  exact (yields_done _).behind last

theorem delimited_yields_none {eof token : Token} (hkind : token.kind ≠ .punct opening) :
    (delimited eof (.punct opening) (.punct closing) (token :: rest) fun inner _ =>
      parse inner).Yields none (token :: rest) [] := by
  rw [delimited_cons, if_neg hkind]
  exact yields_done none

end Lists

theorem Restores.mono {α : Type} {parse : (input : List Token) → Outcome input α}
    {ends stricter : Kind → Bool} {words : List Word} {value : α} {issues : List Issue}
    (hrestores : Restores parse ends words value issues)
    (hstricter : ∀ kind, stricter kind → ends kind) :
    Restores parse stricter words value issues :=
  fun _ last rest htokens hlast => hrestores last rest htokens (hstricter _ hlast)

theorem Kind.endsExpression_of_endsItem {closing : Punct} (hclosing : Closing closing) (kind : Kind)
    (hkind : kind.endsItem closing) : kind.endsExpression := by
  have hcases : kind = .punct .comma ∨ kind = .punct closing := by simpa [Kind.endsItem] using hkind
  rcases hcases with rfl | rfl
  · rfl
  · cases hclosing <;> rfl

theorem Kind.endsType_of_endsExpression (kind : Kind) (hkind : kind.endsExpression) :
    kind.endsType := by
  simp only [Kind.endsExpression, Kind.endsOperand, Bool.and_eq_true] at hkind
  exact hkind.1.1

end KCompiler
