import KCompiler.Proofs.Acceptance
import KCompiler.Proofs.Equations

/-! # What a parser has read

An accepted outcome of a parser has taken tokens that follow a rule of the grammar. The rule is
passed along the parser, so that each step of it moves the tokens it takes to the front of what
is left to be read.
-/

namespace KCompiler

open Grammar

namespace Outcome

variable {input inner : List Token} {α β : Type}

/-- An accepted outcome has taken tokens that stand for its value. -/
def Reads (rule : List Token → α → Prop) (outcome : Outcome input α) : Prop :=
  ∀ value rest, outcome.Gives value rest →
    ∃ taken, input = taken ++ rest ∧ rule taken value

theorem reads_done {rule : List Token → α → Prop} {value : α} (hrule : rule [] value) :
    (done value : Outcome input α).Reads rule := by
  intro result rest hgives
  obtain ⟨rfl, rfl⟩ := gives_done.mp hgives
  exact ⟨[], rfl, hrule⟩

theorem reads_of_error {rule : List Token → α → Prop} {findings : List Finding}
    {outcome : Outcome input α} (herror : ∃ finding ∈ findings, finding.isError) :
    (outcome.reporting findings).Reads rule := by
  intro value rest hgives
  obtain ⟨finding, hmem, herror⟩ := herror
  have hharmless := (gives_reporting.mp hgives).1 finding hmem
  rw [Finding.Harmless, herror] at hharmless
  cases hharmless

namespace Reads

variable {rule : List Token → α → Prop}

theorem mono {outcome : Outcome input α} (hreads : outcome.Reads rule)
    {other : List Token → α → Prop} (hrule : ∀ taken value, rule taken value → other taken value) :
    outcome.Reads other := by
  intro value rest hgives
  obtain ⟨taken, hinput, htaken⟩ := hreads value rest hgives
  exact ⟨taken, hinput, hrule taken value htaken⟩

theorem map {outcome : Outcome input α} {f : α → β} {other : List Token → β → Prop}
    (hreads : outcome.Reads fun taken value => other taken (f value)) :
    (outcome.map f).Reads other := by
  intro result rest hgives
  obtain ⟨value, hvalue, rfl⟩ := gives_map.mp hgives
  exact hreads value rest hvalue

theorem reporting {outcome : Outcome input α} {findings : List Finding}
    (hreads : (∀ finding ∈ findings, finding.Harmless) → outcome.Reads rule) :
    (outcome.reporting findings).Reads rule := by
  intro value rest hgives
  obtain ⟨hfindings, hgives⟩ := gives_reporting.mp hgives
  exact hreads hfindings value rest hgives

theorem behind {token : Token} {outcome : Outcome input α}
    (hreads : outcome.Reads fun taken => rule (token :: taken)) :
    (outcome.behind token).Reads rule := by
  intro value rest hgives
  obtain ⟨taken, rfl, htaken⟩ := hreads value rest (gives_behind.mp hgives)
  exact ⟨token :: taken, rfl, htaken⟩

/-- The line breaks before the input of a parser belong to what it reads. -/
theorem withinNewlines {outcome : Outcome (skipNewlines input) α}
    (hreads : ∀ breaks, Newlines breaks → outcome.Reads fun taken => rule (breaks ++ taken)) :
    (outcome.within (skipNewlines_suffix input)).Reads rule := by
  intro value rest hgives
  obtain ⟨breaks, hbreaks, hinput⟩ := exists_newlines input
  obtain ⟨taken, hrest, htaken⟩ := hreads breaks hbreaks value rest (gives_within.mp hgives)
  refine ⟨breaks ++ taken, ?_, htaken⟩
  rw [List.append_assoc, ← hrest]
  exact hinput

theorem andThen {outcome : Outcome input α} {other : List Token → β → Prop}
    {next : α → (rest : List Token) → rest.length ≤ input.length → Outcome rest β}
    (hreads : outcome.Reads rule)
    (hnext : ∀ taken value, rule taken value → ∀ rest hlength,
      (next value rest hlength).Reads fun more => other (taken ++ more)) :
    (outcome.andThen next).Reads other := by
  intro result rest hgives
  obtain ⟨value, middle, hgives, hlength, hafter⟩ := gives_andThen.mp hgives
  obtain ⟨taken, rfl, htaken⟩ := hreads value middle hgives
  obtain ⟨more, rfl, hmore⟩ := hnext taken value htaken middle hlength result rest hafter
  exact ⟨taken ++ more, (List.append_assoc ..).symm, hmore⟩

theorem expecting {eof : Token} {kind : Kind}
    {next : Token → (rest : List Token) → rest.length < input.length → Outcome rest α}
    (hnext : ∀ token, token.kind = kind → ∀ rest hlength,
      (next token rest hlength).Reads fun taken => rule (token :: taken)) :
    (expecting eof kind input next).Reads rule := by
  intro value rest hgives
  obtain ⟨token, middle, rfl, hkind, hlength, hgives⟩ :=
    exists_of_expecting_gives hgives
  obtain ⟨taken, rfl, htaken⟩ := hnext token hkind middle hlength value rest hgives
  exact ⟨token :: taken, rfl, htaken⟩

end Reads
end Outcome

open Outcome

variable {eof : Token} {α : Type}

theorem itemsOf_reads {closing : Kind} {rule : List Token → α → Prop} (input : List Token)
    {item : (inner : List Token) → inner.length ≤ input.length → Outcome inner α}
    (hitem : ∀ inner hlength, (item inner hlength).Reads rule) :
    (itemsOf closing input item).Reads (Commas rule) := by
  match input with
  | [] =>
      rw [itemsOf_nil]
      exact reads_done .nil
  | token :: tokens =>
      rw [itemsOf_cons]
      split
      · exact reads_done .nil
      · apply (hitem _ _).andThen
        intro taken first hfirst rest hrest
        cases rest with
        | nil => exact reads_done (by simpa using .last hfirst)
        | cons comma more =>
            have hmore := length_skipNewlines_le more
            simp only
            split
            next hcomma =>
              apply Reads.behind
              apply Reads.withinNewlines
              intro breaks hbreaks
              apply Reads.map
              refine (itemsOf_reads (skipNewlines more) fun inner hlength => hitem inner _).mono ?_
              intro items values hitems
              exact .cons hfirst hcomma hbreaks hitems
            next => exact reads_done (by simpa using .last hfirst)
termination_by input.length
decreasing_by simp only [List.length_cons] at *; omega

/-- A list behind its opening token, and the token that closes it. -/
theorem listOf_reads {opening closing : Punct} {rule : List Token → α → Prop} {β : Type}
    {input : List Token}
    {item : (inner : List Token) → inner.length ≤ input.length → Outcome inner α}
    {result : List α → β} {other : List Token → β → Prop} {first : Token}
    (hfirst : first.kind = .punct opening)
    (hitem : ∀ inner hlength, (item inner hlength).Reads rule)
    (hother : ∀ tokens values, Bracketed opening closing rule (first :: tokens) values →
      other tokens (result values)) :
    ((listOf (.punct closing) input item).andThen fun items rest _ =>
      expecting eof (.punct closing) rest fun _ _ _ => .done (result items)).Reads other := by
  -- The line breaks behind the opening token are taken with the items.
  have hlist : (listOf (.punct closing) input item).Reads fun taken values =>
      ∃ breaks items, taken = breaks ++ items ∧ Newlines breaks ∧ Commas rule items values := by
    apply Reads.withinNewlines
    intro breaks hbreaks
    refine (itemsOf_reads (skipNewlines input) fun inner _ => hitem inner _).mono ?_
    intro items values hitems
    exact ⟨breaks, items, rfl, hbreaks, hitems⟩
  apply hlist.andThen
  rintro _ values ⟨breaks, items, rfl, hbreaks, hitems⟩ rest _
  apply Reads.expecting
  intro last hlast rest _
  apply reads_done
  rw [List.append_assoc]
  exact hother _ values (.intro hfirst hbreaks hitems hlast)

theorem delimited_reads {opening closing : Punct} {rule : List Token → α → Prop}
    {input : List Token}
    {item : (inner : List Token) → inner.length < input.length → Outcome inner α}
    (hitem : ∀ inner hlength, (item inner hlength).Reads rule) :
    (delimited eof (.punct opening) (.punct closing) input item).Reads
      (Optional opening closing rule) := by
  cases input with
  | nil =>
      rw [delimited_nil]
      exact reads_done .none
  | cons token rest =>
      rw [delimited_cons]
      split
      next hopening =>
        apply Reads.behind
        apply listOf_reads hopening (fun inner _ => hitem inner _)
        intro tokens values hitems
        exact .some hitems
      next => exact reads_done .none

theorem typeExpr_reads (input : List Token) : (typeExpr eof input).Reads IsType := by
  cases input with
  | nil =>
      rw [typeExpr_nil]
      exact reads_of_error ⟨_, List.mem_singleton_self _, rfl⟩
  | cons token rest =>
      rw [typeExpr_cons]
      split
      · exact reads_of_error ⟨_, List.mem_singleton_self _, rfl⟩
      · next base hbase =>
        have hname : IsType [token] base := by
          unfold Ty.ofToken? at hbase
          split at hbase
          next hkind =>
            cases hbase
            exact .named hkind
          next type hkind =>
            cases hbase
            exact .builtin hkind
          next => cases hbase
        apply Reads.behind
        apply Reads.map
        refine (delimited_reads fun inner hlength => typeExpr_reads inner).mono ?_
        rintro tokens _ (_ | hargs)
        · exact hname
        · exact .generic hname hargs
termination_by input.length
decreasing_by simp only [List.length_cons]; omega

end KCompiler
