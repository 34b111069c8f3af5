import KCompiler.Parse.Program
import KCompiler.Proofs.Grammar

/-! # Inputs of a known shape

What the parsers do where the shape of their input settles it.
-/

namespace KCompiler

open Grammar

theorem skipNewlines_of_kind {token : Token} {rest : List Token} (hkind : token.kind ≠ .newline) :
    skipNewlines (token :: rest) = token :: rest := by
  simp [skipNewlines, hkind]

theorem exists_newlines (input : List Token) :
    ∃ breaks, Newlines breaks ∧ input = breaks ++ skipNewlines input := by
  refine ⟨input.takeWhile (·.kind = .newline), ?_, List.takeWhile_append_dropWhile.symm⟩
  intro token htoken
  simpa using List.all_eq_true.mp List.all_takeWhile token htoken

theorem exists_of_afterElse? {input inner : List Token} (helse : afterElse? input = some inner) :
    ∃ breaks last, Newlines breaks ∧ last.kind = .keyword .else ∧
      input = breaks ++ last :: inner := by
  unfold afterElse? at helse
  split at helse
  next => cases helse
  next token rest hskip =>
    split at helse
    next hkind =>
      cases helse
      obtain ⟨breaks, hbreaks, hinput⟩ := exists_newlines input
      rw [hskip] at hinput
      exact ⟨breaks, token, hbreaks, hkind, hinput⟩
    next => cases helse

theorem value_endStatement (input : List Token) : (endStatement input).value = some () := by
  unfold endStatement
  split
  · rfl
  · split
    · rfl
    · split <;> rfl

section Modifiers

variable {modifiers : Modifiers} {modifier : Modifier} {scope : Scope} {kind : DeclKind}

theorem Modifiers.toList_insert (habsent : modifiers.contains modifier = false) :
    (modifiers.insert modifier).toList = modifiers.toList ++ [modifier] := by
  simp [Modifiers.insert, habsent]

theorem repetition_of_absent (habsent : modifiers.contains modifier = false) (token : Token) :
    repetition modifiers modifier token = [] := by
  simp [repetition, habsent]

theorem Modifiers.allowed_of_allowed (hallowed : Allowed modifiers scope kind) :
    modifiers.allowed scope kind = modifiers := by
  obtain ⟨list, hnodup⟩ := modifiers
  unfold Modifiers.allowed
  congr 1
  exact List.filter_eq_self.mpr hallowed

theorem allowed_allowed (modifiers : Modifiers) (scope : Scope) (kind : DeclKind) :
    Allowed (modifiers.allowed scope kind) scope kind :=
  fun _ hmem => (List.mem_filter.mp hmem).2

theorem Modifiers.refused_of_allowed (hallowed : Allowed modifiers scope kind) :
    modifiers.refused scope kind = [] := by
  have hnone : modifiers.toList.filter (!·.allows scope kind) = [] := by
    rw [List.filter_eq_nil_iff]
    intro modifier hmem
    simp [hallowed modifier hmem]
  simp [Modifiers.refused, hnone]

theorem refusals_of_allowed (hallowed : Allowed modifiers scope kind) (start : Span) :
    refusals modifiers scope kind start = [] := by
  simp [refusals, Modifiers.refused_of_allowed hallowed]

theorem Modifiers.validate_of_allowed (hallowed : Allowed modifiers scope kind) :
    modifiers.validate scope kind = .ok () := by
  simp [Modifiers.validate, Modifiers.refused_of_allowed hallowed]

end Modifiers

end KCompiler
