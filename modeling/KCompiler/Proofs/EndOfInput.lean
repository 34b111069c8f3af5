import KCompiler.Proofs.Lockstep.Statement
import Mathlib.Data.List.TakeWhile

/-! # The end of the input

Tokens end at the first one that is an end of the input, and parsers never look behind it. If there
is none, they end behind the last one, as if an end of the input stood there. So a run can be told
by the tokens before the end and by the token that ends them.
-/

namespace KCompiler

/-- An input beside itself with more tokens behind it. -/
def Likeness.before (ending : List Token) : Likeness where
  Same input₁ input₂ := input₂ = input₁ ++ ending
  Marks := Eq

/-- An input goes the same way whatever stands behind its end. -/
theorem parallel_before {ending : List Token} (hended : Ended ending) (eof : Token) :
    Parallel (.before ending) (peek eof ending) eof where
  nil hsame := hsame ▸ ⟨hended, rfl, rfl, rfl⟩
  cons {token rest _} hsame := ⟨token, rest ++ ending, hsame, ⟨rfl, rfl, rfl⟩, rfl⟩
  join hstart hfinish := hstart ▸ hfinish ▸ rfl

theorem Parsed.eq_of_alike {like : Likeness} {α : Type} {first second : Parsed α}
    (hmarks : like.Marks = Eq) (halike : first.Alike like second) : first = second := by
  obtain ⟨value, findings⟩ := first
  obtain ⟨rfl, hfindings⟩ := halike
  obtain rfl := findings_eq_of_alike hmarks hfindings
  rfl

section Runs

variable (eof : Token) (input : List Token) {ending : List Token} (hended : Ended ending)

include hended

theorem readModule_append :
    readModule eof (input ++ ending) = readModule (peek eof ending) input :=
  (Parsed.eq_of_alike rfl ((parallel_before hended eof).readModule_alike rfl)).symm

theorem readExpression_append :
    readExpression eof (input ++ ending) = readExpression (peek eof ending) input :=
  (Parsed.eq_of_alike rfl ((parallel_before hended eof).readExpression_alike rfl)).symm

end Runs

/-- Without an end of the input among them, tokens end behind the last one. -/
theorem endToken_of_kind_ne {tokens : List Token} (htokens : ∀ token ∈ tokens, token.kind ≠ .eof) :
    endToken tokens = .endBehind tokens.getLast? := by
  unfold endToken
  split
  next last hlast => rw [if_neg (htokens last (List.mem_of_getLast? hlast)), hlast]
  next hnil => rw [hnil]

section Eof

variable {eof : Token} (heof : eof.kind = .eof) (front behind : List Token)

include heof

theorem parseModule_append_eof : parseModule (front ++ eof :: behind) = readModule eof front :=
  readModule_append _ front (.eof heof)

theorem parseExpression_append_eof :
    parseExpression (front ++ eof :: behind) = readExpression eof front :=
  readExpression_append _ front (.eof heof)

end Eof

/-- Nothing is read behind an end of the input, and where there is none, the input ends behind its
last token. -/
theorem parse_ends_at_eof {front : List Token} {eof : Token}
    (hfront : ∀ token ∈ front, token.kind ≠ .eof) (heof : eof.kind = .eof)
    (behind : List Token) :
    let missing := Token.endBehind front.getLast?
    parseModule (front ++ [eof] ++ behind) = parseModule (front ++ [eof]) ∧
      parseExpression (front ++ [eof] ++ behind) = parseExpression (front ++ [eof]) ∧
      parseModule front = parseModule (front ++ [missing]) ∧
      parseExpression front = parseExpression (front ++ [missing]) := by
  intro missing
  have hmissing : missing.kind = .eof := by
    simp only [missing]
    cases front.getLast? <;> rfl
  have hend : endToken front = missing := endToken_of_kind_ne hfront
  rw [List.append_assoc, List.singleton_append, parseModule_append_eof heof,
    parseModule_append_eof heof, parseExpression_append_eof heof, parseExpression_append_eof heof,
    parseModule_append_eof hmissing, parseExpression_append_eof hmissing, parseModule,
    parseExpression, hend]
  exact ⟨rfl, rfl, rfl, rfl⟩

/-- A parenthesis that is closed only behind the end of the input stays open. -/
theorem parse_ends_at_eof_open :
    let token (kind : Kind) (text : String) : Token := ⟨kind, text, ⟨0, 1⟩, .point .start⟩
    let front := [token (.keyword .mod) "mod", token .identifier "m", token .newline "\n",
      token (.punct .lparen) "(", token .identifier "x"]
    let eof := Token.endOfInput 7 ⟨2, 1⟩
    let behind := [token (.punct .rparen) ")", eof, token .identifier "y"]
    let missing := Token.endOfInput 1 .start
    (∀ token ∈ front, token.kind ≠ .eof) ∧ eof.kind = .eof ∧
      parseModule (front ++ [eof] ++ behind) = parseModule (front ++ [eof]) ∧
      parseExpression (front ++ [eof] ++ behind) = parseExpression (front ++ [eof]) ∧
      parseModule front = parseModule (front ++ [missing]) ∧
      parseExpression front = parseExpression (front ++ [missing]) ∧
      (parseModule (front ++ [eof] ++ behind)).findings =
        [⟨.unexpected (.punct .rparen) .eof, .point ⟨2, 1⟩⟩] := by
  intro token front eof behind missing
  have hfront : ∀ token ∈ front, token.kind ≠ .eof := by decide
  have heof : eof.kind = .eof := rfl
  obtain ⟨hmodule, hexpression, halone, hlast⟩ := parse_ends_at_eof hfront heof behind
  refine ⟨hfront, heof, hmodule, hexpression, halone, hlast, ?_⟩
  with_unfolding_all rfl

/-! ## The tokens before the end -/

/-- The tokens before the end of the input, and the token that ends it. -/
def splitInput (tokens : List Token) : List Token × Token :=
  (tokens.takeWhile (·.kind ≠ .eof),
    (tokens.find? (·.kind = .eof)).getD (.endBehind tokens.getLast?))

theorem splitInput_append {body behind : List Token} {eof : Token}
    (hbody : ∀ token ∈ body, token.kind ≠ .eof) (heof : eof.kind = .eof) :
    splitInput (body ++ eof :: behind) = (body, eof) := by
  have hfind : (body ++ eof :: behind).find? (·.kind = .eof) = some eof := by
    rw [List.find?_append, List.find?_eq_none.mpr (by simpa using hbody)]
    simp [heof]
  have htake : (body ++ eof :: behind).takeWhile (·.kind ≠ .eof) = body := by
    rw [List.takeWhile_append_of_pos (by simpa using hbody)]
    simp [heof]
  rw [splitInput, hfind, htake, Option.getD_some]

/-- What is split off is the end of the input. -/
theorem exists_of_splitInput {eof : Token} {tokens input : List Token}
    (hsplit : splitInput tokens = (input, eof)) :
    ∃ ending, tokens = input ++ ending ∧ Ended ending ∧ peek (endToken tokens) ending = eof := by
  cases hfind : tokens.find? (·.kind = .eof) with
  | none =>
      have htokens : ∀ token ∈ tokens, token.kind ≠ .eof := by
        simpa using List.find?_eq_none.mp hfind
      have hall : tokens.takeWhile (·.kind ≠ .eof) = tokens :=
        List.takeWhile_eq_self_iff.mpr (by simpa using htokens)
      rw [splitInput, hfind, hall, ← endToken_of_kind_ne htokens] at hsplit
      obtain ⟨rfl, rfl⟩ := Prod.mk.inj hsplit
      exact ⟨[], (List.append_nil tokens).symm, .nil, rfl⟩
  | some token =>
      obtain ⟨hkind, front, behind, rfl, hfront⟩ := List.find?_eq_some_iff_append.mp hfind
      have hkind : token.kind = .eof := by simpa using hkind
      rw [splitInput_append (by simpa using hfront) hkind] at hsplit
      obtain ⟨rfl, rfl⟩ := Prod.mk.inj hsplit
      exact ⟨token :: behind, rfl, .eof hkind, rfl⟩

theorem parseModule_eq {eof : Token} {tokens input : List Token}
    (hsplit : splitInput tokens = (input, eof)) :
    parseModule tokens =
      match (moduleHeader eof (skipNewlines input)).value with
      | none => ⟨.error, (moduleHeader eof (skipNewlines input)).findings⟩
      | some name =>
        ⟨⟨name, (statements eof .topLevel false
            (moduleHeader eof (skipNewlines input)).rest).value.getD []⟩,
          (moduleHeader eof (skipNewlines input)).findings ++
            (statements eof .topLevel false
              (moduleHeader eof (skipNewlines input)).rest).findings⟩ := by
  obtain ⟨ending, htokens, hended, rfl⟩ := exists_of_splitInput hsplit
  rw [parseModule]
  nth_rewrite 2 [htokens]
  rw [readModule_append _ _ hended]
  exact readModule_def _ input

theorem parseExpression_eq {eof : Token} {tokens input : List Token}
    (hsplit : splitInput tokens = (input, eof)) :
    parseExpression tokens = readExpression eof input := by
  obtain ⟨ending, htokens, hended, rfl⟩ := exists_of_splitInput hsplit
  rw [parseExpression]
  nth_rewrite 2 [htokens]
  rw [readExpression_append _ _ hended]

end KCompiler
