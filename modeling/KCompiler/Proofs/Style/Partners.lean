import KCompiler.Proofs.Style.Removal
import Mathlib.Order.Bounds.Basic

/-! # Partners of parentheses

The partner of an opening parenthesis is the nearest token behind it up to which as many parentheses
are closed as opened. Whatever the tokens are, also with parentheses that are never closed or were
never opened, exactly these partners are found. Two pairs are nested or stand apart, and every token
that is looked at for a remark on a pair is there.
-/

namespace KCompiler.Style

/-- An opening parenthesis, by its index, and the token that closes it: the nearest one up to which
the tokens from the parenthesis on close as many parentheses as they open. -/
structure ClosedBy (tokens : List Token) (opened closed : Nat) : Prop where
  opening : tokens[opened]?.map Token.kind = some (.punct .lparen)
  nearest : IsLeast {index | opened < index ∧ index < tokens.length ∧
    opens (tokens.extract opened (index + 1)) = closes (tokens.extract opened (index + 1))} closed

section Counting

variable {tokens pre inside post : List Token} {first last : Token} {opened closed index : Nat}

theorem ClosedBy.unique {other : Nat} (hclosed : ClosedBy tokens opened closed)
    (hother : ClosedBy tokens opened other) : closed = other :=
  hclosed.nearest.unique hother.nearest

/-- The tokens from a token on, up to and with one behind it. -/
theorem extract_behind (pre : List Token) (first : Token) (post : List Token)
    (hindex : pre.length < index) :
    (pre ++ first :: post).extract pre.length (index + 1) =
      first :: post.take (index - pre.length) := by
  obtain ⟨count, rfl⟩ := Nat.exists_eq_add_of_lt hindex
  rw [List.extract_eq_take_drop, List.drop_left]
  have hcount : pre.length + count + 1 + 1 - pre.length = count + 1 + 1 := by omega
  have hless : pre.length + count + 1 - pre.length = count + 1 := by omega
  rw [hcount, hless, List.take_succ_cons]

/-- What follows an opening parenthesis evens it out only if it closes more than it opens. -/
theorem even_cons_iff (hfirst : first.kind = .punct .lparen) :
    opens (first :: post) = closes (first :: post) ↔ closes post = opens post + 1 := by
  rw [(counts_cons_lparen hfirst).1, (counts_cons_lparen hfirst).2]
  exact eq_comm

/-- A parenthesis is closed by the one behind the balanced tokens that follow it. -/
theorem Balanced.closedBy (hinside : Balanced inside) (hfirst : first.kind = .punct .lparen)
    (hlast : last.kind = .punct .rparen) :
    ClosedBy (pre ++ first :: (inside ++ last :: post)) pre.length
      (pre.length + inside.length + 1) where
  opening := by simp [hfirst]
  nearest := by
    constructor
    · refine ⟨by omega, by simp; omega, ?_⟩
      have htake : (inside ++ last :: post).take (pre.length + inside.length + 1 - pre.length) =
          inside ++ [last] := by
        have hlength : pre.length + inside.length + 1 - pre.length = inside.length + 1 := by omega
        rw [hlength, List.take_length_add_append]
        rfl
      rw [extract_behind _ _ _ (by omega), htake]
      exact (hinside.enclosed hfirst hlast).even
    · rintro index ⟨hbehind, -, heven⟩
      by_contra hnear
      -- Up to a nearer token the balanced tokens do not close more than they open.
      have hahead := hinside.ahead (index - pre.length)
      have htake : (inside ++ last :: post).take (index - pre.length) =
          inside.take (index - pre.length) :=
        List.take_append_of_le_length (by omega)
      rw [extract_behind _ _ _ hbehind, even_cons_iff hfirst, htake] at heven
      omega

end Counting

/-! ## What is found -/

/-- What is found at an index is the first closing parenthesis that the tokens behind it do not
open. -/
theorem getElem?_matchFrom (start index : Nat) (kinds : List Kind) :
    (matchFrom start kinds).1[index]? = kinds[index]?.map fun kind =>
      if kind = .punct .lparen then
        (matchFrom (start + index + 1) (kinds.drop (index + 1))).2.head?
      else none := by
  induction kinds generalizing start index with
  | nil => rfl
  | cons kind kinds ih =>
      cases index with
      | zero =>
          by_cases hopening : kind = .punct .lparen
          · simp [matchFrom, hopening]
          · by_cases hclosing : kind = .punct .rparen <;> simp [matchFrom, hopening, hclosing]
      | succ index =>
          have hmore := ih (start + 1) index
          have hstart : start + 1 + index + 1 = start + (index + 1) + 1 := by omega
          rw [hstart] at hmore
          simp only [matchFrom]
          split
          · exact hmore
          · split <;> exact hmore

theorem length_matchParens (tokens : List Token) :
    (matchParens tokens).length = tokens.length := by
  refine Nat.le_antisymm ?_ ?_
  · rw [← List.getElem?_eq_none_iff, matchParens, getElem?_matchFrom]
    simp
  · rw [← List.getElem?_eq_none_iff]
    have hnone := getElem?_matchFrom 0 (matchParens tokens).length (tokens.map Token.kind)
    rw [← matchParens, List.getElem?_eq_none (Nat.le_refl _)] at hnone
    simpa using hnone.symm

/-- No beginning of a list closes more than it opens and leaves unopened. -/
theorem closes_take_le (start count : Nat) (tokens : List Token) :
    closes (tokens.take count) ≤
      opens (tokens.take count) + (matchFrom start (tokens.map Token.kind)).2.length := by
  induction tokens generalizing start count with
  | nil => simp
  | cons token tokens ih =>
      cases count with
      | zero => simp
      | succ count =>
          have hmore := ih (start + 1) count
          simp only [List.map_cons, matchFrom, List.take_succ_cons]
          split
          next hkind =>
            rw [(counts_cons_lparen hkind).1, (counts_cons_lparen hkind).2, List.length_tail]
            omega
          next hopening =>
            split
            next hkind =>
              rw [(counts_cons_rparen hkind).1, (counts_cons_rparen hkind).2, List.length_cons]
              omega
            next hclosing =>
              rw [(counts_cons_of_ne hopening hclosing).1, (counts_cons_of_ne hopening hclosing).2]
              exact hmore

variable {tokens : List Token} {opened closed : Nat}

/-- A pair that is found, with what stands around it. -/
theorem exists_of_matchParens (hmatch : (matchParens tokens)[opened]? = some (some closed)) :
    ∃ pre first inside last post, tokens = pre ++ first :: (inside ++ last :: post) ∧
      pre.length = opened ∧ closed = opened + inside.length + 1 ∧
      first.kind = .punct .lparen ∧ Balanced inside ∧ last.kind = .punct .rparen := by
  simpa using exists_of_matchFrom hmatch

theorem closedBy_of_matchParens (hmatch : (matchParens tokens)[opened]? = some (some closed)) :
    ClosedBy tokens opened closed := by
  obtain ⟨pre, first, inside, last, post, rfl, rfl, rfl, hfirst, hinside, hlast⟩ :=
    exists_of_matchParens hmatch
  exact hinside.closedBy hfirst hlast

/-- A parenthesis that is closed is found to be. -/
theorem isSome_of_closedBy (hclosed : ClosedBy tokens opened closed) :
    ∃ found, (matchParens tokens)[opened]? = some (some found) := by
  obtain ⟨hopening, ⟨hbehind, hwithin, heven⟩, -⟩ := hclosed
  obtain ⟨first, hfirst, hkind⟩ := Option.map_eq_some_iff.mp hopening
  obtain ⟨hlength, hget⟩ := List.getElem?_eq_some_iff.mp hfirst
  have htokens : tokens = tokens.take opened ++ first :: tokens.drop (opened + 1) := by
    rw [← hget, List.getElem_cons_drop, List.take_append_drop]
  have htake : (tokens.take opened).length = opened := List.length_take_of_le hlength.le
  have hentry := getElem?_matchFrom 0 opened (tokens.map Token.kind)
  rw [List.getElem?_map, hfirst, Option.map_some, Option.map_some, if_pos hkind, ← List.map_drop]
    at hentry
  rw [matchParens, hentry]
  cases hunopened : (matchFrom (0 + opened + 1) ((tokens.drop (opened + 1)).map Token.kind)).2 with
  | cons found more => exact ⟨found, rfl⟩
  | nil =>
      -- Then the tokens behind never close more than they open, and do not even it out.
      have hahead := closes_take_le (0 + opened + 1) (closed - opened) (tokens.drop (opened + 1))
      have hextract := extract_behind (tokens.take opened) first (tokens.drop (opened + 1))
        (htake.trans_lt hbehind)
      rw [← htokens, htake] at hextract
      rw [hextract, even_cons_iff hkind] at heven
      rw [hunopened, List.length_nil] at hahead
      omega

theorem matchParens_eq_some_iff :
    (matchParens tokens)[opened]? = some (some closed) ↔ ClosedBy tokens opened closed := by
  refine ⟨closedBy_of_matchParens, fun hclosed => ?_⟩
  obtain ⟨found, hfound⟩ := isSome_of_closedBy hclosed
  rw [hfound, (closedBy_of_matchParens hfound).unique hclosed]

theorem matchParens_eq_none_iff :
    (matchParens tokens)[opened]? = some none ↔
      opened < tokens.length ∧ ∀ closed, ¬ClosedBy tokens opened closed := by
  simp only [← matchParens_eq_some_iff, ← length_matchParens tokens]
  constructor
  · intro hnone
    refine ⟨(List.getElem?_eq_some_iff.mp hnone).1, fun closed hsome => ?_⟩
    rw [hnone] at hsome
    cases hsome
  · rintro ⟨hlength, hunclosed⟩
    rw [List.getElem?_eq_getElem hlength] at hunclosed ⊢
    cases hentry : (matchParens tokens)[opened] with
    | none => rfl
    | some closed => exact absurd (congrArg some hentry) (hunclosed closed)

/-- Of two pairs the one that opens later stands behind the other or inside it. -/
theorem ClosedBy.nested {opened' closed' : Nat} (houter : ClosedBy tokens opened closed)
    (hinner : ClosedBy tokens opened' closed') (hless : opened < opened') :
    closed < opened' ∨ closed' < closed := by
  obtain ⟨pre, first, inside, last, post, htokens, rfl, rfl, hfirst, hinside, hlast⟩ :=
    exists_of_matchParens (matchParens_eq_some_iff.mpr houter)
  obtain ⟨pre', first', inside', last', post', htokens', rfl, rfl, hfirst', hinside', hlast'⟩ :=
    exists_of_matchParens (matchParens_eq_some_iff.mpr hinner)
  have hpair : Paired (first :: (inside ++ [last])) := .intro hfirst hinside hlast
  have hpair' : Paired (first' :: (inside' ++ [last'])) := .intro hfirst' hinside' hlast'
  -- What stands between the two opening parentheses begins with the first of them.
  have hfront : pre <+: tokens := ⟨_, htokens.symm⟩
  have hfront' : pre' <+: tokens := ⟨_, htokens'.symm⟩
  obtain ⟨between, rfl⟩ := List.prefix_of_prefix_length_le hfront hfront' hless.le
  have hrest : first :: (inside ++ [last]) ++ post =
      between ++ (first' :: (inside' ++ [last']) ++ post') := by
    simpa using htokens.symm.trans htokens'
  rcases hpair'.cases_append hpair.balanced hrest with ⟨left, hleft, -⟩ | ⟨apart, rfl, -⟩
  · right
    -- Nothing would close the outer parenthesis if the two pairs ended together.
    have hleft' : left ≠ [] := by
      rintro rfl
      have hbetween : between ≠ [] := by
        rintro rfl
        simp at hless
      rw [List.append_nil] at hleft
      have hopen := (hleft ▸ hpair).closes_lt hbetween (by simp)
      have heven := hpair.balanced.even
      have heven' := hpair'.balanced.even
      rw [hleft, opens_append, closes_append] at heven
      omega
    have hlength := congrArg List.length hleft
    have hmore := List.length_pos_of_ne_nil hleft'
    simp only [List.length_cons, List.length_append, List.length_nil] at hlength ⊢
    omega
  · left
    simp
    omega

theorem ClosedBy.in_range (hclosed : ClosedBy tokens opened closed) :
    opened < closed ∧ closed < tokens.length :=
  ⟨hclosed.nearest.1.1, hclosed.nearest.1.2.1⟩

/-- A list of partners that is right about every token, where stray parentheses have none. Its pairs
are nested or stand apart, and what can be looked up for a pair is there: its closing parenthesis, a
token before that, and an entry behind the opening one. -/
structure Partners (tokens : List Token) (closing : List (Option Nat)) : Prop where
  length_eq : closing.length = tokens.length
  some_iff : ∀ opened closed,
    closing[opened]? = some (some closed) ↔ ClosedBy tokens opened closed
  none_iff : ∀ index, closing[index]? = some none ↔
    index < tokens.length ∧ ∀ closed, ¬ClosedBy tokens index closed
  nested : ∀ {opened closed opened' closed' : Nat}, closing[opened]? = some (some closed) →
    closing[opened']? = some (some closed') → opened < opened' →
      closed < opened' ∨ closed' < closed
  in_range : ∀ {opened closed : Nat}, closing[opened]? = some (some closed) →
    opened < tokens.length ∧ closed < tokens.length ∧ 1 ≤ closed ∧ opened + 1 < closing.length

theorem partners_matchParens (tokens : List Token) : Partners tokens (matchParens tokens) where
  length_eq := length_matchParens tokens
  some_iff _ _ := matchParens_eq_some_iff
  none_iff _ := matchParens_eq_none_iff
  nested houter hinner hless :=
    (closedBy_of_matchParens houter).nested (closedBy_of_matchParens hinner) hless
  in_range hmatch := by
    obtain ⟨hless, hwithin⟩ := (closedBy_of_matchParens hmatch).in_range
    rw [length_matchParens]
    omega

/-- A remark is on a pair that is there. -/
theorem exists_of_mem_redundantParens {finding : Finding}
    (hmem : finding ∈ redundantParens tokens) :
    ∃ opened closed first last why, ClosedBy tokens opened closed ∧
      tokens[opened]? = some first ∧ tokens[closed]? = some last ∧
      finding = ⟨.redundantParens why, first.span.join last.span⟩ := by
  rw [redundantParens_eq] at hmem
  obtain ⟨pair, hpair, rfl⟩ := List.mem_map.mp hmem
  have hclosed := closedBy_of_matchParens (mem_reported.mp hpair).1
  obtain ⟨hless, hwithin⟩ := hclosed.in_range
  have hfirst := List.getElem?_eq_getElem (hless.trans hwithin)
  have hlast := List.getElem?_eq_getElem hwithin
  refine ⟨pair.opened, pair.closed, _, _, pair.why, hclosed, hfirst, hlast, ?_⟩
  rw [Pair.finding, spanBetween, hfirst, hlast]
  rfl

/-- Every parenthesis gets its partner, whatever the tokens are, and every remark on a pair is about
two tokens that are there. -/
theorem parens_partnered (tokens : List Token) :
    Partners tokens (matchParens tokens) ∧
      ∀ finding ∈ redundantParens tokens, ∃ opened closed first last why,
        ClosedBy tokens opened closed ∧
        tokens[opened]? = some first ∧ tokens[closed]? = some last ∧
        finding = ⟨.redundantParens why, first.span.join last.span⟩ :=
  ⟨partners_matchParens tokens, fun _ hmem => exists_of_mem_redundantParens hmem⟩

/-- A parenthesis that was never opened, a doubled pair, and one that is never closed before a
pair. -/
theorem parens_partnered_stray :
    let tokens := (lex ")((x+y))((z)").tokens
    matchParens tokens = [none, some 7, some 6, none, none, none, none, none, none, some 11, none,
        none, none] ∧
      Partners tokens (matchParens tokens) ∧
      (⟨.redundantParens .doubled, ⟨⟨1, 2⟩, ⟨1, 9⟩⟩⟩ ∈ redundantParens tokens ∧
        ∃ opened closed first last why, ClosedBy tokens opened closed ∧
          tokens[opened]? = some first ∧ tokens[closed]? = some last ∧
          (⟨.redundantParens .doubled, ⟨⟨1, 2⟩, ⟨1, 9⟩⟩⟩ : Finding) =
            ⟨.redundantParens why, first.span.join last.span⟩) := by
  intro tokens
  obtain ⟨hpartners, hfindings⟩ := parens_partnered tokens
  have hdoubled : ⟨.redundantParens .doubled, ⟨⟨1, 2⟩, ⟨1, 9⟩⟩⟩ ∈ redundantParens tokens := by
    decide +kernel
  exact ⟨by decide +kernel, hpartners, hdoubled, hfindings _ hdoubled⟩

end KCompiler.Style
