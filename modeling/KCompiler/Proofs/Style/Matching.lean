import KCompiler.Style

/-! # Matching parentheses

Tokens are balanced if they open as many parentheses as they close and never close one that they
have not opened. What is found for an opening parenthesis is the closing one behind a balanced list.
A matched pair is never torn apart: if its opening parenthesis stands in a balanced part of a list,
so does the closing one. The pairs are those that one pass from left to right finds, which keeps the
parentheses that are still open on a stack.
-/

namespace KCompiler.Style

/-- How many parentheses are opened. -/
def opens (tokens : List Token) : Nat :=
  tokens.countP (·.kind = .punct .lparen)

/-- How many parentheses are closed. -/
def closes (tokens : List Token) : Nat :=
  tokens.countP (·.kind = .punct .rparen)

/-- As many parentheses are opened as closed, and at no point more are closed than opened. -/
structure Balanced (tokens : List Token) : Prop where
  ahead (count : Nat) : closes (tokens.take count) ≤ opens (tokens.take count)
  even : opens tokens = closes tokens

section Counts

variable {token : Token} {tokens front back : List Token}

@[simp]
theorem opens_append : opens (front ++ back) = opens front + opens back :=
  List.countP_append

@[simp]
theorem closes_append : closes (front ++ back) = closes front + closes back :=
  List.countP_append

@[simp]
theorem opens_nil : opens [] = 0 := rfl

@[simp]
theorem closes_nil : closes [] = 0 := rfl

theorem counts_cons_lparen (hkind : token.kind = .punct .lparen) :
    opens (token :: tokens) = opens tokens + 1 ∧ closes (token :: tokens) = closes tokens := by
  simp [opens, closes, hkind]

theorem counts_cons_rparen (hkind : token.kind = .punct .rparen) :
    opens (token :: tokens) = opens tokens ∧ closes (token :: tokens) = closes tokens + 1 := by
  simp [opens, closes, hkind]

theorem counts_cons_of_ne (hopening : token.kind ≠ .punct .lparen)
    (hclosing : token.kind ≠ .punct .rparen) :
    opens (token :: tokens) = opens tokens ∧ closes (token :: tokens) = closes tokens := by
  simp [opens, closes, hopening, hclosing]

end Counts

namespace Balanced

variable {first last token : Token} {front back inside : List Token}

theorem nil : Balanced [] :=
  ⟨by simp, rfl⟩

theorem append (hfront : Balanced front) (hback : Balanced back) : Balanced (front ++ back) where
  ahead count := by
    rw [List.take_append, opens_append, closes_append]
    exact Nat.add_le_add (hfront.ahead count) (hback.ahead _)
  even := by rw [opens_append, closes_append, hfront.even, hback.even]

theorem singleton (hopening : token.kind ≠ .punct .lparen)
    (hclosing : token.kind ≠ .punct .rparen) : Balanced [token] where
  ahead count := by
    cases count with
    | zero => simp
    | succ count => simp [(counts_cons_of_ne hopening hclosing).1,
        (counts_cons_of_ne hopening hclosing).2]
  even := by simp [(counts_cons_of_ne hopening hclosing).1, (counts_cons_of_ne hopening hclosing).2]

theorem enclosed (hfirst : first.kind = .punct .lparen) (hlast : last.kind = .punct .rparen)
    (hinside : Balanced inside) : Balanced (first :: (inside ++ [last])) where
  ahead count := by
    cases count with
    | zero => simp
    | succ count =>
        have hahead := hinside.ahead count
        have hclose : closes ([last].take (count - inside.length)) ≤ 1 :=
          Nat.le_trans List.countP_le_length (List.length_take_le' ..)
        rw [List.take_succ_cons, (counts_cons_lparen hfirst).1, (counts_cons_lparen hfirst).2,
          List.take_append, opens_append, closes_append]
        omega
  even := by
    simp [(counts_cons_lparen hfirst).1, (counts_cons_lparen hfirst).2,
      (counts_cons_rparen hlast).1, (counts_cons_rparen hlast).2, hinside.even]

/-- A beginning of a balanced list does not close more than it opens. -/
theorem closes_le (hbalanced : Balanced (front ++ back)) : closes front ≤ opens front := by
  simpa using hbalanced.ahead front.length

end Balanced

/-- A pair of parentheses with what stands between them. -/
inductive Paired : List Token → Prop
  | intro {first last : Token} {inside : List Token} (hfirst : first.kind = .punct .lparen)
      (hinside : Balanced inside) (hlast : last.kind = .punct .rparen) :
      Paired (first :: (inside ++ [last]))

theorem Paired.balanced {pair : List Token} (hpair : Paired pair) : Balanced pair := by
  cases hpair with
  | intro hfirst hinside hlast => exact .enclosed hfirst hlast hinside

/-- A pair that is cut in two has its opening parenthesis in the first part only. -/
theorem Paired.closes_lt {front back : List Token} (hpair : Paired (front ++ back))
    (hfront : front ≠ []) (hback : back ≠ []) : closes front < opens front := by
  obtain ⟨token, taken, rfl⟩ := List.exists_cons_of_ne_nil hfront
  obtain ⟨left, closing, rfl⟩ := (List.eq_nil_or_concat back).resolve_left hback
  rw [List.concat_eq_append, List.cons_append, ← List.append_assoc] at hpair
  generalize htokens : token :: (taken ++ left ++ [closing]) = tokens at hpair
  cases hpair with
  | intro hfirst hinside hlast =>
      obtain ⟨rfl, hrest⟩ := List.cons.inj htokens
      obtain ⟨rfl, -⟩ := List.append_inj' hrest rfl
      rw [(counts_cons_lparen hfirst).1, (counts_cons_lparen hfirst).2]
      exact Nat.lt_succ_of_le hinside.closes_le

/-- A pair does not begin in a balanced list and end behind it. -/
theorem Paired.cases_append {pair front back pre post : List Token} (hpair : Paired pair)
    (hfront : Balanced front) (htokens : front ++ back = pre ++ (pair ++ post)) :
    (∃ between, front = pre ++ (pair ++ between) ∧ post = between ++ back) ∨
      ∃ between, pre = front ++ between ∧ back = between ++ (pair ++ post) := by
  rcases List.append_eq_append_iff.mp htokens with ⟨between, hpre, hback⟩ | ⟨taken, rfl, hmore⟩
  · exact .inr ⟨between, hpre, hback⟩
  · rcases List.append_eq_append_iff.mp hmore with ⟨between, rfl, hpost⟩ | ⟨left, rfl, hback⟩
    · exact .inl ⟨between, rfl, hpost⟩
    · by_cases htaken : taken = []
      · subst htaken
        exact .inr ⟨[], by simp, by simpa using hback⟩
      · by_cases hleft : left = []
        · subst hleft
          exact .inl ⟨[], by simp, by simpa using hback.symm⟩
        · have hless := hpair.closes_lt htaken hleft
          have hpre := hfront.closes_le
          have heven := hfront.even
          rw [opens_append, closes_append] at heven
          omega

/-! ## What is matched -/

/-- The indices of the closing parentheses that a list of tokens does not open, where its first
token has index `start`: the list is balanced up to the first of them, and so on behind it. -/
def Unopened : List Nat → Nat → List Token → Prop
  | [], _, _ => True
  | index :: more, start, tokens => ∃ inside last post, tokens = inside ++ last :: post ∧
      index = start + inside.length ∧ Balanced inside ∧ last.kind = .punct .rparen ∧
      Unopened more (index + 1) post

/-- A balanced list before the others does not change what they leave unopened. -/
theorem Unopened.append {indices : List Nat} {start : Nat} {front tokens : List Token}
    (hunopened : Unopened indices (start + front.length) tokens) (hfront : Balanced front) :
    Unopened indices start (front ++ tokens) := by
  cases indices with
  | nil => trivial
  | cons index more =>
      obtain ⟨inside, last, post, rfl, rfl, hinside, hlast, hmore⟩ := hunopened
      refine ⟨front ++ inside, last, post, by simp, ?_, hfront.append hinside, hlast, hmore⟩
      rw [List.length_append, Nat.add_assoc]

theorem matchFrom_unopened (start : Nat) (tokens : List Token) :
    Unopened (matchFrom start (tokens.map Token.kind)).2 start tokens := by
  induction tokens generalizing start with
  | nil => trivial
  | cons token tokens ih =>
      have hunopened := ih (start + 1)
      simp only [List.map_cons, matchFrom]
      split
      next hkind =>
        -- The nearest closing parenthesis is the one of this token; the others stay unopened.
        generalize (matchFrom (start + 1) (tokens.map Token.kind)).2 = indices at hunopened
        cases indices with
        | nil => trivial
        | cons index more =>
            obtain ⟨inside, last, post, rfl, rfl, hinside, hlast, hmore⟩ := hunopened
            have hpair := Balanced.enclosed hkind hlast hinside
            have htokens : token :: (inside ++ last :: post) =
                token :: (inside ++ [last]) ++ post := by simp
            rw [htokens]
            refine Unopened.append ?_ hpair
            have hstart : start + (token :: (inside ++ [last])).length =
                start + 1 + inside.length + 1 := by
              simp only [List.length_cons, List.length_append, List.length_nil]
              omega
            rwa [hstart]
      next hopening =>
        split
        next hkind => exact ⟨[], token, tokens, rfl, rfl, .nil, hkind, hunopened⟩
        next hclosing =>
          have hsingle : Balanced [token] := .singleton hopening hclosing
          exact Unopened.append hunopened hsingle

/-- What is found for an opening parenthesis is the closing one of a pair. -/
theorem exists_of_matchFrom {start index closed : Nat} {tokens : List Token}
    (hmatch : (matchFrom start (tokens.map Token.kind)).1[index]? = some (some closed)) :
    ∃ pre first inside last post, tokens = pre ++ first :: (inside ++ last :: post) ∧
      pre.length = index ∧ closed = start + index + inside.length + 1 ∧
      first.kind = .punct .lparen ∧ Balanced inside ∧ last.kind = .punct .rparen := by
  induction tokens generalizing start index with
  | nil => simp [matchFrom] at hmatch
  | cons token tokens ih =>
      have hunopened := matchFrom_unopened (start + 1) tokens
      cases index with
      | zero =>
          simp only [List.map_cons, matchFrom] at hmatch
          split at hmatch
          next hkind =>
            generalize (matchFrom (start + 1) (tokens.map Token.kind)).2 = indices at *
            cases indices with
            | nil => simp at hmatch
            | cons nearest more =>
                obtain ⟨inside, last, post, rfl, rfl, hinside, hlast, -⟩ := hunopened
                refine ⟨[], token, inside, last, post, rfl, rfl, ?_, hkind, hinside, hlast⟩
                have hclosed : start + 1 + inside.length = closed := by simpa using hmatch
                omega
          next => split at hmatch <;> simp at hmatch
      | succ index =>
          have hmore : (matchFrom (start + 1) (tokens.map Token.kind)).1[index]? =
              some (some closed) := by
            simp only [List.map_cons, matchFrom] at hmatch
            split at hmatch
            · simpa using hmatch
            · split at hmatch <;> simpa using hmatch
          obtain ⟨pre, first, inside, last, post, rfl, rfl, rfl, hfirst, hinside, hlast⟩ := ih hmore
          refine ⟨token :: pre, first, inside, last, post, rfl, rfl, ?_, hfirst, hinside, hlast⟩
          omega

/-! ## One pass with a stack -/

/-- What a pass over the tokens from the first to the last keeps: the closing parentheses found so
far, by the index of the opening one, and the indices of the parentheses that are open, innermost
first. -/
structure Pass where
  closing : List (Option Nat)
  stack : List Nat

namespace Pass

/-- An opening parenthesis is put on the stack, and a closing one is noted for the one it takes off. -/
def step (pass : Pass) (index : Nat) (kind : Kind) : Pass :=
  if kind = .punct .lparen then ⟨pass.closing, index :: pass.stack⟩
  else if kind = .punct .rparen then
    match pass.stack with
    | [] => pass
    | opened :: stack => ⟨pass.closing.set opened (some index), stack⟩
  else pass

/-- Goes over the tokens of a list whose first one has the index `start`. -/
def run (start : Nat) : List Kind → Pass → Pass
  | [], pass => pass
  | kind :: kinds, pass => run (start + 1) kinds (pass.step start kind)

/-- Notes down pairs of an opening and a closing parenthesis. -/
def noted (closing : List (Option Nat)) (pairs : List (Nat × Nat)) : List (Option Nat) :=
  pairs.foldl (fun closing pair => closing.set pair.1 (some pair.2)) closing

theorem noted_cons (closing : List (Option Nat)) (opened closed : Nat) (pairs : List (Nat × Nat)) :
    noted closing ((opened, closed) :: pairs) = noted (closing.set opened (some closed)) pairs :=
  rfl

/-- Notes on the beginning of a list leave an entry at its end. -/
theorem noted_concat {front : List (Option Nat)} {stack indices : List Nat}
    (hstack : ∀ opened ∈ stack, opened < front.length) (entry : Option Nat) :
    noted (front ++ [entry]) (stack.zip indices) =
      noted front (stack.zip indices) ++ [entry] := by
  induction stack generalizing front indices with
  | nil => rfl
  | cons opened stack ih =>
      obtain ⟨hopened, hstack⟩ := List.forall_mem_cons.mp hstack
      cases indices with
      | nil => rfl
      | cons closed indices =>
          rw [List.zip_cons_cons, noted_cons, noted_cons, List.set_append_left _ _ hopened]
          exact ih (by simpa using hstack)

/-- What is open before a list is closed by the parentheses that the list does not open, innermost
first; all else is found in the list itself. -/
theorem closing_run (kinds : List Kind) (front : List (Option Nat)) (stack : List Nat)
    (hstack : ∀ opened ∈ stack, opened < front.length) :
    (run front.length kinds ⟨front ++ List.replicate kinds.length none, stack⟩).closing =
      noted front (stack.zip (matchFrom front.length kinds).2) ++
        (matchFrom front.length kinds).1 := by
  induction kinds generalizing front stack with
  | nil => simp [run, matchFrom, noted]
  | cons kind kinds ih =>
      have hlater {stack : List Nat} (hstack : ∀ opened ∈ stack, opened < front.length) :
          ∀ opened ∈ stack, opened < front.length + 1 :=
        fun opened hmem => Nat.lt_succ_of_lt (hstack opened hmem)
      have hmore {grown : List (Option Nat)} (hgrown : grown.length = front.length + 1) :=
        hgrown ▸ ih grown
      rw [run, List.length_cons, List.replicate_succ, List.append_cons]
      simp only [matchFrom]
      generalize matchFrom (front.length + 1) kinds = found at hmore
      obtain ⟨closing, unopened⟩ := found
      by_cases hopening : kind = .punct .lparen
      · rw [step, if_pos hopening, if_pos hopening,
          hmore (by simp) _ (by simpa using hlater hstack)]
        -- The innermost parenthesis that is open behind this token is its own.
        cases unopened with
        | nil => simp [noted]
        | cons index indices =>
            rw [List.zip_cons_cons, noted_cons, List.set_append_right _ _ (Nat.le_refl _)]
            simp [noted_concat hstack]
      rw [step, if_neg hopening, if_neg hopening]
      by_cases hclosing : kind = .punct .rparen
      · rw [if_pos hclosing, if_pos hclosing]
        cases stack with
        | nil =>
            dsimp only
            rw [hmore (by simp) [] (by simp)]
            simp [noted]
        | cons opened stack =>
            obtain ⟨hopened, hstack⟩ := List.forall_mem_cons.mp hstack
            dsimp only
            rw [List.append_assoc, List.set_append_left _ _ hopened, ← List.append_assoc,
              hmore (by simp) stack (hlater hstack), noted_concat (by simpa using hstack)]
            simp [noted_cons]
      · rw [if_neg hclosing, if_neg hclosing, hmore (by simp) _ (hlater hstack),
          noted_concat hstack]
        simp

end Pass

/-- A pass with a stack finds the closing parentheses that are found from the last token on. -/
theorem matchParens_eq_pass (tokens : List Token) :
    matchParens tokens =
      (Pass.run 0 (tokens.map Token.kind) ⟨List.replicate tokens.length none, []⟩).closing := by
  have hrun := Pass.closing_run (tokens.map Token.kind) [] [] (by simp)
  rw [List.length_map] at hrun
  exact hrun.symm

end KCompiler.Style
