import KCompiler.Parse.Run

/-! # Lists of items

Items with commas between them, up to a closing token. Line breaks may stand behind the
opening token and behind every comma, and a comma behind the last item.
-/

namespace KCompiler

variable {α : Type}

theorem length_le_of_skipNewlines {input inner : List Token}
    (hinner : inner.length ≤ (skipNewlines input).length) : inner.length ≤ input.length :=
  Nat.le_trans hinner (length_skipNewlines_le input)

theorem length_lt_cons {token : Token} {rest inner : List Token}
    (hinner : inner.length ≤ rest.length) : inner.length < (token :: rest).length :=
  Nat.lt_succ_of_le hinner

/-- What stands behind a comma lies behind all that stands before it. -/
theorem length_le_behind_comma {comma : Token} {more input inner : List Token}
    (hrest : (comma :: more).length ≤ input.length)
    (hinner : inner.length ≤ (skipNewlines more).length) : inner.length ≤ input.length :=
  Nat.le_trans (length_le_of_skipNewlines hinner) (Nat.le_of_succ_le hrest)

namespace Traced

/-- Items up to a closing token, where no line break stands before the first. -/
def itemsOf (closing : Kind) (input : List Token)
    (item : (inner : List Token) → inner.length ≤ input.length → Traced inner α) :
    Traced input (List α) :=
  match input with
  | [] => silent (.done [])
  | token :: tokens =>
    if token.kind = closing ∨ token.kind = .eof then silent (.done [])
    else
      (item (token :: tokens) (Nat.le_refl _)).andThen fun first rest hrest =>
        match rest with
        | [] => silent (.done [first])
        | comma :: more =>
          if comma.kind = .punct .comma then
            (within (skipNewlines_suffix more) <|
              (turning .items (token :: tokens) <|
                itemsOf closing (skipNewlines more) fun inner hinner =>
                  item inner (length_le_behind_comma hrest hinner)).map (first :: ·)).behind comma
          else silent (.done [first])
termination_by input.length
decreasing_by
  have hmore := length_skipNewlines_le more
  simp only [List.length_cons] at hrest ⊢
  omega

/-- Items up to a closing token, which is left to the caller. -/
def listOf (closing : Kind) (input : List Token)
    (item : (inner : List Token) → inner.length ≤ input.length → Traced inner α) :
    Traced input (List α) :=
  entering .list <|
    (itemsOf closing (skipNewlines input) fun inner hinner =>
      item inner (length_le_of_skipNewlines hinner)).within (skipNewlines_suffix input)

/-- A bracketed list if the input begins with its opening token. -/
def delimited (eof : Token) (opening closing : Kind) (input : List Token)
    (item : (inner : List Token) → inner.length < input.length → Traced inner α) :
    Traced input (Option (List α)) :=
  match input with
  | [] => silent (.done none)
  | token :: rest =>
    if token.kind = opening then
      ((listOf closing rest fun inner hinner =>
        item inner (length_lt_cons hinner)).andThen fun items rest _ =>
          expecting eof closing rest fun _ _ _ => silent (.done (some items))).behind token
    else silent (.done none)

end Traced

/-! ## Outcomes -/

/-- The outcome of a list of items of which no run is known. -/
def itemsOf (closing : Kind) (input : List Token)
    (item : (inner : List Token) → inner.length ≤ input.length → Outcome inner α) :
    Outcome input (List α) :=
  (Traced.itemsOf closing input fun inner hinner => .silent (item inner hinner)).outcome

def listOf (closing : Kind) (input : List Token)
    (item : (inner : List Token) → inner.length ≤ input.length → Outcome inner α) :
    Outcome input (List α) :=
  (Traced.listOf closing input fun inner hinner => .silent (item inner hinner)).outcome

def delimited (eof : Token) (opening closing : Kind) (input : List Token)
    (item : (inner : List Token) → inner.length < input.length → Outcome inner α) :
    Outcome input (Option (List α)) :=
  (Traced.delimited eof opening closing input fun inner hinner =>
    .silent (item inner hinner)).outcome

/-- The outcome of a list depends on the outcomes of its items, and not on their runs. -/
theorem Traced.outcome_itemsOf (closing : Kind) (input : List Token)
    (item : (inner : List Token) → inner.length ≤ input.length → Traced inner α) :
    (Traced.itemsOf closing input item).outcome =
      KCompiler.itemsOf closing input fun inner hinner => (item inner hinner).outcome := by
  unfold KCompiler.itemsOf
  cases input with
  | nil => rw [Traced.itemsOf, Traced.itemsOf]
  | cons token tokens =>
      rw [Traced.itemsOf, Traced.itemsOf]
      split
      · rfl
      · simp only [outcome_andThen, outcome_silent]
        congr 1
        funext first rest hrest
        cases rest with
        | nil => rfl
        | cons comma more =>
            have hless : (skipNewlines more).length < (token :: tokens).length :=
              Nat.lt_of_le_of_lt (length_skipNewlines_le more) hrest
            have hmore := outcome_itemsOf closing (skipNewlines more) fun inner hinner =>
              item inner (length_le_behind_comma hrest hinner)
            simp only
            split
            · exact congrArg (fun outcome : Outcome (skipNewlines more) (List α) =>
                ((outcome.map (first :: ·)).within (skipNewlines_suffix more)).behind comma) hmore
            · rfl
termination_by input.length

section Equations

variable (eof : Token) {opening closing : Kind}

theorem itemsOf_nil
    (item : (inner : List Token) → inner.length ≤ ([] : List Token).length → Outcome inner α) :
    itemsOf closing [] item = .done [] := by
  rw [itemsOf, Traced.itemsOf]
  rfl

theorem itemsOf_cons {token : Token} {tokens : List Token}
    (item : (inner : List Token) → inner.length ≤ (token :: tokens).length → Outcome inner α) :
    itemsOf closing (token :: tokens) item =
      if token.kind = closing ∨ token.kind = .eof then .done []
      else
        (item (token :: tokens) (Nat.le_refl _)).andThen fun first rest hrest =>
          match rest with
          | [] => .done [first]
          | comma :: more =>
            if comma.kind = .punct .comma then
              (Outcome.within (skipNewlines_suffix more) <|
                (itemsOf closing (skipNewlines more) fun inner hinner =>
                  item inner (length_le_behind_comma hrest hinner)).map (first :: ·)).behind comma
            else .done [first] := by
  rw [itemsOf, Traced.itemsOf]
  split
  · rfl
  · simp only [Traced.outcome_andThen, Traced.outcome_silent]
    congr 1
    funext first rest hrest
    cases rest with
    | nil => rfl
    | cons comma more =>
        simp only
        split <;> rfl

theorem listOf_def {input : List Token}
    (item : (inner : List Token) → inner.length ≤ input.length → Outcome inner α) :
    listOf closing input item =
      (itemsOf closing (skipNewlines input) fun inner hinner =>
        item inner (length_le_of_skipNewlines hinner)).within (skipNewlines_suffix input) :=
  rfl

theorem Traced.outcome_listOf {input : List Token}
    (item : (inner : List Token) → inner.length ≤ input.length → Traced inner α) :
    (Traced.listOf closing input item).outcome =
      KCompiler.listOf closing input fun inner hinner => (item inner hinner).outcome :=
  congrArg (Outcome.within (skipNewlines_suffix input)) (outcome_itemsOf closing _ _)

theorem delimited_nil
    (item : (inner : List Token) → inner.length < ([] : List Token).length → Outcome inner α) :
    delimited eof opening closing [] item = .done none :=
  rfl

theorem delimited_cons {token : Token} {rest : List Token}
    (item : (inner : List Token) → inner.length < (token :: rest).length → Outcome inner α) :
    delimited eof opening closing (token :: rest) item =
      if token.kind = opening then
        ((listOf closing rest fun inner hinner =>
          item inner (length_lt_cons hinner)).andThen fun items rest _ =>
            expecting eof closing rest fun _ _ _ => .done (some items)).behind token
      else .done none := by
  rw [delimited, Traced.delimited]
  split
  · simp only [Traced.outcome_behind, Traced.outcome_andThen, Traced.outcome_expecting]
    rfl
  · rfl

theorem Traced.outcome_delimited {input : List Token}
    (item : (inner : List Token) → inner.length < input.length → Traced inner α) :
    (Traced.delimited eof opening closing input item).outcome =
      KCompiler.delimited eof opening closing input fun inner hinner =>
        (item inner hinner).outcome := by
  cases input with
  | nil => rfl
  | cons token rest =>
      rw [delimited_cons, Traced.delimited]
      split
      · simp only [outcome_behind, outcome_andThen, outcome_expecting, outcome_listOf]
        rfl
      · rfl

end Equations

end KCompiler
