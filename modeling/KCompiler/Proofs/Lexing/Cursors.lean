import KCompiler.Proofs.Lexing.Tiling
import KCompiler.Source.Cursor

/-! # Cursors know where they stand

A cursor is asked to move on, to take a wanted character or to look ahead, in any order. Whatever it
has been asked, it stands behind a beginning of its text without a null character, and all that can
be read off it (its offset, its line and column, the characters ahead) follows from that beginning.
Each request adds to the beginning what it takes.
-/

namespace KCompiler.Cursor

/-- What a cursor can be asked. -/
inductive Request where
  | advance
  | eat (wanted : Char)
  | peek (ahead : Nat)
  | current
  deriving DecidableEq, Repr

inductive Answer where
  | char (c : Char)
  | eaten (taken : Bool)
  deriving DecidableEq, Repr

/-- The answer to a request, and the cursor behind it. -/
def serve (cursor : Cursor) : Request → Answer × Cursor
  | .advance => (.char cursor.advance.1, cursor.advance.2)
  | .eat wanted => (.eaten (cursor.eat wanted).1, (cursor.eat wanted).2)
  | .peek ahead => (.char (cursor.peek ahead), cursor)
  | .current => (.char cursor.current, cursor)

/-- A cursor, at the beginning of a text at first, after a history of requests. -/
def after (text : String) (history : List Request) : Cursor :=
  history.foldl (fun cursor request => (cursor.serve request).2) (ofText text)

theorem after_concat (text : String) (history : List Request) (request : Request) :
    after text (history ++ [request]) = ((after text history).serve request).2 := by
  rw [after, List.foldl_concat]
  rfl

/-! ## What the text says -/

/-- The character of a text behind a number of others; behind the last one, the null character. -/
def charBehind (text : String) (count : Nat) : Char :=
  text.toList[count]?.getD '\x00'

/-- What a request takes off a text behind the characters that have been passed. The null character
is never taken, be it asked for or not. -/
def taken (text : String) (passed : List Char) : Request → List Char
  | .advance =>
    if charBehind text passed.length = '\x00' then [] else [charBehind text passed.length]
  | .eat wanted =>
    if charBehind text passed.length = wanted ∧ wanted ≠ '\x00' then [wanted] else []
  | .peek _ | .current => []

/-- What the answer to a request has to be. -/
def answer (text : String) (passed : List Char) : Request → Answer
  | .advance | .current => .char (charBehind text passed.length)
  | .eat wanted => .eaten (charBehind text passed.length = wanted ∧ wanted ≠ '\x00')
  | .peek ahead => .char (charBehind text (passed.length + ahead))

/-- A cursor over a text stands behind the characters it has passed: a beginning of the text,
without a null character, by which its counters and what it sees are settled. Lines and columns are
numbers of 32 bits. -/
structure Stands (text : String) (passed : List Char) (cursor : Cursor) : Prop where
  isPrefix : passed <+: text.toList
  visible : '\x00' ∉ passed
  offset_eq : cursor.location.offset = (String.ofList passed).utf8ByteSize
  line_eq : cursor.location.position.line = 1 + passed.count '\n'
  column_eq : cursor.location.position.column =
    1 + (passed.reverse.takeWhile (· ≠ '\n')).length
  current_eq : cursor.current = charBehind text passed.length
  line_lt : cursor.location.position.line < UInt32.size
  column_lt : cursor.location.position.column < UInt32.size

/-! ## One step -/

theorem length_le_utf8Len (chars : List Char) : chars.length ≤ String.utf8Len chars := by
  induction chars with
  | nil => exact Nat.le_refl 0
  | cons c chars ih =>
      have hpos := c.utf8Size_pos
      rw [List.length_cons, String.utf8Len_cons]
      omega

theorem next_of_null {cursor : Cursor} (hcurrent : cursor.current = '\x00') :
    cursor.next = cursor := by
  obtain ⟨location, rest⟩ := cursor
  cases rest with
  | nil => rfl
  | cons c rest => exact if_pos hcurrent

/-- A wanted character is taken if it is there; the null character stands for the end. -/
theorem eat_eq (cursor : Cursor) (wanted : Char) :
    cursor.eat wanted =
      if cursor.current = wanted ∧ wanted ≠ '\x00' then (true, cursor.next)
      else (false, cursor) := by
  have hend : cursor.current = wanted ∧ cursor.atEnd = false ↔
      cursor.current = wanted ∧ wanted ≠ '\x00' := by
    refine and_congr_right fun hcurrent => ?_
    rw [atEnd, hcurrent, beq_eq_false_iff_ne]
    rfl
  rw [eat]
  exact if_congr hend rfl rfl

/-- What a cursor keeps: the characters it has passed and those ahead are the text, and its place is
the one behind the characters passed. -/
structure Follows (text : String) (passed : List Char) (cursor : Cursor) : Prop where
  text_eq : passed ++ cursor.rest = text.toList
  visible : '\x00' ∉ passed
  location_eq : cursor.location = Location.start.afterAll passed

theorem follows_ofText (text : String) : Follows text [] (ofText text) :=
  ⟨rfl, List.not_mem_nil, rfl⟩

namespace Follows

variable {text : String} {passed : List Char} {cursor : Cursor}
  (hfollows : Follows text passed cursor)

include hfollows

theorem peek_eq (ahead : Nat) : cursor.peek ahead = charBehind text (passed.length + ahead) := by
  rw [charBehind, ← hfollows.text_eq, List.getElem?_append_right (Nat.le_add_right _ _),
    Nat.add_sub_cancel_left]
  rfl

theorem current_eq : cursor.current = charBehind text passed.length :=
  hfollows.peek_eq 0

/-- A cursor that moves on passes the current character. -/
theorem next (hcurrent : cursor.current ≠ '\x00') :
    Follows text (passed ++ [cursor.current]) cursor.next := by
  obtain ⟨location, rest⟩ := cursor
  obtain ⟨htext, hvisible, rfl⟩ := hfollows
  cases rest with
  | nil => exact absurd rfl hcurrent
  | cons c rest =>
      change c ≠ '\x00' at hcurrent
      have hnext : next ⟨Location.start.afterAll passed, c :: rest⟩ =
          ⟨(Location.start.afterAll passed).after c, rest⟩ := if_neg hcurrent
      rw [hnext]
      change Follows text (passed ++ [c]) _
      exact {
        text_eq := by simpa using htext
        visible := by simpa [hvisible] using hcurrent.symm
        location_eq := by rw [Location.afterAll_append]; rfl }

/-- A request is answered by the text, and the cursor passes what the request takes. -/
theorem serve (request : Request) :
    (cursor.serve request).1 = answer text passed request ∧
      Follows text (passed ++ taken text passed request) (cursor.serve request).2 ∧
      (taken text passed request = [] → (cursor.serve request).2 = cursor) := by
  have hcurrent := hfollows.current_eq
  have hstays : Follows text (passed ++ []) cursor := by rwa [List.append_nil]
  cases request with
  | advance =>
      refine ⟨congrArg Answer.char hcurrent, ?_⟩
      simp only [taken, ← hcurrent]
      by_cases hnull : cursor.current = '\x00'
      · rw [if_pos hnull]
        have hnext : (cursor.serve .advance).2 = cursor := next_of_null hnull
        rw [hnext]
        exact ⟨hstays, fun _ => rfl⟩
      · rw [if_neg hnull]
        exact ⟨hfollows.next hnull, fun htaken => absurd htaken (by simp)⟩
  | eat wanted =>
      simp only [taken, answer, Cursor.serve, eat_eq, ← hcurrent]
      by_cases hwanted : cursor.current = wanted ∧ wanted ≠ '\x00'
      · obtain ⟨rfl, hnull⟩ := hwanted
        simpa [hnull] using hfollows.next hnull
      · simpa [hwanted] using hfollows
  | peek ahead => exact ⟨congrArg Answer.char (hfollows.peek_eq ahead), hstays, fun _ => rfl⟩
  | current => exact ⟨congrArg Answer.char hcurrent, hstays, fun _ => rfl⟩

/-- In a text that is not too long no counter runs over. -/
theorem stands (hsize : text.utf8ByteSize < UInt32.size - 1) : Stands text passed cursor := by
  have hfront : passed <+: text.toList := ⟨cursor.rest, hfollows.text_eq⟩
  have hlength : passed.length < UInt32.size - 1 := by
    have hbytes := String.utf8Len_le_of_prefix hfront
    rw [String.utf8Len_toList] at hbytes
    exact ((length_le_utf8Len passed).trans hbytes).trans_lt hsize
  -- A line and a column are one more than a number of characters, and a character has a byte.
  have hlines : passed.count '\n' ≤ passed.length := List.count_le_length
  have hcolumns : (passed.reverse.takeWhile (· ≠ '\n')).length ≤ passed.length := by
    simpa using (List.takeWhile_prefix (· ≠ '\n') (l := passed.reverse)).length_le
  have hlocation : cursor.location = ⟨String.utf8Len passed, .behind passed⟩ := by
    rw [hfollows.location_eq, Location.afterAll_start]
  have hline : cursor.location.position.line = 1 + passed.count '\n' := by
    rw [hlocation, Position.behind]
  have hcolumn : cursor.location.position.column =
      1 + (passed.reverse.takeWhile (· ≠ '\n')).length := by
    rw [hlocation, Position.behind]
  exact {
    isPrefix := hfront
    visible := hfollows.visible
    offset_eq := by rw [hlocation, String.utf8ByteSize_ofList]
    line_eq := hline
    column_eq := hcolumn
    current_eq := hfollows.current_eq
    line_lt := by omega
    column_lt := by omega }

end Follows

/-! ## Whole histories -/

theorem exists_follows (text : String) (history : List Request) :
    ∃ passed, Follows text passed (after text history) := by
  induction history using List.reverseRecOn with
  | nil => exact ⟨[], follows_ofText text⟩
  | append_singleton history request ih =>
      obtain ⟨passed, hfollows⟩ := ih
      rw [after_concat]
      exact ⟨_, (hfollows.serve request).2.1⟩

/-- After any history a cursor stands behind a beginning of its text, from which its answer to one
more request follows, and it then stands behind what the request adds to the beginning. -/
theorem exists_passed {text : String} (hsize : text.utf8ByteSize < UInt32.size - 1)
    (history : List Request) :
    ∃ passed, Stands text passed (after text history) ∧
      ∀ request, ((after text history).serve request).1 = answer text passed request ∧
        Stands text (passed ++ taken text passed request) (after text (history ++ [request])) ∧
        (taken text passed request = [] →
          after text (history ++ [request]) = after text history) := by
  obtain ⟨passed, hfollows⟩ := exists_follows text history
  refine ⟨passed, hfollows.stands hsize, fun request => ?_⟩
  obtain ⟨hanswer, hmoved, hstays⟩ := hfollows.serve request
  rw [after_concat]
  exact ⟨hanswer, hmoved.stands hsize, hstays⟩

/-- A character of two bytes and a line break are passed, and the null character behind them is
not. -/
theorem exists_passed_null :
    let text := "\u00e9\n\x00x"
    let history : List Request := [.advance, .eat 'x', .eat '\n', .peek 1]
    text.utf8ByteSize < UInt32.size - 1 ∧
      after text history = ⟨⟨3, ⟨2, 1⟩⟩, ['\x00', 'x']⟩ ∧
      ∃ passed, Stands text passed (after text history) ∧
        taken text passed (.eat '\x00') = [] ∧
        Stands text passed (after text (history ++ [.eat '\x00'])) ∧
        after text (history ++ [.eat '\x00']) = after text history := by
  intro text history
  have hsize : text.utf8ByteSize < UInt32.size - 1 := by decide +kernel
  refine ⟨hsize, by decide +kernel, ?_⟩
  obtain ⟨passed, hstands, hserved⟩ := exists_passed hsize history
  have htaken : taken text passed (.eat '\x00') = [] := by simp [taken]
  obtain ⟨-, hstill, hstays⟩ := hserved (.eat '\x00')
  rw [htaken, List.append_nil] at hstill
  exact ⟨passed, hstands, htaken, hstill, hstays htaken⟩

end KCompiler.Cursor
