import KCompiler.Diagnostic.Render
import KCompiler.Proofs.Diagnosis.Spans
import Mathlib.Data.List.TakeWhile

/-! # The line that a diagnostic points to

A diagnostic is shown with the line of the source that has its number. Lines are found by splitting
the source at its line breaks, their numbers by counting the line breaks on the way; the two agree
on every text.
-/

namespace KCompiler

namespace Text

/-- The line at a place of a text, with `front` before the place and `back` behind it. A line break
that ends the line does not belong to it, nor does a carriage return right before that. -/
inductive LineAt (front back : List Char) : List Char → Prop
  | last {before left : List Char} (hfront : front = before ++ left)
      (hbefore : before = [] ∨ before.getLast? = some '\n') (hline : '\n' ∉ left ++ back) :
      LineAt front back (left ++ back)
  | ended {before left right after line : List Char} (hfront : front = before ++ left)
      (hback : back = right ++ '\n' :: after)
      (hbefore : before = [] ∨ before.getLast? = some '\n') (hline : '\n' ∉ left ++ right)
      (hreturn : left ++ right = line ++ ['\r'] ∨
        left ++ right = line ∧ line.getLast? ≠ some '\r') :
      LineAt front back line

/-- A text that is at its end where no line has begun. -/
def AtEnd (front back : List Char) : Prop :=
  back = [] ∧ (front = [] ∨ front.getLast? = some '\n')

variable {front back line : List Char}

theorem dropReturn_cases (line : List Char) :
    line = dropReturn line ++ ['\r'] ∨
      line = dropReturn line ∧ (dropReturn line).getLast? ≠ some '\r' := by
  unfold dropReturn
  split
  next hlast => exact .inl (List.dropLast_append_getLast? '\r' hlast).symm
  next hlast => exact .inr ⟨rfl, hlast⟩

/-! ## Lines of a text -/

theorem takesLine (hline : '\n' ∉ line) : ∀ c ∈ line, decide (c ≠ '\n') := by
  intro c hmem
  simp only [ne_eq, decide_not, Bool.not_eq_true', decide_eq_false_iff_not]
  rintro rfl
  exact hline hmem

theorem lines_of_notMem (hne : line ≠ []) (hline : '\n' ∉ line) : lines line = [line] := by
  obtain ⟨c, cs, rfl⟩ := List.exists_cons_of_ne_nil hne
  have hrest : (c :: cs).dropWhile (· ≠ '\n') = [] :=
    List.dropWhile_eq_nil_iff.mpr (takesLine hline)
  rw [lines, hrest]
  rfl

theorem lines_append (hline : '\n' ∉ line) (more : List Char) :
    lines (line ++ '\n' :: more) = dropReturn line :: lines more := by
  have hrest : (line ++ '\n' :: more).dropWhile (· ≠ '\n') = '\n' :: more := by
    rw [List.dropWhile_append_of_pos (takesLine hline)]
    simp
  have hfirst : (line ++ '\n' :: more).takeWhile (· ≠ '\n') = line := by
    rw [List.takeWhile_append_of_pos (takesLine hline)]
    simp
  obtain ⟨c, cs, heq⟩ := List.exists_cons_of_ne_nil (l := line ++ '\n' :: more) (by simp)
  rw [heq] at hrest hfirst ⊢
  rw [lines, hrest, hfirst]
  rfl

/-! ## Lines at a place -/

theorem beginsLine_append (line before : List Char) :
    before = [] ∨ before.getLast? = some '\n' ↔
      line ++ '\n' :: before = [] ∨ (line ++ '\n' :: before).getLast? = some '\n' := by
  cases before <;> simp

/-- The line at a place stays the same with another line before it. -/
theorem LineAt.behind {found : List Char} (hfound : LineAt front back found) (line : List Char) :
    LineAt (line ++ '\n' :: front) back found := by
  cases hfound with
  | @last before left hfront hbefore hline =>
      have hsplit : line ++ '\n' :: front = (line ++ '\n' :: before) ++ left := by simp [hfront]
      exact .last hsplit ((beginsLine_append line before).mp hbefore) hline
  | @ended before left right after found hfront hback hbefore hline hreturn =>
      have hsplit : line ++ '\n' :: front = (line ++ '\n' :: before) ++ left := by simp [hfront]
      exact .ended hsplit hback ((beginsLine_append line before).mp hbefore) hline hreturn

/-- A place before the first line break. -/
theorem lines_at_first (hfront : '\n' ∉ front) (back : List Char) :
    ((lines (front ++ back))[0]? = none ↔ AtEnd front back) ∧
      ∀ line ∈ (lines (front ++ back))[0]?, LineAt front back line := by
  by_cases hback : '\n' ∈ back
  · obtain ⟨right, after, rfl, hright⟩ := List.eq_append_cons_of_mem hback
    have hline : '\n' ∉ front ++ right := by simp [hfront, hright]
    rw [← List.append_assoc, lines_append hline]
    refine ⟨by simp [AtEnd], ?_⟩
    rintro _ ⟨⟩
    exact .ended rfl rfl (.inl rfl) hline (dropReturn_cases _)
  · have hline : '\n' ∉ front ++ back := by simp [hfront, hback]
    by_cases hnil : front ++ back = []
    · obtain ⟨rfl, rfl⟩ := List.append_eq_nil_iff.mp hnil
      simp [lines, AtEnd]
    · rw [lines_of_notMem hnil hline]
      refine ⟨iff_of_false (by simp) ?_, ?_⟩
      · rintro ⟨rfl, rfl | hlast⟩
        · exact hnil rfl
        · exact hfront (List.mem_of_getLast? hlast)
      · rintro _ ⟨⟩
        exact .last rfl (.inl rfl) hline

theorem lines_at (front back : List Char) :
    ((lines (front ++ back))[front.count '\n']? = none ↔ AtEnd front back) ∧
      ∀ line ∈ (lines (front ++ back))[front.count '\n']?, LineAt front back line := by
  induction hcount : front.count '\n' generalizing front with
  | zero => exact lines_at_first (List.count_eq_zero.mp hcount) back
  | succ count ih =>
      have hmem : '\n' ∈ front := List.count_pos_iff.mp (by omega)
      obtain ⟨line, inner, rfl, hline⟩ := List.eq_append_cons_of_mem hmem
      have hinner : inner.count '\n' = count := by
        simpa [List.count_append, List.count_eq_zero.mpr hline] using hcount
      obtain ⟨hend, hat⟩ := ih inner hinner
      rw [List.append_assoc, List.cons_append, lines_append hline, List.getElem?_cons_succ]
      refine ⟨hend.trans ?_, fun found hfound => (hat found hfound).behind line⟩
      exact and_congr_right fun _ => beginsLine_append line inner

/-- The line with the number of a position is the line at that position. -/
theorem line?_at {source : String} (hsource : source.toList = front ++ back) :
    (line? source (Position.behind front).line = none ↔ AtEnd front back) ∧
      ∀ line ∈ line? source (Position.behind front).line, LineAt front back line.toList := by
  have hline : line? source (Position.behind front).line =
      (lines (front ++ back))[front.count '\n']?.map String.ofList := by
    rw [Position.behind, Nat.add_comm, line?, hsource]
  obtain ⟨hend, hat⟩ := lines_at front back
  rw [hline]
  refine ⟨by rw [Option.map_eq_none_iff, hend], ?_⟩
  intro line hmem
  obtain ⟨found, hfound, rfl⟩ := Option.map_eq_some_iff.mp hmem
  rw [String.toList_ofList]
  exact hat found hfound

end Text

/-- All that is reported on a source points into what the lexer sees of it, and is shown with the
line of the source at which it begins. There is no such line only behind the last line break. -/
theorem reports_point_into_source (options : Options) (file : SourceFile) :
    (∀ compilation, compile options file.text = .ok compilation →
      compilation.diagnostics = Diagnostics.empty.reportAll (reports options file.text)) ∧
    ∀ report ∈ reports options file.text,
      report.span.In (visibleText file.text) ∧
      ∀ front back, file.text.toList = front ++ back → report.span.start = .behind front →
        (file.line? report.span.start.line = none ↔ Text.AtEnd front back) ∧
        ∀ line ∈ file.line? report.span.start.line, Text.LineAt front back line.toList := by
  refine ⟨fun compilation hcompile => (of_compile_eq_ok hcompile).1, fun report hmem => ⟨?_, ?_⟩⟩
  · obtain ⟨finding, hfinding, rfl⟩ := List.mem_map.mp hmem
    exact reported_in options file.text finding hfinding
  · intro front back hsource hstart
    rw [hstart]
    exact Text.line?_at hsource

/-- A comment that is never closed, on a line behind a carriage return and a line break. -/
theorem reports_point_into_source_comment :
    let file : SourceFile := ⟨"m.k", "mod m\r\nx /* y"⟩
    let span : Span := ⟨⟨2, 3⟩, ⟨2, 5⟩⟩
    let report := (Finding.mk .openComment span).diagnostic
    report ∈ reports {} file.text ∧ span.In (visibleText file.text) ∧
      ∃ line, file.line? 2 = some line ∧
        Text.LineAt "mod m\r\nx ".toList "/* y".toList line.toList := by
  intro file span report
  have hmem : report ∈ reports {} file.text := by decide +kernel
  obtain ⟨hspan, hline⟩ := (reports_point_into_source {} file).2 report hmem
  have hsource : file.text.toList = "mod m\r\nx ".toList ++ "/* y".toList := by decide +kernel
  obtain ⟨hnone, hsome⟩ := hline _ _ hsource (by decide +kernel)
  refine ⟨hmem, hspan, ?_⟩
  cases hfound : file.line? 2 with
  | none =>
      obtain ⟨hnil, -⟩ := hnone.mp hfound
      exact absurd hnil (by decide +kernel)
  | some line => exact ⟨line, rfl, hsome line hfound⟩

end KCompiler
