import KCompiler.Diagnostic.Render
import KCompiler.Proofs.Diagnosis.Collecting
import Mathlib.Data.List.DropRight

/-! # Collectors with a history

A collector is asked to take reports and to forget them, in any order. Whatever it has been asked,
it holds what was reported since it last forgot, and all that can be read off it (its entries, its
counter, its flag and the summary) says the same about these reports.
-/

namespace KCompiler.Diagnostics

/-- What a collector can be asked to do. -/
inductive Request where
  | report (diagnostic : Diagnostic)
  | reset
  deriving DecidableEq, Repr

def Request.diagnostic? : Request → Option Diagnostic
  | .report diagnostic => some diagnostic
  | .reset => none

def serve (diagnostics : Diagnostics) : Request → Diagnostics
  | .report diagnostic => diagnostics.report diagnostic
  | .reset => diagnostics.reset

/-- A collector, fresh at first, after a history of requests. -/
def after (history : List Request) : Diagnostics :=
  history.foldl serve empty

/-- What was reported since the last reset. -/
def current (history : List Request) : List Diagnostic :=
  (history.rtakeWhile (· ≠ .reset)).filterMap Request.diagnostic?

theorem current_concat_report (history : List Request) (diagnostic : Diagnostic) :
    current (history ++ [.report diagnostic]) = current history ++ [diagnostic] := by
  rw [current, List.rtakeWhile_concat_pos _ _ _ (by simp), List.filterMap_append]
  rfl

theorem current_concat_reset (history : List Request) : current (history ++ [.reset]) = [] := by
  rw [current, List.rtakeWhile_concat_neg _ _ _ (by simp), List.filterMap_nil]

/-- Nothing but the reports since the last reset matters. -/
theorem records_after (history : List Request) : (after history).Records (current history) := by
  induction history using List.reverseRecOn with
  | nil => exact records_empty
  | append_singleton history request ih =>
      rw [after, List.foldl_concat]
      cases request with
      | report diagnostic =>
          rw [current_concat_report]
          exact ih.report diagnostic
      | reset =>
          rw [current_concat_reset]
          exact records_reset (after history)

namespace Records

variable {reports : List Diagnostic} {diagnostics : Diagnostics}
  (hrecords : diagnostics.Records reports)

include hrecords

/-- Counting the entries gives the counter, also where errors have been dropped. -/
theorem count_error : diagnostics.count .error = diagnostics.errorCount := by
  have herrors : (diagnostics.entries.toList.filter (·.level == .error)).length =
      (errors (kept reports)).length := by
    rw [hrecords.entries_eq]
    rfl
  rw [count, ← Array.countP_toList, List.countP_eq_length_filter, herrors, errors_kept,
    List.length_take, hrecords.errorCount_eq]

theorem count_of_ne {level : Level} (hlevel : level ≠ .error) :
    diagnostics.count level = reports.countP (·.level == level) := by
  rw [count, ← Array.countP_toList, List.countP_eq_length_filter, List.countP_eq_length_filter,
    hrecords.entries_eq, filter_kept_of_not_isError]
  intro report herror
  rw [eq_of_beq herror]
  exact beq_false_of_ne hlevel.symm

theorem hasErrors_iff : diagnostics.hasErrors ↔ 0 < diagnostics.errorCount := by
  rw [hrecords.hasErrors_eq, hrecords.errorCount_eq, List.any_eq_true, errors, Nat.lt_min,
    List.length_filter_pos_iff]
  exact (and_iff_right (by decide)).symm

end Records

/-- How the summary of a failed compilation begins. -/
def failureText : String := "error: compilation failed with "

/-- The summary tells of a failure if an error is among the entries. -/
theorem failureText_summary_iff (diagnostics : Diagnostics) :
    (∃ counts, diagnostics.summary = failureText ++ counts) ↔ 0 < diagnostics.count .error := by
  have hfinished {text counts : String} (htext : text.toList.head? = some 'c') :
      text ≠ failureText ++ counts := by
    rintro rfl
    simp [failureText] at htext
  unfold summary
  generalize diagnostics.count .error = errors, diagnostics.count .warning = warnings
  cases errors with
  | zero =>
      refine iff_of_false ?_ (Nat.lt_irrefl 0)
      rintro ⟨counts, hcounts⟩
      cases warnings with
      | zero => exact hfinished rfl hcounts
      | succ warnings => exact hfinished (by simp) hcounts
  | succ errors =>
      refine iff_of_true ?_ (Nat.succ_pos errors)
      cases warnings with
      | zero => exact ⟨_, rfl⟩
      | succ warnings =>
          refine ⟨countText (errors + 1) "error" ++ " and " ++ countText (warnings + 1) "warning", ?_⟩
          simp [failureText, String.append_assoc]

/-- A collector keeps its promises about some reports: all of them are kept but the errors behind
the tenth, and all that it can be asked has the answer that follows from the reports. -/
structure Faithful (reports : List Diagnostic) (diagnostics : Diagnostics) : Prop where
  entries_eq : diagnostics.entries.toList = kept reports
  others_eq : (diagnostics.entries.toList.filter fun report => !report.isError) =
    reports.filter fun report => !report.isError
  errors_eq : errors diagnostics.entries.toList = (errors reports).take 10
  errorCount_eq : diagnostics.errorCount = min 10 (errors reports).length
  count_error_eq : diagnostics.count .error = min 10 (errors reports).length
  count_eq : ∀ level, level ≠ .error →
    diagnostics.count level = reports.countP (·.level == level)
  hasErrors_iff : diagnostics.hasErrors ↔ ∃ report ∈ reports, report.level = .error
  summary_iff : (∃ counts, diagnostics.summary = failureText ++ counts) ↔ diagnostics.hasErrors

/-- After any history a collector keeps its promises about what was reported since the last
reset. -/
theorem faithful_after (history : List Request) : (after history).Faithful (current history) := by
  have hrecords := records_after history
  exact {
    entries_eq := hrecords.entries_eq
    others_eq := by
      rw [hrecords.entries_eq, filter_kept_of_not_isError]
      intro report herror
      simp [herror]
    errors_eq := by
      rw [hrecords.entries_eq, errors_kept]
      rfl
    errorCount_eq := hrecords.errorCount_eq
    count_error_eq := by
      rw [hrecords.count_error, hrecords.errorCount_eq]
      rfl
    count_eq := fun _ hlevel => hrecords.count_of_ne hlevel
    hasErrors_iff := by
      rw [hrecords.hasErrors_eq, List.any_eq_true]
      simp [Diagnostic.isError]
    summary_iff := by
      rw [failureText_summary_iff, hrecords.count_error, hrecords.hasErrors_iff] }

end KCompiler.Diagnostics
