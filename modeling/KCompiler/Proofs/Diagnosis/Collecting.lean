import KCompiler.Diagnostic.Collector
import Mathlib.Data.List.Induction

/-! # Collecting diagnostics

A collector keeps what is reported, except for errors behind the first few. Only errors count
towards that limit, so that other reports can be left out without a change to the rest. What a
collector holds follows from the reports it has had: its entries, its counter and its flag.
-/

namespace KCompiler

/-- The errors among some reports. -/
def errors (reports : List Diagnostic) : List Diagnostic :=
  reports.filter Diagnostic.isError

@[simp] theorem errors_nil : errors [] = [] := rfl

@[simp] theorem errors_append (first second : List Diagnostic) :
    errors (first ++ second) = errors first ++ errors second :=
  List.filter_append first second

theorem errors_singleton (report : Diagnostic) :
    errors [report] = if report.isError then [report] else [] := by
  cases herror : report.isError <;> simp [errors, herror]

/-- Leaving out reports that are no errors. -/
theorem errors_filter {test : Diagnostic → Bool} {reports : List Diagnostic}
    (htest : ∀ report ∈ reports, report.isError → test report) :
    errors (reports.filter test) = errors reports := by
  rw [errors, errors, List.filter_filter]
  refine List.filter_congr fun report hmem => ?_
  cases herror : report.isError with
  | false => rfl
  | true => simp [htest report hmem herror]

namespace Diagnostics

/-- Whether a report at an index among others is kept: an error is only if fewer than the limit
stand before it. -/
def isKept (reports : List Diagnostic) (entry : Diagnostic × Nat) : Bool :=
  !entry.1.isError || (errors (reports.take entry.2)).length < maxErrors

/-- The reports that are kept, in their order. -/
def kept (reports : List Diagnostic) : List Diagnostic :=
  (reports.zipIdx.filter (isKept reports)).map Prod.fst

/-- The errors among some reports for which a collector has no room. -/
def dropped (reports : List Diagnostic) : List Diagnostic :=
  (errors reports).drop maxErrors

section Kept

variable (reports : List Diagnostic) (report : Diagnostic)

/-- One more report changes nothing about those before it. -/
theorem kept_concat :
    kept (reports ++ [report]) = kept reports ++
      if report.isError && maxErrors ≤ (errors reports).length then [] else [report] := by
  have hearlier : reports.zipIdx.filter (isKept (reports ++ [report])) =
      reports.zipIdx.filter (isKept reports) := by
    refine List.filter_congr fun entry hmem => ?_
    have hindex : entry.2 ≤ reports.length := Nat.le_of_lt (List.snd_lt_of_mem_zipIdx hmem)
    rw [isKept, isKept, List.take_append_of_le_length hindex]
  have hlast : isKept (reports ++ [report]) (report, reports.length) =
      !(report.isError && maxErrors ≤ (errors reports).length) := by
    simp [isKept, Bool.not_and, ← decide_not]
  rw [kept, List.zipIdx_append, List.filter_append, List.map_append, hearlier, kept,
    List.zipIdx_singleton, Nat.zero_add]
  cases hfull : report.isError && decide (maxErrors ≤ (errors reports).length) <;>
    simp [hlast, hfull]

/-- Of the errors the first ones are kept. -/
theorem errors_kept : errors (kept reports) = (errors reports).take maxErrors := by
  induction reports using List.reverseRecOn with
  | nil => rfl
  | append_singleton reports report ih =>
      rw [kept_concat, errors_append, errors_append, ih, errors_singleton]
      cases herror : report.isError with
      | false => simp [errors_singleton, herror]
      | true =>
          by_cases hfull : maxErrors ≤ (errors reports).length
          · simp [hfull, List.take_append_of_le_length]
          · have hroom : (errors reports ++ [report]).length ≤ maxErrors := by
              rw [List.length_append, List.length_singleton]
              omega
            rw [if_pos rfl, List.take_of_length_le (by omega), List.take_of_length_le hroom]
            simp [hfull, errors_singleton, herror]

/-- All reports are kept if there is room for the errors among them. -/
theorem kept_eq_self (hroom : (errors reports).length ≤ maxErrors) : kept reports = reports := by
  induction reports using List.reverseRecOn with
  | nil => rfl
  | append_singleton reports report ih =>
      rw [errors_append, List.length_append, errors_singleton] at hroom
      rw [kept_concat, ih (by omega), if_neg]
      intro hfull
      obtain ⟨herror, hfull⟩ : report.isError ∧ maxErrors ≤ (errors reports).length := by
        simpa using hfull
      simp only [herror, if_true, List.length_singleton] at hroom
      omega

/-- Reports that are no errors can be left out. -/
theorem filter_kept {test : Diagnostic → Bool} {reports : List Diagnostic}
    (htest : ∀ report ∈ reports, report.isError → test report) :
    (kept reports).filter test = kept (reports.filter test) := by
  induction reports using List.reverseRecOn with
  | nil => rfl
  | append_singleton reports report ih =>
      have hreports : ∀ earlier ∈ reports, earlier.isError → test earlier := fun earlier hmem =>
        htest earlier (List.mem_append_left _ hmem)
      have hreport : report.isError → test report := htest report (by simp)
      rw [kept_concat, List.filter_append, List.filter_append, ih hreports]
      cases hkeep : test report with
      | false =>
          have herror : ¬report.isError := fun herror => by simp [hreport herror] at hkeep
          simp [herror, hkeep]
      | true =>
          rw [List.filter_cons_of_pos hkeep, List.filter_nil, kept_concat, errors_filter hreports]
          split <;> simp [hkeep]

/-- What is no error is kept. -/
theorem filter_kept_of_not_isError {test : Diagnostic → Bool}
    (htest : ∀ report, report.isError → test report = false) :
    (kept reports).filter test = reports.filter test := by
  induction reports using List.reverseRecOn with
  | nil => rfl
  | append_singleton reports report ih =>
      rw [kept_concat, List.filter_append, List.filter_append, ih]
      cases herror : report.isError with
      | false => rfl
      | true => split <;> simp [htest report herror]

end Kept

/-- The flag is set by any error that is reported, whether there is room for it or not. -/
theorem hasErrors_reportAll (diagnostics : Diagnostics) (reports : List Diagnostic) :
    (diagnostics.reportAll reports).hasErrors =
      (diagnostics.hasErrors || reports.any Diagnostic.isError) := by
  induction reports generalizing diagnostics with
  | nil => simp
  | cons report reports ih =>
      rw [reportAll_cons, ih, List.any_cons, ← Bool.or_assoc]
      congr 1
      unfold Diagnostics.report
      cases report.isError with
      | false => simp
      | true =>
          rw [if_pos rfl]
          split <;> simp

/-- What a collector holds that has had some reports since it was fresh. -/
structure Records (reports : List Diagnostic) (diagnostics : Diagnostics) : Prop where
  entries_eq : diagnostics.entries.toList = kept reports
  errorCount_eq : diagnostics.errorCount = min maxErrors (errors reports).length
  hasErrors_eq : diagnostics.hasErrors = reports.any Diagnostic.isError

theorem records_empty : Records [] empty := ⟨rfl, rfl, rfl⟩

theorem records_reset (diagnostics : Diagnostics) : Records [] diagnostics.reset := ⟨rfl, rfl, rfl⟩

/-- Entries, counter and flag go on together with one more report. -/
theorem Records.report {reports : List Diagnostic} {diagnostics : Diagnostics}
    (hrecords : diagnostics.Records reports) (report : Diagnostic) :
    (diagnostics.report report).Records (reports ++ [report]) := by
  obtain ⟨hentries, hcount, hflag⟩ := hrecords
  have hfull : maxErrors ≤ diagnostics.errorCount ↔ maxErrors ≤ (errors reports).length := by
    rw [hcount]
    omega
  unfold Diagnostics.report
  cases herror : report.isError with
  | false =>
      refine ⟨?_, ?_, ?_⟩
      · simp [kept_concat, hentries, herror]
      · simp [hcount, errors_singleton, herror]
      · simp [hflag, herror]
  | true =>
      rw [if_pos rfl]
      split
      next hdrop =>
        refine ⟨?_, ?_, ?_⟩
        · simp [kept_concat, hentries, herror, hfull.mp hdrop]
        · rw [hfull] at hdrop
          simp only [hcount, errors_append, List.length_append]
          omega
        · simp [herror]
      next hroom =>
        refine ⟨?_, ?_, ?_⟩
        · simp [kept_concat, hentries, herror, mt hfull.mpr hroom]
        · rw [hfull] at hroom
          simp only [hcount, errors_append, errors_singleton, herror, if_true, List.length_append,
            List.length_singleton]
          omega
        · simp [herror]

theorem records_reportAll (reports : List Diagnostic) :
    (empty.reportAll reports).Records reports := by
  induction reports using List.reverseRecOn with
  | nil => exact records_empty
  | append_singleton reports report ih =>
      rw [reportAll_append]
      exact ih.report report

/-- The errors that a fresh collector keeps, and those that it drops. -/
theorem errors_append_dropped (reports : List Diagnostic) :
    errors (empty.reportAll reports).entries.toList ++ dropped reports = errors reports := by
  rw [(records_reportAll reports).entries_eq, errors_kept]
  exact List.take_append_drop maxErrors (errors reports)

end Diagnostics

end KCompiler
