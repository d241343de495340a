import CodeRisk.Proofs.Batch.Undisturbed
import CodeRisk.Proofs.File.Obstacle

/-!
# Failures of a batch

A batch that is loaded from disk and never called off fails at the files that meet an obstacle and
has a result for each of the others. A failure bears the label of the obstacle, and no other label
occurs (`Analyzer.failures_eq_obstacles`).
-/
namespace CodeRisk

namespace Analyzer

open BatchEvent

variable {ν : Type} [Scale ν] (a : Analyzer) (revision : Revision) (now : Timestamp) (d : Disk)
  (path : String)

/-- A file fails exactly if it meets an obstacle. -/
theorem exists_error_iff :
    (∃ e, (a.analyzeFile d.loadUnit revision now path : Except AnalysisError (FileMetadata ν)) =
      .error e) ↔ ∃ o, d.Meets path o := by
  simp only [analyzeFile_eq_error_iff]
  constructor
  · rintro ⟨e, he⟩
    obtain ⟨o, ho, -⟩ := he.exists_meets
    exact ⟨o, ho⟩
  · rintro ⟨o, ho⟩
    obtain ⟨e, he, -⟩ := Disk.meets_iff.mp ho
    exact ⟨e, he⟩

theorem path_of_failure :
    (BatchFailure.of? path (a.analyzeFile d.loadUnit revision now path :
      Except AnalysisError (FileMetadata ν))).map BatchFailure.path =
      Option.guard (fun p => decide (∃ o, d.Meets p o)) path := by
  have hiff := exists_error_iff (ν := ν) a revision now d path
  cases h : (a.analyzeFile d.loadUnit revision now path : Except AnalysisError (FileMetadata ν)) with
  | error e =>
    have hmeets := hiff.mp ⟨e, h⟩
    simp [BatchFailure.of?, AnalysisError.failure, Option.guard, hmeets]
  | ok m =>
    have hmeets : ¬∃ o, d.Meets path o := by simp [← hiff, h]
    simp [BatchFailure.of?, Option.guard, hmeets]

theorem path_of_result :
    ((a.analyzeFile d.loadUnit revision now path :
      Except AnalysisError (FileMetadata ν)).toOption).map FileMetadata.filePath =
      Option.guard (fun p => decide (¬∃ o, d.Meets p o)) path := by
  have hiff := exists_error_iff (ν := ν) a revision now d path
  cases h : (a.analyzeFile d.loadUnit revision now path : Except AnalysisError (FileMetadata ν)) with
  | error e =>
    have hmeets := hiff.mp ⟨e, h⟩
    simp [Except.toOption, Option.guard, hmeets]
  | ok m =>
    have hmeets : ¬∃ o, d.Meets path o := by simp [← hiff, h]
    simp [Except.toOption, Option.guard, hmeets, filePath_of_analyzeFile a _ revision now h]

/-- What a failure says is the way in which its file stops, whatever happens to the flag. -/
theorem stops_of_mem_failures {events : List BatchEvent} {paths : List String} {f : BatchFailure}
    (hschedule : IsSchedule paths.length events)
    (h : f ∈ (a.analyzeBatchDuring d.loadUnit revision now events paths : BatchReport ν).failures) :
    f.path ∈ paths ∧ ∃ e, d.Stops f.path e ∧ f = e.failure f.path := by
  rw [analyzeBatchDuring, BatchRun.report_run hschedule, BatchReport.failures_ofOutcomes,
    List.mem_filterMap] at h
  obtain ⟨outcome, houtcome, hf⟩ := h
  obtain ⟨⟨p, i⟩, hp, rfl⟩ := List.mem_map.mp houtcome
  rw [failed?_outcome] at hf
  split at hf
  · cases hf
  · cases hfile : (a.analyzeFile d.loadUnit revision now p :
        Except AnalysisError (FileMetadata ν)) with
    | ok m =>
      rw [hfile] at hf
      cases hf
    | error e =>
      rw [hfile] at hf
      obtain rfl := Option.some.inj hf
      exact ⟨List.fst_mem_of_mem_zipIdx hp, e, (analyzeFile_eq_error_iff a revision now d).mp hfile,
        rfl⟩

/-- **A batch fails at the files that meet an obstacle**, in the order of the paths, and has results
for the others. No file meets two obstacles, and a failure bears the label of the one that its file
meets. Its reason names the file; of a tree that is too high it gives the height, whether or not
there is an error in the tree. -/
theorem failures_eq_obstacles (events : List BatchEvent) (paths : List String)
    (hflag : a.cancelled = false) (hschedule : IsSchedule paths.length events)
    (hstore : Unchanged false events) :
    let report : BatchReport ν := a.analyzeBatchDuring d.loadUnit revision now events paths
    report.failures.map BatchFailure.path = paths.filter (fun p => ∃ o, d.Meets p o) ∧
    report.results.map FileMetadata.filePath = paths.filter (fun p => ¬∃ o, d.Meets p o) ∧
    report.skipped = [] ∧
    (∀ p o o', d.Meets p o → d.Meets p o' → o = o') ∧
    ∀ f ∈ report.failures,
      (∀ o : Obstacle, f.kind = o.kind ↔ d.Meets f.path o) ∧
      f.kind ∉ ["config", "serialization", "io"] ∧
      (∃ before after, f.reason = before ++ f.path ++ after) ∧
      ∀ text, f.kind = "malformed_unit" → d.readText f.path = .ok text →
        1000 < (Java.read text).height →
        f.reason = (AnalysisError.malformedUnit f.path ("syntax nesting depth " ++
          toString (Java.read text).height ++ " exceeds limit of 1000")).message := by
  intro report
  have hreport : report = .ofOutcomes (paths.map (a.outcome d.loadUnit revision now false)) := by
    rw [← hflag]
    exact analyzeBatchDuring_unchanged hschedule (hflag ▸ hstore)
  refine ⟨?failed, ?analyzed, ?skipped, fun p o o' => Disk.meets_unique, fun f hf => ?_⟩
  case failed =>
    rw [hreport, failures_outcomes, if_neg Bool.false_ne_true, List.map_filterMap]
    simp only [path_of_failure]
    exact congrFun List.filterMap_eq_filter paths
  case analyzed =>
    rw [hreport, results_outcomes, if_neg Bool.false_ne_true, List.map_filterMap]
    simp only [path_of_result]
    exact congrFun List.filterMap_eq_filter paths
  case skipped =>
    rw [hreport, skipped_outcomes, if_neg Bool.false_ne_true]
  obtain ⟨-, e, hstops, hf⟩ := stops_of_mem_failures a revision now d hschedule hf
  have hkind : f.kind = e.kind := congrArg BatchFailure.kind hf
  have hreason : f.reason = e.message := congrArg BatchFailure.reason hf
  obtain ⟨o, hmeets, ho⟩ := hstops.exists_meets
  refine ⟨fun o' => ?_, ?_, hreason ▸ hstops.path_in_message, ?_⟩
  · rw [hkind, ho]
    constructor
    · intro h
      exact Obstacle.kind_injective h ▸ hmeets
    · intro h
      rw [Disk.meets_unique hmeets h]
  · rw [hkind, ho]
    cases o <;> decide
  · intro text hmalformed htext hheight
    rw [hreason, hstops.eq_of_tooDeep (hkind ▸ hmalformed) htext hheight]

/-- A note, a source in which nothing is declared, and a directory that is called a source. -/
def sampleShelf : Disk :=
  ⟨.directory [
    ("notes.txt", .file (some "to do")),
    ("Empty.java", .file (some "// nothing")),
    ("Shop.java", .directory [])], []⟩

theorem failures_eq_obstacles_sample :
    let events : List BatchEvent := [.start 3, .store false, .start 0, .start 2, .start 1]
    let paths := ["Gone.txt", "notes.txt", "Shop.java", "Empty.java"]
    let report : BatchReport Float :=
      ({} : Analyzer).analyzeBatchDuring sampleShelf.loadUnit ⟨"", "main"⟩ ⟨0, 0, 0⟩ events paths
    IsSchedule paths.length events ∧ Unchanged false events ∧
      report.failures.map BatchFailure.path = paths ∧ report.results = [] ∧
      ∀ f ∈ report.failures, f.path = "Shop.java" → f.kind = "unreadable_source" := by
  intro events paths report
  have hschedule : IsSchedule paths.length events := by decide
  have hstore : Unchanged false events := by
    intro value h
    simpa [events] using h
  obtain ⟨hfailed, hanalyzed, -, -, hkinds⟩ :=
    failures_eq_obstacles (ν := Float) {} ⟨"", "main"⟩ ⟨0, 0, 0⟩ sampleShelf events paths rfl
      hschedule hstore
  refine ⟨hschedule, hstore, hfailed.trans (by decide +kernel), ?_, ?_⟩
  · exact List.map_eq_nil_iff.mp (hanalyzed.trans (by decide +kernel))
  · intro f hf hpath
    refine ((hkinds f hf).1 .unreadable).mpr ?_
    rw [hpath]
    decide +kernel

end Analyzer

end CodeRisk
