import CodeRisk.Proofs.Batch.Schedule

/-!
# Batches that nobody calls off

While nothing is stored into the flag, the report on a batch does not depend on the schedule: it
sorts the outcomes of the paths under the flag as it was at the beginning
(`Analyzer.analyzeBatchDuring_undisturbed`). If the flag was not set, the results are the records of
the paths that can be analyzed and the failures are the errors of the others.
-/
namespace CodeRisk

namespace BatchEvent

/-- Nothing is stored into the flag. -/
def Undisturbed (events : List BatchEvent) : Prop :=
  ∀ value, store value ∉ events

/-- Nothing but the value that the flag has at the beginning is stored into it. -/
def Unchanged (initial : Bool) (events : List BatchEvent) : Prop :=
  ∀ value, store value ∈ events → value = initial

variable {events : List BatchEvent} {initial : Bool}

theorem Undisturbed.unchanged (h : Undisturbed events) : Unchanged initial events :=
  fun value hmem => absurd hmem (h value)

theorem flagAtStart_of_unchanged (h : Unchanged initial events) (i : Nat) :
    flagAtStart initial events i = initial := by
  unfold flagAtStart
  cases hlast : ((events.takeWhile (· ≠ start i)).filterMap stored?).getLast? with
  | none => rfl
  | some value =>
    obtain ⟨e, he, hvalue⟩ := List.mem_filterMap.mp (List.mem_of_getLast? hlast)
    have hmem : e ∈ events := (List.takeWhile_sublist _).mem he
    cases e with
    | start => cases hvalue
    | store v =>
      obtain rfl : v = value := Option.some.inj hvalue
      exact h v hmem

/-- One position after the other is a schedule. -/
theorem isSchedule_range (n : Nat) : IsSchedule n ((List.range n).map start) := by
  have hstarts : starts ((List.range n).map start) = List.range n := by
    rw [starts, List.filterMap_map]
    exact List.filterMap_some
  rw [IsSchedule, hstarts]

theorem undisturbed_range (n : Nat) : Undisturbed ((List.range n).map start) := by
  intro value h
  obtain ⟨i, -, hi⟩ := List.mem_map.mp h
  cases hi

end BatchEvent

/-- The failure of a path whose analysis went like this. -/
def BatchFailure.of? {α : Type} (path : String) : Except AnalysisError α → Option BatchFailure
  | .error e => some (e.failure path)
  | .ok _ => none

open BatchEvent

theorem BatchRun.outcomes_of_unchanged {ν : Type} {outcome : Bool → String → FileOutcome ν}
    {events : List BatchEvent} {initial : Bool} (h : Unchanged initial events)
    (paths : List String) :
    outcomes outcome paths initial events = paths.map (outcome initial) := by
  simp only [outcomes, flagAtStart_of_unchanged h]
  calc paths.zipIdx.map (fun x => outcome initial x.1)
      = (paths.zipIdx.map Prod.fst).map (outcome initial) := List.map_map.symm
    _ = paths.map (outcome initial) := by rw [List.zipIdx_map_fst]

namespace Analyzer

variable {ν : Type} [Scale ν] {a : Analyzer} {load : Loader} {revision : Revision} {now : Timestamp}
  {paths : List String}

/-- The order in which the workers come to the paths does not show in the report, as long as the
flag stays what it was. -/
theorem analyzeBatchDuring_unchanged {events : List BatchEvent}
    (h : IsSchedule paths.length events) (hstore : Unchanged a.cancelled events) :
    (a.analyzeBatchDuring load revision now events paths : BatchReport ν) =
      .ofOutcomes (paths.map (a.outcome load revision now a.cancelled)) := by
  rw [analyzeBatchDuring, BatchRun.report_run h, BatchRun.outcomes_of_unchanged hstore]

/-- The order in which the workers come to the paths does not show in the report. -/
theorem analyzeBatchDuring_undisturbed {events : List BatchEvent}
    (h : IsSchedule paths.length events) (hstore : Undisturbed events) :
    (a.analyzeBatchDuring load revision now events paths : BatchReport ν) =
      .ofOutcomes (paths.map (a.outcome load revision now a.cancelled)) :=
  analyzeBatchDuring_unchanged h hstore.unchanged

theorem analyzeBatch_eq :
    (a.analyzeBatch load revision now paths : BatchReport ν) =
      .ofOutcomes (paths.map (a.outcome load revision now a.cancelled)) :=
  analyzeBatchDuring_undisturbed (isSchedule_range _) (undisturbed_range _)

/-! ### Outcomes under one value of the flag -/

theorem skipped_outcomes (off : Bool) :
    (BatchReport.ofOutcomes (paths.map (a.outcome (ν := ν) load revision now off))).skipped =
      if off then paths else [] := by
  rw [BatchReport.skipped_ofOutcomes, List.filterMap_map]
  cases off with
  | true => exact List.filterMap_some
  | false => exact List.filterMap_eq_nil_iff.mpr fun p _ => skipped?_outcome ..

theorem results_outcomes (off : Bool) :
    (BatchReport.ofOutcomes (paths.map (a.outcome (ν := ν) load revision now off))).results =
      if off then []
      else paths.filterMap fun p => (a.analyzeFile load revision now p).toOption := by
  rw [BatchReport.results_ofOutcomes, List.filterMap_map]
  cases off with
  | true => exact List.filterMap_eq_nil_iff.mpr fun p _ => done?_outcome ..
  | false => exact congrArg (paths.filterMap ·) (funext fun _ => done?_outcome ..)

theorem failures_outcomes (off : Bool) :
    (BatchReport.ofOutcomes (paths.map (a.outcome (ν := ν) load revision now off))).failures =
      if off then []
      else paths.filterMap fun p =>
        BatchFailure.of? p
          (a.analyzeFile load revision now p : Except AnalysisError (FileMetadata ν)) := by
  rw [BatchReport.failures_ofOutcomes, List.filterMap_map]
  cases off with
  | true => exact List.filterMap_eq_nil_iff.mpr fun p _ => failed?_outcome ..
  | false =>
    refine congrArg (paths.filterMap ·) (funext fun p => ?_)
    rw [Function.comp_apply, failed?_outcome]
    cases (a.analyzeFile load revision now p : Except AnalysisError (FileMetadata ν)) <;> rfl

theorem results_analyzeBatch (h : a.cancelled = false) :
    (a.analyzeBatch load revision now paths : BatchReport ν).results =
      paths.filterMap fun p => (a.analyzeFile load revision now p).toOption := by
  rw [analyzeBatch_eq, results_outcomes, h]
  rfl

theorem failures_analyzeBatch (h : a.cancelled = false) :
    (a.analyzeBatch load revision now paths : BatchReport ν).failures =
      paths.filterMap fun p =>
        BatchFailure.of? p
          (a.analyzeFile load revision now p : Except AnalysisError (FileMetadata ν)) := by
  rw [analyzeBatch_eq, failures_outcomes, h]
  rfl

/-- A batch has no failures only if all its paths can be analyzed. -/
theorem failures_analyzeBatch_eq_nil_iff (h : a.cancelled = false) :
    (a.analyzeBatch load revision now paths : BatchReport ν).failures = [] ↔
      ¬ ∃ p ∈ paths, ∃ e,
        (a.analyzeFile load revision now p : Except AnalysisError (FileMetadata ν)) = .error e := by
  rw [failures_analyzeBatch h, List.filterMap_eq_nil_iff]
  constructor
  · rintro hnone ⟨p, hp, e, he⟩
    have hfailure := hnone p hp
    rw [he] at hfailure
    cases hfailure
  · intro hall p hp
    cases hfile : (a.analyzeFile load revision now p : Except AnalysisError (FileMetadata ν)) with
    | ok m => rfl
    | error e => exact absurd ⟨p, hp, e, hfile⟩ hall

end Analyzer

end CodeRisk
