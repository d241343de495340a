import CodeRisk.Analyzer

/-!
# Schedules of a batch

A batch is a list of events: the starts of its positions, in whatever order the workers come to
them, and the values that are stored into the flag meanwhile. A schedule starts every position
exactly once. The flag at the start of a position is a fact about the events alone, the value of
the last store before it. A run over a schedule leaves in each slot the outcome of its path under
that flag, so the report is the list of these outcomes sorted into three, each in the order of the
paths.
-/
namespace CodeRisk

namespace BatchEvent

/-- The position that an event starts. -/
def started? : BatchEvent → Option Nat
  | start i => some i
  | store _ => none

/-- The value that an event stores into the flag. -/
def stored? : BatchEvent → Option Bool
  | start _ => none
  | store value => some value

@[simp] theorem started?_start (i : Nat) : (start i).started? = some i := rfl
@[simp] theorem started?_store (value : Bool) : (store value).started? = none := rfl
@[simp] theorem stored?_start (i : Nat) : (start i).stored? = none := rfl
@[simp] theorem stored?_store (value : Bool) : (store value).stored? = some value := rfl

/-- The positions that are started, in the order of their starts. -/
def starts (events : List BatchEvent) : List Nat :=
  events.filterMap started?

/-- Every position below `n` is started exactly once, and no other is. -/
def IsSchedule (n : Nat) (events : List BatchEvent) : Prop :=
  (starts events).Perm (List.range n)

instance (n : Nat) (events : List BatchEvent) : Decidable (IsSchedule n events) :=
  inferInstanceAs (Decidable (List.Perm _ _))

/-- The value of the flag when a position is started: that of the last store before the start, or
the value at the beginning if nothing was stored before. -/
def flagAtStart (initial : Bool) (events : List BatchEvent) (i : Nat) : Bool :=
  ((events.takeWhile (· ≠ start i)).filterMap stored?).getLast?.getD initial

variable {initial : Bool} {events : List BatchEvent} {i j n : Nat}

theorem mem_starts : i ∈ starts events ↔ start i ∈ events := by
  unfold starts
  rw [List.mem_filterMap]
  constructor
  · rintro ⟨e, he, hi⟩
    cases e with
    | start j =>
      rw [started?_start, Option.some.injEq] at hi
      exact hi ▸ he
    | store value => exact absurd hi (by simp)
  · intro h
    exact ⟨start i, h, rfl⟩

theorem IsSchedule.nodup (h : IsSchedule n events) : (starts events).Nodup :=
  h.nodup_iff.mpr List.nodup_range

theorem IsSchedule.start_mem (h : IsSchedule n events) (hi : i < n) : start i ∈ events :=
  mem_starts.mp (h.mem_iff.mpr (List.mem_range.mpr hi))

@[simp] theorem flagAtStart_self : flagAtStart initial (start i :: events) i = initial := by
  simp [flagAtStart]

theorem flagAtStart_start (h : j ≠ i) :
    flagAtStart initial (start j :: events) i = flagAtStart initial events i := by
  simp [flagAtStart, h]

@[simp] theorem flagAtStart_store {value : Bool} :
    flagAtStart initial (store value :: events) i = flagAtStart value events i := by
  simp [flagAtStart, List.getLast?_cons]

end BatchEvent

/-! ## Runs -/

namespace BatchRun

open BatchEvent

variable {ν : Type} {outcome : Bool → String → FileOutcome ν} {paths : Array String}
  {r : BatchRun ν} {events : List BatchEvent} {i j : Nat} {p : String}

@[simp] theorem step_store (value : Bool) :
    r.step outcome paths (.store value) = { r with cancelled := value } := rfl

/-- The start of a position outside the list changes nothing. -/
theorem step_start_of_none (h : paths[j]? = none) : r.step outcome paths (.start j) = r := by
  simp only [step, h]

/-- The start of a position fills its slot, whatever stood there. -/
theorem step_start_of_some (h : paths[j]? = some p) :
    r.step outcome paths (.start j) =
      { r with slots := r.slots.setIfInBounds j (some (outcome r.cancelled p)) } := by
  simp only [step, h]

@[simp] theorem cancelled_start : (r.step outcome paths (.start j)).cancelled = r.cancelled := by
  cases h : paths[j]? with
  | none => rw [step_start_of_none h]
  | some q => rw [step_start_of_some h]

@[simp] theorem size_step (e : BatchEvent) :
    (r.step outcome paths e).slots.size = r.slots.size := by
  cases e with
  | store value => rfl
  | start j =>
    cases h : paths[j]? with
    | none => rw [step_start_of_none h]
    | some q => rw [step_start_of_some h, Array.size_setIfInBounds]

theorem slot_start (hp : paths[i]? = some p) (hi : i < r.slots.size) :
    (r.step outcome paths (.start i)).slots[i]? = some (some (outcome r.cancelled p)) := by
  rw [step_start_of_some hp]
  exact Array.getElem?_setIfInBounds_self_of_lt hi

/-- The start of a position leaves all other slots alone. -/
theorem slot_start_of_ne (h : j ≠ i) :
    (r.step outcome paths (.start j)).slots[i]? = r.slots[i]? := by
  cases hj : paths[j]? with
  | none => rw [step_start_of_none hj]
  | some q =>
    rw [step_start_of_some hj]
    exact Array.getElem?_setIfInBounds_ne h

/-- A slot whose position is not started stays as it is. -/
theorem slot_foldl_of_not_mem (h : start i ∉ events) :
    (events.foldl (step outcome paths) r).slots[i]? = r.slots[i]? := by
  induction events generalizing r with
  | nil => rfl
  | cons e es ih =>
    obtain ⟨he, hes⟩ := not_or.mp (fun h' => h (List.mem_cons.mpr h'))
    rw [List.foldl_cons, ih hes]
    cases e with
    | store value => rfl
    | start j => exact slot_start_of_ne fun hj => he (congrArg start hj.symm)

/-- **The run invariant.** From any state on, a position that is started once gets the outcome of
its path under the flag at its start. -/
theorem slot_foldl (hs : (starts events).Nodup) (hi : start i ∈ events) (hp : paths[i]? = some p)
    (hr : i < r.slots.size) :
    (events.foldl (step outcome paths) r).slots[i]? =
      some (some (outcome (flagAtStart r.cancelled events i) p)) := by
  induction events generalizing r with
  | nil => exact absurd hi List.not_mem_nil
  | cons e es ih =>
    rw [List.foldl_cons]
    cases e with
    | store value =>
      have hi' : start i ∈ es := by simpa using hi
      rw [step_store, flagAtStart_store]
      exact ih hs hi' hr
    | start j =>
      obtain ⟨hj, hes⟩ := List.nodup_cons.mp hs
      by_cases hji : j = i
      · subst hji
        -- the position is not started again, so what its start wrote remains
        rw [slot_foldl_of_not_mem fun h => hj (mem_starts.mpr h), slot_start hp hr,
          flagAtStart_self]
      · have hi' : start i ∈ es := by
          rcases List.mem_cons.mp hi with h | h
          · exact absurd (BatchEvent.start.inj h).symm hji
          · exact h
        rw [ih hes hi' (by rwa [size_step]), cancelled_start, flagAtStart_start hji]

/-- What becomes of the paths under a schedule, in the order of the paths. -/
def outcomes (outcome : Bool → String → FileOutcome ν) (paths : List String) (initial : Bool)
    (events : List BatchEvent) : List (FileOutcome ν) :=
  paths.zipIdx.map fun (p, i) => outcome (flagAtStart initial events i) p

@[simp] theorem length_outcomes {paths : List String} {initial : Bool} :
    (outcomes outcome paths initial events).length = paths.length := by
  simp [outcomes]

theorem size_foldl :
    (events.foldl (step outcome paths) r).slots.size = r.slots.size := by
  induction events generalizing r with
  | nil => rfl
  | cons e es ih => rw [List.foldl_cons, ih, size_step]

/-- After a schedule every slot holds the outcome of its path under the flag at its start. -/
theorem slot_run {paths : List String} {initial : Bool} (h : IsSchedule paths.length events)
    (i : Nat) :
    (run outcome paths.toArray initial events).slots[i]? =
      paths[i]?.map fun p => some (outcome (flagAtStart initial events i) p) := by
  rw [run]
  rcases Nat.lt_or_ge i paths.length with hi | hi
  · have hp : paths.toArray[i]? = some paths[i] := by simp [hi]
    rw [slot_foldl h.nodup (h.start_mem hi) hp (by simpa using hi), List.getElem?_eq_getElem hi]
    rfl
  · rw [Array.getElem?_eq_none (by rw [size_foldl]; simpa using hi), List.getElem?_eq_none hi]
    rfl

theorem slots_run {paths : List String} {initial : Bool} (h : IsSchedule paths.length events) :
    (run outcome paths.toArray initial events).slots.toList =
      (outcomes outcome paths initial events).map some := by
  apply List.ext_getElem?
  intro i
  rw [Array.getElem?_toList, slot_run h i, List.getElem?_map, outcomes, List.getElem?_map,
    List.getElem?_zipIdx, Nat.zero_add]
  cases paths[i]? with
  | none => rfl
  | some p => rfl

theorem report_run {paths : List String} {initial : Bool} (h : IsSchedule paths.length events) :
    (run outcome paths.toArray initial events).report =
      .ofOutcomes (outcomes outcome paths initial events) := by
  rw [report, slots_run h, List.filterMap_map]
  exact congrArg BatchReport.ofOutcomes (List.filterMap_some)

end BatchRun

/-! ## Reports -/

namespace FileOutcome

variable {ν : Type}

/-- The record of a file that was analyzed. -/
def done? : FileOutcome ν → Option (FileMetadata ν)
  | done m => some m
  | _ => none

/-- The failure of a file that could not be analyzed. -/
def failed? : FileOutcome ν → Option BatchFailure
  | failed f => some f
  | _ => none

/-- The path of a file that was skipped. -/
def skipped? : FileOutcome ν → Option String
  | skipped p => some p
  | _ => none

end FileOutcome

namespace BatchReport

variable {ν : Type}

theorem results_ofOutcomes (os : List (FileOutcome ν)) :
    (ofOutcomes os).results = os.filterMap FileOutcome.done? := by
  induction os with
  | nil => rfl
  | cons o os ih =>
    change (cons o (ofOutcomes os)).results = _
    cases o <;> simp [cons, List.filterMap_cons, FileOutcome.done?, ih]

theorem failures_ofOutcomes (os : List (FileOutcome ν)) :
    (ofOutcomes os).failures = os.filterMap FileOutcome.failed? := by
  induction os with
  | nil => rfl
  | cons o os ih =>
    change (cons o (ofOutcomes os)).failures = _
    cases o <;> simp [cons, List.filterMap_cons, FileOutcome.failed?, ih]

theorem skipped_ofOutcomes (os : List (FileOutcome ν)) :
    (ofOutcomes os).skipped = os.filterMap FileOutcome.skipped? := by
  induction os with
  | nil => rfl
  | cons o os ih =>
    change (cons o (ofOutcomes os)).skipped = _
    cases o <;> simp [cons, List.filterMap_cons, FileOutcome.skipped?, ih]

/-- Every outcome stands in exactly one of the three lists. -/
theorem attempted_add_skipped (os : List (FileOutcome ν)) :
    (ofOutcomes os).attempted + (ofOutcomes os).skipped.length = os.length := by
  induction os with
  | nil => rfl
  | cons o os ih =>
    change (cons o (ofOutcomes os)).attempted + (cons o (ofOutcomes os)).skipped.length = _
    rw [List.length_cons, ← ih]
    cases o <;> simp only [cons, attempted, List.length_cons] <;> omega

end BatchReport

/-! ## Batches of an analyzer -/

namespace Analyzer

open BatchEvent

variable {ν : Type} [Scale ν] (a : Analyzer) (load : Loader) (revision : Revision)
  (now later : Timestamp) (off : Bool) (p : String)

theorem analyzeUnit_at (u : SourceUnit) :
    (a.analyzeUnit revision now p u : Except AnalysisError (FileMetadata ν)) =
      (a.analyzeUnit revision later p u).map fun m => { m with analyzedAt := now } := by
  unfold analyzeUnit
  cases u.primaryType? with
  | none => rfl
  | some t => rfl

/-- Another time of the analysis shows in the timestamp only. -/
theorem analyzeFile_at :
    (a.analyzeFile load revision now p : Except AnalysisError (FileMetadata ν)) =
      (a.analyzeFile load revision later p).map fun m => { m with analyzedAt := now } := by
  unfold analyzeFile
  cases load p with
  | error e => rfl
  | ok u => exact a.analyzeUnit_at revision now later p u

/-- What becomes of a path depends on what is loaded for this path alone. -/
theorem outcome_congr {load load' : Loader} (h : load' p = load p) :
    (a.outcome load' revision now off p : FileOutcome ν) = a.outcome load revision now off p := by
  unfold outcome analyzeFile
  rw [h]

theorem done?_outcome :
    (a.outcome load revision now off p : FileOutcome ν).done? =
      if off then none else (a.analyzeFile load revision now p).toOption := by
  unfold outcome
  cases off with
  | true => rfl
  | false => cases a.analyzeFile (ν := ν) load revision now p <;> rfl

theorem failed?_outcome :
    (a.outcome load revision now off p : FileOutcome ν).failed? =
      if off then none
      else match (a.analyzeFile load revision now p : Except AnalysisError (FileMetadata ν)) with
        | .error e => some (e.failure p)
        | .ok _ => none := by
  unfold outcome
  cases off with
  | true => rfl
  | false => cases a.analyzeFile (ν := ν) load revision now p <;> rfl

theorem skipped?_outcome :
    (a.outcome load revision now off p : FileOutcome ν).skipped? =
      if off then some p else none := by
  unfold outcome
  cases off with
  | true => rfl
  | false => cases a.analyzeFile (ν := ν) load revision now p <;> rfl

/-- The report on a schedule sorts the outcomes of the paths. -/
theorem analyzeBatchDuring_eq (workers : Option Nat) {events : List BatchEvent}
    {paths : List String} (h : IsSchedule paths.length events) :
    ((a.withJobs workers).analyzeBatchDuring load revision now events paths : BatchReport ν) =
      .ofOutcomes (BatchRun.outcomes (a.outcome load revision now) paths a.cancelled events) :=
  BatchRun.report_run h

/-- **A batch accounts for every position exactly once**, under every schedule and with any number
of workers. A position whose start finds the flag set is skipped. Any other one is among the
results, with the record that an analysis of its path at any other time gives, timestamp aside, or
among the failures, with the error of that analysis. All three lists are in the order of the
paths. What becomes of a position stays the same when other paths or what is loaded for them are
replaced. -/
theorem analyzeBatchDuring_accounts (workers : Option Nat) (events : List BatchEvent)
    (paths : List String) (h : IsSchedule paths.length events) :
    let report : BatchReport ν :=
      (a.withJobs workers).analyzeBatchDuring load revision now events paths
    let off := flagAtStart a.cancelled events
    let attempt : String → Except AnalysisError (FileMetadata ν) :=
      a.analyzeFile load revision later
    let slots (load : Loader) (paths : List String) : Array (Option (FileOutcome ν)) :=
      (BatchRun.run (a.outcome load revision now) paths.toArray a.cancelled events).slots
    report.skipped = paths.zipIdx.filterMap (fun (p, i) => if off i then some p else none) ∧
    report.results =
      paths.zipIdx.filterMap (fun (p, i) =>
        if off i then none
        else (attempt p).toOption.map fun m => { m with analyzedAt := now }) ∧
    report.failures =
      paths.zipIdx.filterMap (fun (p, i) =>
        if off i then none
        else match attempt p with
          | .error e => some ⟨p, e.kind, e.message⟩
          | .ok _ => none) ∧
    report.attempted + report.skipped.length = paths.length ∧
    ∀ (load' : Loader) (paths' : List String) (i : Nat), paths'.length = paths.length →
      paths'[i]? = paths[i]? → (∀ p ∈ paths[i]?, load' p = load p) →
      (slots load' paths')[i]? = (slots load paths)[i]? := by
  intro report off attempt slots
  have hreport : report = .ofOutcomes _ := a.analyzeBatchDuring_eq load revision now workers h
  have hat (p : String) :
      a.analyzeFile load revision now p = (attempt p).map fun m => { m with analyzedAt := now } :=
    a.analyzeFile_at load revision now later p
  refine ⟨?_, ?_, ?_, ?_, ?_⟩
  · rw [hreport, BatchReport.skipped_ofOutcomes, BatchRun.outcomes, List.filterMap_map]
    exact congrArg (paths.zipIdx.filterMap ·) (funext fun _ => skipped?_outcome ..)
  · rw [hreport, BatchReport.results_ofOutcomes, BatchRun.outcomes, List.filterMap_map]
    refine congrArg (paths.zipIdx.filterMap ·) (funext fun (p, i) => ?_)
    simp only [Function.comp_apply, done?_outcome, hat]
    cases attempt p <;> rfl
  · rw [hreport, BatchReport.failures_ofOutcomes, BatchRun.outcomes, List.filterMap_map]
    refine congrArg (paths.zipIdx.filterMap ·) (funext fun (p, i) => ?_)
    simp only [Function.comp_apply, failed?_outcome, hat]
    cases attempt p <;> rfl
  · rw [hreport, BatchReport.attempted_add_skipped, BatchRun.length_outcomes]
  · intro load' paths' i hlength hpath hload
    rw [BatchRun.slot_run (hlength ▸ h), BatchRun.slot_run h, hpath]
    refine Option.map_congr fun p hp => ?_
    rw [outcome_congr a revision now _ p (hload p hp)]

/-- One path cannot be loaded, one has a unit with no type in it, all others have a unit with one
class. -/
def sampleLoader : Loader := fun path =>
  if path = "Gone.java" then .error (.unreadableSource path "file not found")
  else .ok {
    package := none
    types := if path = "package-info.java" then [] else [⟨path, .ofClass, [], ⟨1, 1⟩⟩]
    methods := []
    otherCode := []
    imports := []
    lineCount := 1 }

/-- Seven positions that are started out of order, two of them while the flag is set. -/
def sampleEvents : List BatchEvent :=
  [.start 3, .start 0, .store true, .start 6, .start 2, .store false, .start 5, .start 1, .start 4]

def samplePaths : List String :=
  ["A.java", "Gone.java", "B.java", "A.java", "package-info.java", "A.java", "A.java"]

theorem analyzeBatchDuring_accounts_sample :
    IsSchedule samplePaths.length sampleEvents ∧
    let report : BatchReport Float :=
      withJobs {} (some 2) |>.analyzeBatchDuring sampleLoader ⟨"", "main"⟩ ⟨0, 0, 0⟩ sampleEvents
        samplePaths
    report.skipped = ["B.java", "A.java"] ∧
    report.results.map FileMetadata.className = ["A.java", "A.java", "A.java"] ∧
    report.failures = [
      ⟨"Gone.java", "unreadable_source", "cannot read source 'Gone.java': file not found"⟩,
      ⟨"package-info.java", "no_primary_type",
        "no class or interface declaration found in 'package-info.java'"⟩] ∧
    report.attempted + report.skipped.length = 7 := by
  have hschedule : IsSchedule samplePaths.length sampleEvents := by decide
  obtain ⟨hskipped, hresults, hfailures, hlength, -⟩ :=
    analyzeBatchDuring_accounts (ν := Float) {} sampleLoader ⟨"", "main"⟩ ⟨0, 0, 0⟩ ⟨1, 0, 0⟩
      (some 2) sampleEvents samplePaths hschedule
  refine ⟨hschedule, hskipped.trans (by decide), ?_, hfailures.trans (by decide), hlength⟩
  rw [hresults]
  rfl

end Analyzer

end CodeRisk
