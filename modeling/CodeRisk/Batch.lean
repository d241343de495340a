import CodeRisk.Error
import CodeRisk.Metadata.Basic

/-!
# Batches

What became of the files of a batch: each is analyzed, has failed, or was skipped because the batch
had been called off before its turn. All three lists keep the order of the input.
-/
namespace CodeRisk

/-- A file that could not be analyzed. -/
structure BatchFailure where
  path : String
  /-- The label of the kind of error. -/
  kind : String
  reason : String
  deriving DecidableEq, Repr

/-- The failure that an error of one file is. -/
def AnalysisError.failure (path : String) (e : AnalysisError) : BatchFailure :=
  ⟨path, e.kind, e.message⟩

/-- What became of one file. -/
inductive FileOutcome (ν : Type) where
  | done (metadata : FileMetadata ν)
  | failed (failure : BatchFailure)
  | skipped (path : String)

/-- What became of all files of a batch. -/
structure BatchReport (ν : Type) where
  results : List (FileMetadata ν) := []
  failures : List BatchFailure := []
  skipped : List String := []

namespace BatchReport

variable {ν : Type}

/-- The number of files that were started. -/
def attempted (b : BatchReport ν) : Nat :=
  b.results.length + b.failures.length

/-- The report with one more outcome before all others. -/
def cons (o : FileOutcome ν) (b : BatchReport ν) : BatchReport ν :=
  match o with
  | .done m => { b with results := m :: b.results }
  | .failed f => { b with failures := f :: b.failures }
  | .skipped p => { b with skipped := p :: b.skipped }

/-- The report of a list of outcomes. -/
def ofOutcomes (outcomes : List (FileOutcome ν)) : BatchReport ν :=
  outcomes.foldr cons {}

end BatchReport

end CodeRisk
