import CodeRisk.Batch
import CodeRisk.Config.Basic
import CodeRisk.Dependency
import CodeRisk.File.Loader
import CodeRisk.Risk
import CodeRisk.Complexity

/-!
# The analyzer

An analyzer joins the analyses of one unit into one record, and takes whole batches of paths. Between
uses it holds what it was configured with and a flag with which batches are called off.

The workers of a batch start its positions in some order, and meanwhile the flag may be set and reset.
All of this is a list of events: a position is started, or a value is stored into the flag. What
becomes of a position depends on its path and on the flag at its start alone; the report lists the
positions in the order of the paths, whatever the order of the events.
-/
namespace CodeRisk

/-- Which state of which repository is analyzed. -/
structure Revision where
  repositoryUrl : String
  branch : String
  deriving DecidableEq, Repr

/-- What an analyzer holds. -/
structure Analyzer where
  inspector : DependencyInspector := {}
  /-- The number of workers of a batch; one for each processor if it is not given. -/
  jobs : Option Nat := none
  /-- Whether batches start no more files. -/
  cancelled : Bool := false
  deriving DecidableEq, Repr

namespace Analyzer

/-- The analyzer with the prefixes and jobs of a configuration in place of its own. -/
def withConfig (a : Analyzer) (c : Config) : Analyzer :=
  { a with inspector := ({} : DependencyInspector).withExtraPrefixes c.extraPlatformPrefixes
           jobs := c.jobs }

/-- The analyzer of a configuration. -/
def ofConfig (c : Config) : Analyzer :=
  ({} : Analyzer).withConfig c

/-- The analyzer with another number of workers; none at all counts as not given. -/
def withJobs (a : Analyzer) (jobs : Option Nat) : Analyzer :=
  { a with jobs := jobs.filter (0 < ·) }

/-- The analyzer after a value was stored into its flag. -/
def store (a : Analyzer) (value : Bool) : Analyzer :=
  { a with cancelled := value }

/-- The analyzer with its batches called off. -/
def cancel (a : Analyzer) : Analyzer :=
  a.store true

variable {ν : Type} [Scale ν]

/-- All results of a unit. -/
def analyzeUnit (a : Analyzer) (revision : Revision) (now : Timestamp) (path : String)
    (u : SourceUnit) : Except AnalysisError (FileMetadata ν) :=
  match u.primaryType? with
  | none => .error (.noPrimaryType path)
  | some primary =>
    let code := u.complexity
    let business := u.business
    let dependencies := a.inspector.inspect u.imports
    let assessment := assess code business dependencies u.lineCount
    .ok {
      repositoryUrl := revision.repositoryUrl
      branch := revision.branch
      filePath := path
      className := primary.name
      packageName := u.packageName
      lineCount := u.lineCount
      code
      business
      dependencies
      riskScore := assessment.score
      recommendations := assessment.recommendations
      analyzedAt := now }

/-- All results of the unit that is loaded for a path. -/
def analyzeFile (a : Analyzer) (load : Loader) (revision : Revision) (now : Timestamp)
    (path : String) : Except AnalysisError (FileMetadata ν) := do
  a.analyzeUnit revision now path (← load path)

/-- What becomes of a path if the flag has this value when its turn comes. -/
def outcome (a : Analyzer) (load : Loader) (revision : Revision) (now : Timestamp)
    (cancelled : Bool) (path : String) : FileOutcome ν :=
  if cancelled then .skipped path
  else
    match a.analyzeFile load revision now path with
    | .ok m => .done m
    | .error e => .failed (e.failure path)

end Analyzer

/-! ## Batches as events -/

/-- What happens during a batch. -/
inductive BatchEvent where
  /-- A worker takes up the path at a position. -/
  | start (position : Nat)
  /-- A value is stored into the flag. -/
  | store (value : Bool)
  deriving DecidableEq, Repr

/-- How far a batch has come: the flag, and for each position what became of it. -/
structure BatchRun (ν : Type) where
  cancelled : Bool
  slots : Array (Option (FileOutcome ν))

namespace BatchRun

variable {ν : Type}

/-- The batch after one more event. -/
def step (outcome : Bool → String → FileOutcome ν) (paths : Array String) (r : BatchRun ν) :
    BatchEvent → BatchRun ν
  | .store value => { r with cancelled := value }
  | .start i =>
    match paths[i]? with
    | none => r
    | some path => { r with slots := r.slots.setIfInBounds i (some (outcome r.cancelled path)) }

/-- The batch after all events. -/
def run (outcome : Bool → String → FileOutcome ν) (paths : Array String) (cancelled : Bool)
    (events : List BatchEvent) : BatchRun ν :=
  events.foldl (step outcome paths) ⟨cancelled, Array.replicate paths.size none⟩

/-- The report on all positions that were started, in the order of the paths. -/
def report (r : BatchRun ν) : BatchReport ν :=
  .ofOutcomes (r.slots.toList.filterMap id)

end BatchRun

namespace Analyzer

variable {ν : Type} [Scale ν]

/-- Takes all paths of a batch as the events tell. -/
def analyzeBatchDuring (a : Analyzer) (load : Loader) (revision : Revision) (now : Timestamp)
    (events : List BatchEvent) (paths : List String) : BatchReport ν :=
  (BatchRun.run (a.outcome load revision now) paths.toArray a.cancelled events).report

/-- Takes all paths of a batch one after the other, while nobody touches the flag. -/
def analyzeBatch (a : Analyzer) (load : Loader) (revision : Revision) (now : Timestamp)
    (paths : List String) : BatchReport ν :=
  a.analyzeBatchDuring load revision now ((List.range paths.length).map .start) paths

/-- The results alone of all paths of a batch. -/
def analyzeMany (a : Analyzer) (load : Loader) (revision : Revision) (now : Timestamp)
    (paths : List String) : List (FileMetadata ν) :=
  (a.analyzeBatch load revision now paths).results

end Analyzer

end CodeRisk
