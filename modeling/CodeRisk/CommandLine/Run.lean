import CodeRisk.Analyzer
import CodeRisk.CommandLine.Arguments
import CodeRisk.File.Discovery
import CodeRisk.Json.Printer
import CodeRisk.Metadata.Record
import CodeRisk.Report
import CodeRisk.Toon

/-!
# A run of the program

A run is a function of the words of the command line, the environment, the disk and the time. Only
settings that cannot be loaded, and words that cannot be read, end it without output. Files that fail
show in the output, and in the status, which then is 1.
-/
namespace CodeRisk.CommandLine

/-- What a run leaves behind. -/
structure Outcome where
  status : Nat
  output : String
  errors : String
  deriving DecidableEq, Repr

/-- The settings of a run: those of the file under those of the command line. -/
def settings (disk : Disk) (args : Arguments) : Except AnalysisError Config := do
  let fromFile ← match args.config with
    | none => pure {}
    | some path => (disk.loadConfig path).mapError ConfigFault.error
  return fromFile.withOverrides args.jobs args.maxDepth

/-- The batch of a run. -/
def batch (disk : Disk) (now : Timestamp) (args : Arguments) (c : Config) : BatchReport Float :=
  (Analyzer.ofConfig c).analyzeBatch disk.loadUnit ⟨args.repositoryUrl, args.branch⟩ now
    (disk.expand c.maxDepth args.paths)

/-- A batch in a format. -/
def Format.render (b : BatchReport Float) : Format → String
  | text => Report.ofBatch b
  | json => (Json.array (b.results.map FileMetadata.toJson)).pretty
  | toon => Toon.ofBatch b

/-- Status of a run in which some files failed. -/
def someFailed : Nat := 1

/-- Status of a run whose words cannot be read. -/
def badUsage : Nat := 2

/-- Analyzes what the arguments say. -/
def analyze (disk : Disk) (now : Timestamp) (args : Arguments) : Outcome :=
  match settings disk args with
  | .error e => ⟨e.exitStatus, "", s!"Error: {e.message}\n"⟩
  | .ok c =>
    let b := batch disk now args c
    ⟨if b.failures.isEmpty then 0 else someFailed, args.format.render b ++ "\n", ""⟩

/-- The name and version of the program. -/
def versionText : String := "riskmeta 0.3.0\n"

/-- How the program is used. -/
def helpText : String :=
  "Computes complexity, business-criticality and risk metadata for Java sources

Usage: riskmeta [OPTIONS] <PATHS>...

Arguments:
  <PATHS>...  Files or directories to analyze (directories are searched for .java files)

Options:
      --repo-url <REPO_URL>    Repository URL recorded in every result [env: RISKMETA_REPO_URL=]
      --branch <BRANCH>        Branch name recorded in every result [env: RISKMETA_BRANCH=]
  -f, --format <FORMAT>        Output format [default: text] [possible values: text, json, toon]
  -c, --config <FILE>          TOML configuration file
  -j, --jobs <JOBS>            Number of worker threads for batch analysis
      --max-depth <MAX_DEPTH>  Maximum directory recursion depth
  -v, --verbose...             Increase log verbosity (-v info, -vv debug, -vvv trace)
  -h, --help                   Print help
  -V, --version                Print version
"

/-- What is done when the words do not ask for an analysis. -/
def Stop.outcome : Stop → Outcome
  | help => ⟨0, helpText, ""⟩
  | version => ⟨0, versionText, ""⟩
  | fault f => ⟨badUsage, "", s!"error: {f.message}\n\nFor more information, try '--help'.\n"⟩

/-- A whole run. -/
def run (disk : Disk) (env : Environment) (now : Timestamp) (words : List String) : Outcome :=
  match arguments env words with
  | .error stop => stop.outcome
  | .ok args => analyze disk now args

end CodeRisk.CommandLine
