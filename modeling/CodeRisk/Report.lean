import CodeRisk.Batch
import CodeRisk.Decimal.Fixed
import CodeRisk.Risk

/-!
# Reports for people

The results of a file between rules, and the results of a batch one after the other with the failures
and a summary. Numbers stand at the right of six columns.
-/
namespace CodeRisk.Report

/-- Fifty-five times the character. -/
def ruleOf (c : Char) : String :=
  String.ofList (List.replicate 55 c) ++ "\n"

/-- The rule around the title. -/
def rule : String := ruleOf '═'

/-- The rule before a section. -/
def thinRule : String := ruleOf '─'

/-- A text at the right of six columns. -/
def right (s : String) : String :=
  String.ofList (List.replicate (6 - s.length) ' ') ++ s

/-- A count at the right of six columns. -/
def count (n : Nat) : String := right (toString n)

/-- A yes or no at the right of six columns. -/
def flag (b : Bool) : String := right (if b then "yes" else "no")

/-- The head of a report. -/
def heading (m : FileMetadata Float) : List String := [
  rule,
  s!"  {m.packageName}.{m.className}\n",
  rule,
  s!"File:              {m.filePath}\n",
  s!"Repository:        {m.repositoryUrl} ({m.branch})\n",
  s!"Lines:             {count m.lineCount}\n",
  s!"Risk score:        {right (Decimal.fixed 2 m.riskScore)}  [{riskLabel m.riskScore}]\n"]

/-- A method over the thresholds. -/
def complexMethod (m : MethodComplexity) : String :=
  s!"    ! {m.name} (cyclomatic {m.cyclomatic}, cognitive {m.cognitive}, {m.lineCount} lines)\n"

/-- The section on complexity. -/
def complexity (c : CodeComplexity Float) : List String := [
  "\n",
  thinRule,
  "Complexity\n",
  s!"  Cyclomatic:      {count c.cyclomatic.toNat}  [{(cyclomaticRating c.cyclomatic).label}]\n",
  s!"  Cognitive:       {count c.cognitive.toNat}  [{(cognitiveRating c.cognitive).label}]\n",
  s!"  Methods:         {count c.totalMethods.toNat}\n",
  s!"  Avg method len:  {right (Decimal.fixed 1 c.averageMethodLength)}\n",
  s!"  Max nesting:     {count c.maxNestingDepth.toNat}\n"] ++
  c.complexMethods.map complexMethod

/-- The section on signs of business code. -/
def business (b : BusinessComplexity Float) : List String := [
  "\n",
  thinRule,
  "Business\n",
  s!"  Criticality:     {right (Decimal.fixed 1 b.criticality)}\n",
  s!"  Business methods:{count b.businessMethodCount.toNat}\n",
  s!"  Annotated:       {flag b.hasBusinessAnnotations}\n",
  s!"  Validation:      {count b.validationComplexity.toNat}\n",
  s!"  Transactions:    {flag b.transactionHandling}\n",
  s!"  Exceptions:      {flag b.exceptionHandling}\n"] ++
  if b.businessMethods.isEmpty then []
  else ["  Methods:         " ++ ", ".intercalate b.businessMethods ++ "\n"]

/-- The section on dependencies. -/
def dependencies (d : DependencyImpact Float) : List String := [
  "\n",
  thinRule,
  s!"Dependencies       fan-out {d.fanOut}, instability {Decimal.fixed 2 d.instability}\n"] ++
  d.outgoing.toList.map (fun name => s!"  -> {name}\n") ++
  [s!"  Fan-in:          {count d.fanIn.toNat}  (requires project-wide analysis)\n"]

/-- The section on recommendations. -/
def advice (rs : List Recommendation) : List String :=
  ["\n", thinRule, "Recommendations\n"] ++ rs.map fun r => s!"  * {r.shown}\n"

/-- The report on one file. -/
def ofFile (m : FileMetadata Float) : String :=
  String.join (heading m ++ complexity m.code ++ business m.business ++
    dependencies m.dependencies ++ advice m.recommendations)

/-- The summary of a batch in one line. -/
def summary {ν : Type} (b : BatchReport ν) : String :=
  s!"{b.results.length} analyzed, {b.failures.length} failed" ++
    if b.skipped.isEmpty then "" else s!", {b.skipped.length} skipped"

/-- The list of files that failed. -/
def failures (fs : List BatchFailure) : String :=
  if fs.isEmpty then ""
  else thinRule ++ "Failed\n" ++
    String.join (fs.map fun f => s!"  {f.path} ({f.kind}): {f.reason}\n") ++ "\n"

/-- The report on a batch. -/
def ofBatch (b : BatchReport Float) : String :=
  String.join (b.results.map fun m => ofFile m ++ "\n") ++ failures b.failures ++
    summary b ++ "\n"

end CodeRisk.Report
