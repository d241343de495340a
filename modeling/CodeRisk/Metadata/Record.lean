import CodeRisk.Metadata.Basic
import CodeRisk.SourceUnit.Record

/-!
# Analysis results as records

The JSON form of analysis results, with scores in floating point.
-/
namespace CodeRisk
open Record (Schema Misfit)

/-! ## Writing -/

def MethodComplexity.toJson (m : MethodComplexity) : Json :=
  .object [("name", .string m.name), ("cyclomaticComplexity", .nat m.cyclomatic.toNat),
    ("cognitiveComplexity", .nat m.cognitive.toNat), ("lineCount", .nat m.lineCount)]

def CodeComplexity.toJson (c : CodeComplexity Float) : Json :=
  .object [("cyclomaticComplexity", .nat c.cyclomatic.toNat),
    ("cognitiveComplexity", .nat c.cognitive.toNat),
    ("totalMethods", .nat c.totalMethods.toNat),
    ("averageMethodLength", .float c.averageMethodLength),
    ("maxNestingDepth", .nat c.maxNestingDepth.toNat),
    ("complexMethods", .array (c.complexMethods.map MethodComplexity.toJson))]

def BusinessComplexity.toJson (b : BusinessComplexity Float) : Json :=
  .object [("businessCriticality", .float b.criticality),
    ("hasBusinessAnnotations", .bool b.hasBusinessAnnotations),
    ("businessMethodCount", .nat b.businessMethodCount.toNat),
    ("validationComplexity", .nat b.validationComplexity.toNat),
    ("transactionHandling", .bool b.transactionHandling),
    ("exceptionHandling", .bool b.exceptionHandling),
    ("businessMethods", .strings b.businessMethods)]

def DependencyImpact.toJson (d : DependencyImpact Float) : Json :=
  .object [("outgoingDependencies", .strings d.outgoing.toList),
    ("incomingDependencies", .strings d.incoming.toList),
    ("fanOut", .nat d.fanOut.toNat), ("fanIn", .nat d.fanIn.toNat),
    ("instability", .float d.instability)]

/-- The name of a priority in records. -/
def Priority.word : Priority → String
  | high => "high"
  | medium => "medium"
  | review => "review"
  | ok => "ok"

def Recommendation.toJson (r : Recommendation) : Json :=
  .object [("priority", .string r.priority.word), ("message", .string r.message)]

/-- The record of a file's results. -/
def FileMetadata.toJson (m : FileMetadata Float) : Json :=
  .object [("repositoryUrl", .string m.repositoryUrl), ("branch", .string m.branch),
    ("filePath", .string m.filePath), ("className", .string m.className),
    ("packageName", .string m.packageName), ("lineCount", .nat m.lineCount),
    ("codeComplexity", m.code.toJson), ("businessComplexity", m.business.toJson),
    ("dependencyImpact", m.dependencies.toJson), ("riskScore", .float m.riskScore),
    ("recommendations", .array (m.recommendations.map Recommendation.toJson)),
    ("analyzedAt", .string (m.analyzedAt.render "Z"))]

/-! ## Schemas -/

namespace Record

def methodComplexity : Schema :=
  .fields "struct MethodComplexity"
    [("name", .text), ("cyclomaticComplexity", counter), ("cognitiveComplexity", counter),
     ("lineCount", size)]

def codeComplexity : Schema :=
  .fields "struct CodeComplexity"
    [("cyclomaticComplexity", counter), ("cognitiveComplexity", counter),
     ("totalMethods", counter), ("averageMethodLength", .real), ("maxNestingDepth", counter),
     ("complexMethods", .list methodComplexity)]

def businessComplexity : Schema :=
  .fields "struct BusinessComplexity"
    [("businessCriticality", .real), ("hasBusinessAnnotations", .bool),
     ("businessMethodCount", counter), ("validationComplexity", counter),
     ("transactionHandling", .bool), ("exceptionHandling", .bool),
     ("businessMethods", .list .text)]

def dependencyImpact : Schema :=
  .fields "struct DependencyImpact"
    [("outgoingDependencies", .list .text), ("incomingDependencies", .list .text),
     ("fanOut", counter), ("fanIn", counter), ("instability", .real)]

def recommendation : Schema :=
  .fields "struct Recommendation"
    [("priority", .choice ["high", "medium", "review", "ok"] [] []
       ["high", "medium", "review", "ok"]),
     ("message", .text)]

/-- A point in time as text. -/
def timestamp : Schema :=
  .read "an RFC 3339 formatted date and time string" fun s =>
    match Timestamp.parse s with
    | .ok _ => .ok ()
    | .error fault => .error fault.message

def fileMetadata : Schema :=
  .fields "struct FileMetadata"
    [("repositoryUrl", .text), ("branch", .text), ("filePath", .text), ("className", .text),
     ("packageName", .text), ("lineCount", size), ("codeComplexity", codeComplexity),
     ("businessComplexity", businessComplexity), ("dependencyImpact", dependencyImpact),
     ("riskScore", .real), ("recommendations", .list recommendation),
     ("analyzedAt", timestamp)]

end Record

/-! ## Reading canonical records -/

/-- The counter that a value is. -/
def Json.asCounter? (j : Json) : Option UInt32 :=
  j.asNat?.map UInt32.ofNat

def MethodComplexity.ofJson? : Json → Option MethodComplexity
  | .object [(_, .string name), (_, cyclomatic), (_, cognitive), (_, lines)] => do
    return ⟨name, ← cyclomatic.asCounter?, ← cognitive.asCounter?, ← lines.asNat?⟩
  | _ => none

def CodeComplexity.ofJson? : Json → Option (CodeComplexity Float)
  | .object [(_, cyclomatic), (_, cognitive), (_, methods), (_, .float average), (_, nesting),
      (_, complex)] => do
    return ⟨← cyclomatic.asCounter?, ← cognitive.asCounter?, ← methods.asCounter?, average,
      ← nesting.asCounter?, ← complex.asList? MethodComplexity.ofJson?⟩
  | _ => none

def BusinessComplexity.ofJson? : Json → Option (BusinessComplexity Float)
  | .object [(_, .float criticality), (_, .bool annotated), (_, methods), (_, validation),
      (_, .bool transactions), (_, .bool exceptions), (_, names)] => do
    return ⟨criticality, annotated, ← methods.asCounter?, ← validation.asCounter?, transactions,
      exceptions, ← names.asStrings?⟩
  | _ => none

def DependencyImpact.ofJson? : Json → Option (DependencyImpact Float)
  | .object [(_, outgoing), (_, incoming), (_, fanOut), (_, fanIn), (_, .float instability)] => do
    return ⟨.ofList (← outgoing.asStrings?), .ofList (← incoming.asStrings?),
      ← fanOut.asCounter?, ← fanIn.asCounter?, instability⟩
  | _ => none

def Priority.ofJson? : Json → Option Priority
  | .string "high" => some .high
  | .string "medium" => some .medium
  | .string "review" => some .review
  | .string "ok" => some .ok
  | _ => none

def Recommendation.ofJson? : Json → Option Recommendation
  | .object [(_, priority), (_, .string message)] => do
    return ⟨← Priority.ofJson? priority, message⟩
  | _ => none

/-- The results of a canonical record. -/
def FileMetadata.ofJson? : Json → Option (FileMetadata Float)
  | .object [(_, .string repository), (_, .string branch), (_, .string path),
      (_, .string className), (_, .string package), (_, lines), (_, code), (_, business),
      (_, dependencies), (_, .float risk), (_, recommendations), (_, .string time)] => do
    return ⟨repository, branch, path, className, package, ← lines.asNat?,
      ← CodeComplexity.ofJson? code, ← BusinessComplexity.ofJson? business,
      ← DependencyImpact.ofJson? dependencies, risk,
      ← recommendations.asList? Recommendation.ofJson?, ← (Timestamp.parse time).toOption⟩
  | _ => none

/-! ## Reading any record -/

def CodeComplexity.read (j : Json) : Except Misfit (CodeComplexity Float) :=
  Record.read Record.codeComplexity CodeComplexity.ofJson? j

def BusinessComplexity.read (j : Json) : Except Misfit (BusinessComplexity Float) :=
  Record.read Record.businessComplexity BusinessComplexity.ofJson? j

def DependencyImpact.read (j : Json) : Except Misfit (DependencyImpact Float) :=
  Record.read Record.dependencyImpact DependencyImpact.ofJson? j

/-- Reads a file's results from their record. -/
def FileMetadata.read (j : Json) : Except Misfit (FileMetadata Float) :=
  Record.read Record.fileMetadata FileMetadata.ofJson? j

end CodeRisk
