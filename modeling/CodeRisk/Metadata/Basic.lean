import CodeRisk.Metadata.StringSet
import CodeRisk.Metadata.Timestamp

/-!
# Analysis results

The records in which the analyses put down what they found. Scores are numbers of a scale `ν`;
counters are words that wrap around.
-/
namespace CodeRisk

/-- The complexity of one method. -/
structure MethodComplexity where
  name : String
  cyclomatic : UInt32
  cognitive : UInt32
  lineCount : Nat
  deriving DecidableEq, Repr

/-- The complexity of a file. -/
structure CodeComplexity (ν : Type) where
  /-- The branches of the whole file and one more. -/
  cyclomatic : UInt32
  /-- The sum over the methods. -/
  cognitive : UInt32
  totalMethods : UInt32
  /-- The mean number of lines of a method, 0 if there is none. -/
  averageMethodLength : ν
  maxNestingDepth : UInt32
  /-- The methods over a threshold, in the order of their declarations. -/
  complexMethods : List MethodComplexity

/-- Signs that a file matters to the business. -/
structure BusinessComplexity (ν : Type) where
  /-- A score from 0 to 10. -/
  criticality : ν
  hasBusinessAnnotations : Bool
  businessMethodCount : UInt32
  validationComplexity : UInt32
  transactionHandling : Bool
  exceptionHandling : Bool
  businessMethods : List String

/-- How a file is tied to other code by its imports. -/
structure DependencyImpact (ν : Type) where
  outgoing : StringSet
  /-- Empty: one file does not show who depends on it. -/
  incoming : StringSet
  fanOut : UInt32
  fanIn : UInt32
  /-- The share of outgoing ties, 0 if there are none at all. -/
  instability : ν

/-- How urgent a recommendation is. -/
inductive Priority where
  | high
  | medium
  | review
  /-- There is nothing to mend. -/
  | ok
  deriving DecidableEq, Repr

/-- The words before a recommendation of this priority. -/
def Priority.heading? : Priority → Option String
  | high => some "HIGH PRIORITY"
  | medium => some "MEDIUM PRIORITY"
  | review => some "REVIEW"
  | ok => none

/-- What to do about a file. -/
structure Recommendation where
  priority : Priority
  message : String
  deriving DecidableEq, Repr

/-- A recommendation as it is shown. -/
def Recommendation.shown (r : Recommendation) : String :=
  match r.priority.heading? with
  | some heading => heading ++ ": " ++ r.message
  | none => r.message

/-- All that the analyses derive from one file. -/
structure FileMetadata (ν : Type) where
  repositoryUrl : String
  branch : String
  filePath : String
  className : String
  packageName : String
  lineCount : Nat
  code : CodeComplexity ν
  business : BusinessComplexity ν
  dependencies : DependencyImpact ν
  riskScore : ν
  recommendations : List Recommendation
  analyzedAt : Timestamp

end CodeRisk
