import CodeRisk.Business

/-!
# Risk scores, recommendations and ratings

The score is a sum, cut at 100: 0.3 for each point of cyclomatic and 0.2 for each point of cognitive
complexity, 0.1 or, for a long file, 0.2, a quarter of the criticality, and 0.05 or, with many
dependencies, 0.15.
-/
namespace CodeRisk

/-- Files with more lines are long. -/
def longFile : Nat := 500

/-- More dependencies are many. -/
def manyDependencies : UInt32 := 10

variable {ν : Type} [Scale ν]

/-- The highest risk score. -/
def maxRisk : ν := 100.0

/-- The risk score of a file. -/
def riskScore (code : CodeComplexity ν) (business : BusinessComplexity ν)
    (dependencies : DependencyImpact ν) (lineCount : Nat) : ν :=
  let size : ν := if longFile < lineCount then 0.2 else 0.1
  let complexity : ν :=
    Scale.ofNat code.cyclomatic.toNat * 0.3 + Scale.ofNat code.cognitive.toNat * 0.2 + size
  let criticality : ν := Scale.atMost maxCriticality business.criticality * 0.25
  let coupling : ν := if manyDependencies < dependencies.fanOut then 0.15 else 0.05
  Scale.atMost maxRisk (complexity + criticality + coupling)

/-! ## Recommendations -/

/-- A rule: when it holds, and what it recommends. -/
structure RiskRule (ν : Type) where
  holds : CodeComplexity ν → BusinessComplexity ν → Nat → Bool
  recommendation : Recommendation

/-- The rules in the order in which they are checked. -/
def riskRules : List (RiskRule ν) := [
  { holds := fun code _ _ => 20 < code.cyclomatic
    recommendation := ⟨.high, "Reduce cyclomatic complexity through method extraction"⟩ },
  { holds := fun code _ _ => 25 < code.cognitive
    recommendation := ⟨.high, "Simplify complex logic to improve readability"⟩ },
  { holds := fun _ _ lines => longFile < lines
    recommendation := ⟨.medium, "Consider breaking down large class into smaller components"⟩ },
  { holds := fun _ business _ =>
      business.hasBusinessAnnotations && business.businessMethodCount == 0
    recommendation := ⟨.review, "Business class with no business methods detected"⟩ },
  { holds := fun _ business _ =>
      !business.exceptionHandling && decide ((7.0 : ν) < business.criticality)
    recommendation := ⟨.high, "Add proper exception handling for business-critical class"⟩ },
  { holds := fun code _ _ => 4 < code.maxNestingDepth
    recommendation := ⟨.medium, "Reduce nesting depth through guard clauses"⟩ }]

/-- What is said of a file for which no rule holds. -/
def nothingToMend : Recommendation :=
  ⟨.ok, "Code quality looks good! Consider adding comprehensive unit tests."⟩

/-- The recommendations of all rules that hold, or that there is nothing to mend. -/
def recommendations (code : CodeComplexity ν) (business : BusinessComplexity ν)
    (lineCount : Nat) : List Recommendation :=
  match (riskRules.filter fun r => r.holds code business lineCount).map (·.recommendation) with
  | [] => [nothingToMend]
  | recs => recs

/-- A score with the recommendations from the same figures. -/
structure RiskAssessment (ν : Type) where
  score : ν
  recommendations : List Recommendation

/-- Assesses a file. -/
def assess (code : CodeComplexity ν) (business : BusinessComplexity ν)
    (dependencies : DependencyImpact ν) (lineCount : Nat) : RiskAssessment ν :=
  ⟨riskScore code business dependencies lineCount, recommendations code business lineCount⟩

/-! ## Ratings -/

/-- The band that a figure falls into. -/
inductive Rating where
  | low
  | medium
  | high
  | veryHigh
  deriving DecidableEq, Repr

namespace Rating

/-- The band as it is shown. -/
def label : Rating → String
  | low => "Low"
  | medium => "Medium"
  | high => "High"
  | veryHigh => "Very High"

/-- The band as it is written in records. -/
def word : Rating → String
  | low => "low"
  | medium => "medium"
  | high => "high"
  | veryHigh => "very_high"

end Rating

/-- The band of a cyclomatic complexity. -/
def cyclomaticRating (n : UInt32) : Rating :=
  if n ≤ 10 then .low else if n ≤ 20 then .medium else if n ≤ 50 then .high else .veryHigh

/-- The band of a cognitive complexity. -/
def cognitiveRating (n : UInt32) : Rating :=
  if n ≤ 15 then .low else if n ≤ 25 then .medium else if n ≤ 50 then .high else .veryHigh

/-- The band of a risk score. -/
def riskRating (score : ν) : Rating :=
  if score ≤ 20.0 then .low else if score ≤ 40.0 then .medium
  else if score ≤ 70.0 then .high else .veryHigh

/-- The name of a risk band in reports. -/
def riskLabel (score : ν) : String :=
  match riskRating score with
  | .veryHigh => "Critical"
  | r => r.label

end CodeRisk
