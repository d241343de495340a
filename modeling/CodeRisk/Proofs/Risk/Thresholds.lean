import CodeRisk.Proofs.Analyzer.Consistent
import CodeRisk.Proofs.Risk

/-!
# Thresholds

Figures are held against thresholds in three places that do not know of each other: the walk lists
the methods that are complex, ratings put a figure into a band, and rules find what to recommend.
Here it is shown that the three agree. A method is listed if one of its figures is above the lowest
band (`MethodComplexity.isComplex_iff`), and to reduce the complexity of a file is recommended if the
figure is in one of the two upper bands (`thresholds_agree`).
-/
namespace CodeRisk

/-! ## Bands -/

namespace Rating

/-- The band of a figure, by the largest figure in each band but the highest. -/
def between (low medium high n : UInt32) : Rating :=
  if n ≤ low then .low else if n ≤ medium then .medium else if n ≤ high then .high else .veryHigh

variable {low medium high n : UInt32}

theorem between_eq_low_iff : between low medium high n = .low ↔ n ≤ low := by
  unfold between
  split_ifs with hlow <;> simp [hlow]

/-- A figure is in one of the two upper bands if it is beyond the two lower ones. -/
theorem between_upper_iff (h : low ≤ medium) :
    between low medium high n = .high ∨ between low medium high n = .veryHigh ↔ medium < n := by
  unfold between
  split_ifs with hlow hmedium hhigh
  · simp [UInt32.not_lt.mpr (UInt32.le_trans hlow h)]
  · simp [UInt32.not_lt.mpr hmedium]
  · simp [UInt32.not_le.mp hmedium]
  · simp [UInt32.not_le.mp hmedium]

end Rating

theorem cyclomaticRating_eq (n : UInt32) : cyclomaticRating n = .between 10 20 50 n := rfl

theorem cognitiveRating_eq (n : UInt32) : cognitiveRating n = .between 15 25 50 n := rfl

/-- A method is complex if one of its figures is above the lowest band. -/
theorem MethodComplexity.isComplex_iff (m : MethodComplexity) :
    m.isComplex = true ↔
      cyclomaticRating m.cyclomatic ≠ .low ∨ cognitiveRating m.cognitive ≠ .low := by
  rw [cyclomaticRating_eq, cognitiveRating_eq, Ne, Ne, Rating.between_eq_low_iff,
    Rating.between_eq_low_iff, UInt32.not_le, UInt32.not_le, isComplex, Bool.or_eq_true,
    decide_eq_true_iff, decide_eq_true_iff]
  rfl

/-! ## Rules -/

/-- What a rule is about. -/
inductive Concern where
  | cyclomatic
  | cognitive
  | length
  /-- A class that is marked as business but does none. -/
  | idle
  /-- A critical class in which nothing is said of exceptions. -/
  | exceptions
  | nesting
  deriving DecidableEq, Repr

namespace Concern

/-- All concerns, in the order in which they are checked. -/
def all : List Concern :=
  [cyclomatic, cognitive, length, idle, exceptions, nesting]

/-- What is recommended on a concern. -/
def recommendation : Concern → Recommendation
  | cyclomatic => ⟨.high, "Reduce cyclomatic complexity through method extraction"⟩
  | cognitive => ⟨.high, "Simplify complex logic to improve readability"⟩
  | length => ⟨.medium, "Consider breaking down large class into smaller components"⟩
  | idle => ⟨.review, "Business class with no business methods detected"⟩
  | exceptions => ⟨.high, "Add proper exception handling for business-critical class"⟩
  | nesting => ⟨.medium, "Reduce nesting depth through guard clauses"⟩

variable {ν : Type} [Scale ν] (code : CodeComplexity ν) (business : BusinessComplexity ν)
  (lines : Nat)

/-- The condition of a concern. -/
def IsDue : Concern → Prop
  | cyclomatic => 20 < code.cyclomatic
  | cognitive => 25 < code.cognitive
  | length => 500 < lines
  | idle => business.hasBusinessAnnotations = true ∧ business.businessMethodCount = 0
  | exceptions => business.exceptionHandling = false ∧ (7.0 : ν) < business.criticality
  | nesting => 4 < code.maxNestingDepth

instance (c : Concern) : Decidable (c.IsDue code business lines) :=
  match c with
  | cyclomatic => inferInstanceAs (Decidable (_ < _))
  | cognitive => inferInstanceAs (Decidable (_ < _))
  | length => inferInstanceAs (Decidable (_ < _))
  | idle => inferInstanceAs (Decidable (_ ∧ _))
  | exceptions => inferInstanceAs (Decidable (_ ∧ _))
  | nesting => inferInstanceAs (Decidable (_ < _))

/-- The rule on a concern. -/
def rule (c : Concern) : RiskRule ν :=
  ⟨fun code business lines => decide (c.IsDue code business lines), c.recommendation⟩

theorem mem_all (c : Concern) : c ∈ all := by
  cases c <;> decide

theorem recommendation_injective : Function.Injective recommendation := by
  intro c d
  cases c <;> cases d <;> decide

theorem priority_recommendation (c : Concern) : c.recommendation.priority ≠ .ok := by
  cases c <;> decide

end Concern

section Recommendations
variable {ν : Type} [Scale ν] (code : CodeComplexity ν) (business : BusinessComplexity ν)
  (lines : Nat)

/-- There is one rule for each concern, in their order. -/
theorem riskRules_eq : (riskRules : List (RiskRule ν)) = Concern.all.map Concern.rule := by
  have hidle : (fun (_ : CodeComplexity ν) (business : BusinessComplexity ν) (_ : Nat) =>
      business.hasBusinessAnnotations && business.businessMethodCount == 0) =
      fun code business lines => decide (Concern.idle.IsDue code business lines) := by
    funext code business lines
    rw [Bool.eq_iff_iff, Bool.and_eq_true, beq_iff_eq, decide_eq_true_iff]
    exact Iff.rfl
  have hexceptions : (fun (_ : CodeComplexity ν) (business : BusinessComplexity ν) (_ : Nat) =>
      !business.exceptionHandling && decide ((7.0 : ν) < business.criticality)) =
      fun code business lines => decide (Concern.exceptions.IsDue code business lines) := by
    funext code business lines
    rw [Bool.eq_iff_iff, Bool.and_eq_true, Bool.not_eq_true', decide_eq_true_iff,
      decide_eq_true_iff]
    exact Iff.rfl
  rw [riskRules, hidle, hexceptions]
  rfl

/-- **What is due**, concern by concern. -/
theorem dueRecommendations_eq :
    dueRecommendations code business lines =
      (Concern.all.filter fun c => c.IsDue code business lines).map Concern.recommendation := by
  rw [dueRecommendations, riskRules_eq, List.filter_map, List.map_map]
  rfl

theorem mem_dueRecommendations {c : Concern} :
    c.recommendation ∈ dueRecommendations code business lines ↔
      c.IsDue code business lines := by
  rw [dueRecommendations_eq, List.mem_map_of_injective Concern.recommendation_injective,
    List.mem_filter, decide_eq_true_iff]
  exact and_iff_right c.mem_all

theorem dueRecommendations_eq_nil_iff :
    dueRecommendations code business lines = [] ↔ ∀ c : Concern, ¬ c.IsDue code business lines := by
  rw [dueRecommendations_eq, List.map_eq_nil_iff, List.filter_eq_nil_iff]
  simp only [decide_eq_true_eq, Concern.mem_all, forall_const]

/-- A concern finds its way into the recommendations by its own condition. -/
theorem mem_recommendations {c : Concern} :
    c.recommendation ∈ recommendations code business lines ↔ c.IsDue code business lines := by
  rw [← mem_dueRecommendations, recommendations_eq]
  split
  case isTrue hnil =>
    rw [hnil, List.mem_singleton]
    refine iff_of_false (fun h => ?_) List.not_mem_nil
    exact c.priority_recommendation (h ▸ rfl)
  case isFalse => exact Iff.rfl

/-- That there is nothing to mend is all that is said if and only if nothing is due. -/
theorem recommendations_eq_singleton_iff :
    recommendations code business lines = [nothingToMend] ↔
      ∀ c : Concern, ¬ c.IsDue code business lines := by
  rw [← dueRecommendations_eq_nil_iff, recommendations_eq]
  constructor
  · intro h
    split at h
    case isTrue hnil => exact hnil
    case isFalse =>
      have hmem : nothingToMend ∈ dueRecommendations code business lines :=
        h ▸ List.mem_singleton_self _
      exact absurd rfl (priority_ne_ok_of_mem_due _ _ _ hmem)
  · intro h
    rw [if_pos h]

theorem recommendations_sublist {c : Concern} (hc : c.IsDue code business lines) :
    (recommendations code business lines).Sublist (Concern.all.map Concern.recommendation) := by
  have hdue : dueRecommendations code business lines ≠ [] :=
    fun hnil => (dueRecommendations_eq_nil_iff _ _ _).mp hnil c hc
  rw [recommendations_eq, if_neg hdue, dueRecommendations_eq]
  exact List.filter_sublist.map _

/-- Each complexity of a file is a concern in the two upper bands of its rating. -/
theorem isDue_complexity_iff :
    (Concern.cyclomatic.IsDue code business lines ↔
      cyclomaticRating code.cyclomatic = .high ∨ cyclomaticRating code.cyclomatic = .veryHigh) ∧
    (Concern.cognitive.IsDue code business lines ↔
      cognitiveRating code.cognitive = .high ∨ cognitiveRating code.cognitive = .veryHigh) := by
  rw [cyclomaticRating_eq, cognitiveRating_eq, Rating.between_upper_iff (by decide),
    Rating.between_upper_iff (by decide)]
  exact ⟨Iff.rfl, Iff.rfl⟩

end Recommendations

/-! ## Agreement -/

/-- A file with a complex method is above the lowest band in one of its figures. -/
theorem SourceUnit.Fits.rating_ne_low {ν : Type} [Scale ν] {u : SourceUnit} (h : u.Fits)
    (hne : (u.complexity : CodeComplexity ν).complexMethods ≠ []) :
    cyclomaticRating (u.complexity : CodeComplexity ν).cyclomatic ≠ .low ∨
      cognitiveRating (u.complexity : CodeComplexity ν).cognitive ≠ .low := by
  obtain ⟨c, hc⟩ := List.exists_mem_of_ne_nil _ hne
  obtain ⟨hcyclomatic, hcognitive⟩ := h.complexMethods_le hc
  have hcomplex : c.isComplex = true := by
    rw [SourceUnit.complexMethods_eq] at hc
    exact (List.mem_filter.mp hc).2
  -- what is above a bound in a method is above it in the file
  rw [MethodComplexity.isComplex_iff] at hcomplex
  simp only [cyclomaticRating_eq, cognitiveRating_eq, Ne, Rating.between_eq_low_iff,
    UInt32.not_le] at hcomplex ⊢
  exact hcomplex.imp (UInt32.lt_of_lt_of_le · hcyclomatic) (UInt32.lt_of_lt_of_le · hcognitive)

/-- **The thresholds agree.** A method is listed as complex if and only if one of its figures is
rated above the lowest band. Each recommendation is made if and only if its own condition holds, so
the first one exactly for a cyclomatic and the second one exactly for a cognitive complexity in one
of the two upper bands. The recommendations keep the order of the rules, none is made twice, and
that there is nothing to mend is said, and then by itself, if and only if no condition holds. So in
the two lower bands nothing is recommended on complexity; and unless a counter wraps around, a file
with a complex method is not in the lowest band with both of its figures. -/
theorem thresholds_agree {ν : Type} [Scale ν] (u : SourceUnit) (code : CodeComplexity ν)
    (business : BusinessComplexity ν) (lines : Nat) :
    let file : CodeComplexity ν := u.complexity
    let made := recommendations code business lines
    file.complexMethods =
      (u.methods.map MethodDecl.complexity).filter (fun m =>
        cyclomaticRating m.cyclomatic ≠ .low ∨ cognitiveRating m.cognitive ≠ .low) ∧
    (∀ c : Concern, c.recommendation ∈ made ↔ c.IsDue code business lines) ∧
    (Concern.cyclomatic.recommendation ∈ made ↔
      cyclomaticRating code.cyclomatic = .high ∨ cyclomaticRating code.cyclomatic = .veryHigh) ∧
    (Concern.cognitive.recommendation ∈ made ↔
      cognitiveRating code.cognitive = .high ∨ cognitiveRating code.cognitive = .veryHigh) ∧
    ((∃ c : Concern, c.IsDue code business lines) →
      made.Sublist (Concern.all.map Concern.recommendation)) ∧
    made.Nodup ∧
    (made = [nothingToMend] ↔ ∀ c : Concern, ¬ c.IsDue code business lines) ∧
    (cyclomaticRating code.cyclomatic = .low ∨ cyclomaticRating code.cyclomatic = .medium →
      cognitiveRating code.cognitive = .low ∨ cognitiveRating code.cognitive = .medium →
        Concern.cyclomatic.recommendation ∉ made ∧ Concern.cognitive.recommendation ∉ made) ∧
    (u.Fits → file.complexMethods ≠ [] →
      ¬ (cyclomaticRating file.cyclomatic = .low ∧ cognitiveRating file.cognitive = .low)) := by
  intro file made
  obtain ⟨hcyclomatic, hcognitive⟩ := isDue_complexity_iff code business lines
  have hmade (c : Concern) : c.recommendation ∈ made ↔ c.IsDue code business lines :=
    mem_recommendations code business lines
  refine ⟨?_, hmade, (hmade _).trans hcyclomatic, (hmade _).trans hcognitive, ?_,
    nodup_recommendations code business lines, recommendations_eq_singleton_iff code business lines,
    ?_, ?_⟩
  · rw [show file.complexMethods = _ from SourceUnit.complexMethods_eq u]
    refine List.filter_congr fun m _ => ?_
    rw [Bool.eq_iff_iff, m.isComplex_iff, decide_eq_true_iff]
  · rintro ⟨c, hc⟩
    exact recommendations_sublist code business lines hc
  · intro hlow hlow'
    rw [hmade, hmade, hcyclomatic, hcognitive]
    constructor
    · rcases hlow with h | h <;> simp [h]
    · rcases hlow' with h | h <;> simp [h]
  · rintro hfits hne ⟨hlow, hlow'⟩
    exact (hfits.rating_ne_low hne).elim (· hlow) (· hlow')

/-- Figures at the upper ends of their medium bands, with deep nesting. -/
def calmCode : CodeComplexity Float where
  cyclomatic := 20
  cognitive := 25
  totalMethods := 4
  averageMethodLength := 12
  maxNestingDepth := 5
  complexMethods := []

/-- Business code in which all is in order. -/
def calmBusiness : BusinessComplexity Float where
  criticality := 7
  hasBusinessAnnotations := true
  businessMethodCount := 2
  validationComplexity := 0
  transactionHandling := false
  exceptionHandling := false
  businessMethods := ["process", "charge"]

theorem thresholds_agree_sample :
    let file : CodeComplexity Float := SourceUnit.sample.complexity
    let made := recommendations calmCode calmBusiness 500
    SourceUnit.sample.Fits ∧ file.complexMethods ≠ [] ∧
    ¬ (cyclomaticRating file.cyclomatic = .low ∧ cognitiveRating file.cognitive = .low) ∧
    cyclomaticRating calmCode.cyclomatic = .medium ∧ cognitiveRating calmCode.cognitive = .medium ∧
    Concern.cyclomatic.recommendation ∉ made ∧ Concern.cognitive.recommendation ∉ made ∧
    Concern.nesting.IsDue calmCode calmBusiness 500 ∧
    made.Sublist (Concern.all.map Concern.recommendation) := by
  intro file made
  have hfits : SourceUnit.sample.Fits := by decide
  have hcomplex : file.complexMethods ≠ [] := by decide
  have hmedium : cyclomaticRating calmCode.cyclomatic = .medium := by decide
  have hmedium' : cognitiveRating calmCode.cognitive = .medium := by decide
  have hnesting : Concern.nesting.IsDue calmCode calmBusiness 500 := by decide
  obtain ⟨-, -, -, -, hsublist, -, -, hcalm, hfile⟩ :=
    thresholds_agree SourceUnit.sample calmCode calmBusiness 500
  obtain ⟨hcyclomatic, hcognitive⟩ := hcalm (.inr hmedium) (.inr hmedium')
  exact ⟨hfits, hcomplex, hfile hfits hcomplex, hmedium, hmedium', hcyclomatic, hcognitive,
    hnesting, hsublist ⟨_, hnesting⟩⟩

end CodeRisk
