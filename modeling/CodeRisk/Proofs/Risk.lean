import CodeRisk.Proofs.ExactScale
import CodeRisk.Risk
import Mathlib.Data.UInt
import Mathlib.Tactic.Linarith
import Mathlib.Tactic.NormNum

/-!
# Scores and recommendations

In exact arithmetic the score is a sum of five parts, cut at 100 (`riskScore_eq_min`). So it stays
within fixed bounds, does not fall when one of the figures rises, and below 100 rises with each of
the complexities (`riskScore_of_figures`).

The recommendations follow the order of the rules; that there is nothing to mend is said by itself
or not at all (`exists_ok_iff`).
-/
namespace CodeRisk

section Exact
variable {κ : Type} [Field κ] [LinearOrder κ] [IsStrictOrderedRing κ] [FloorRing κ]
  {code code' : CodeComplexity κ} {business business' : BusinessComplexity κ}
  {dependencies dependencies' : DependencyImpact κ} {lines lines' : Nat}

omit [IsStrictOrderedRing κ] in
/-- **The score** in exact arithmetic. -/
theorem riskScore_eq (code : CodeComplexity κ) (business : BusinessComplexity κ)
    (dependencies : DependencyImpact κ) (lines : Nat) :
    @riskScore κ (.exact κ) code business dependencies lines =
      min 100 (code.cyclomatic.toNat * 0.3 + code.cognitive.toNat * 0.2 +
        (if longFile < lines then 0.2 else 0.1) + min 10 business.criticality * 0.25 +
        (if manyDependencies < dependencies.fanOut then 0.15 else 0.05)) := by
  have hten : (10.0 : κ) = 10 := by norm_num
  have hhundred : (100.0 : κ) = 100 := by norm_num
  have hcriticality :
      @Scale.atMost κ (.exact κ) (@maxCriticality κ (.exact κ)) business.criticality =
        min 10 business.criticality := by
    rw [Scale.atMost_exact, ← hten]
    rfl
  unfold riskScore
  rw [hcriticality, Scale.atMost_exact, ← hhundred]
  rfl

/-! ### The parts of the score -/

/-- The five parts of the score together, before they are cut. -/
def riskTotal (code : CodeComplexity κ) (business : BusinessComplexity κ)
    (dependencies : DependencyImpact κ) (lines : Nat) : κ :=
  0.3 * code.cyclomatic.toNat + 0.2 * code.cognitive.toNat +
    0.25 * min business.criticality 10 + (if longFile < lines then 0.2 else 0.1) +
    (if manyDependencies < dependencies.fanOut then 0.15 else 0.05)

omit [IsStrictOrderedRing κ] in
theorem riskScore_eq_min (code : CodeComplexity κ) (business : BusinessComplexity κ)
    (dependencies : DependencyImpact κ) (lines : Nat) :
    @riskScore κ (.exact κ) code business dependencies lines =
      min 100 (riskTotal code business dependencies lines) := by
  rw [riskScore_eq, riskTotal, min_comm business.criticality]
  congr 1
  ring

omit [FloorRing κ] in
/-- A short file without code and dependencies has a total of 0.15. -/
theorem le_riskTotal (code : CodeComplexity κ) (dependencies : DependencyImpact κ) (lines : Nat)
    (hcriticality : 0 ≤ business.criticality) :
    0.3 * code.cyclomatic.toNat + 0.15 ≤ riskTotal code business dependencies lines := by
  have hcognitive : (0 : κ) ≤ code.cognitive.toNat := Nat.cast_nonneg _
  have hcut : 0 ≤ min business.criticality 10 := le_min hcriticality (by norm_num)
  have hsize : (0.1 : κ) ≤ if longFile < lines then 0.2 else 0.1 := by
    split <;> norm_num
  have hcoupling : (0.05 : κ) ≤ if manyDependencies < dependencies.fanOut then 0.15 else 0.05 := by
    split <;> norm_num
  rw [riskTotal]
  linarith

omit [Field κ] [IsStrictOrderedRing κ] [FloorRing κ] in
/-- A part that is larger from a threshold on does not fall when its figure rises. -/
theorem ite_le_ite_of_imp {p q : Prop} [Decidable p] [Decidable q] {low high : κ}
    (hpq : p → q) (hle : low ≤ high) : (if p then high else low) ≤ if q then high else low := by
  by_cases hp : p
  · rw [if_pos hp, if_pos (hpq hp)]
  · rw [if_neg hp]
    split
    · exact hle
    · rfl

/-- **The total** does not fall when no figure falls, and rises with each of the complexities. -/
theorem riskTotal_le_of_le (hcyclomatic : code.cyclomatic ≤ code'.cyclomatic)
    (hcognitive : code.cognitive ≤ code'.cognitive)
    (hcriticality : business.criticality ≤ business'.criticality)
    (hfanOut : dependencies.fanOut ≤ dependencies'.fanOut) (hlines : lines ≤ lines') :
    riskTotal code business dependencies lines ≤ riskTotal code' business' dependencies' lines' ∧
      (code.cyclomatic < code'.cyclomatic ∨ code.cognitive < code'.cognitive →
        riskTotal code business dependencies lines <
          riskTotal code' business' dependencies' lines') := by
  have hcyclomatic : (code.cyclomatic.toNat : κ) ≤ code'.cyclomatic.toNat :=
    Nat.cast_le.mpr (UInt32.le_iff_toNat_le.mp hcyclomatic)
  have hcognitive : (code.cognitive.toNat : κ) ≤ code'.cognitive.toNat :=
    Nat.cast_le.mpr (UInt32.le_iff_toNat_le.mp hcognitive)
  have hcut : min business.criticality 10 ≤ min business'.criticality 10 :=
    min_le_min_right _ hcriticality
  have hsize : (if longFile < lines then 0.2 else 0.1 : κ) ≤
      if longFile < lines' then 0.2 else 0.1 :=
    ite_le_ite_of_imp (fun h => h.trans_le hlines) (by norm_num)
  have hcoupling : (if manyDependencies < dependencies.fanOut then 0.15 else 0.05 : κ) ≤
      if manyDependencies < dependencies'.fanOut then 0.15 else 0.05 :=
    ite_le_ite_of_imp (fun h => UInt32.lt_of_lt_of_le h hfanOut) (by norm_num)
  rw [riskTotal, riskTotal]
  constructor
  · linarith
  · rintro (hmore | hmore)
    · have hmore : (code.cyclomatic.toNat : κ) < code'.cyclomatic.toNat :=
        Nat.cast_lt.mpr (UInt32.lt_iff_toNat_lt.mp hmore)
      linarith
    · have hmore : (code.cognitive.toNat : κ) < code'.cognitive.toNat :=
        Nat.cast_lt.mpr (UInt32.lt_iff_toNat_lt.mp hmore)
      linarith

omit [IsStrictOrderedRing κ] [FloorRing κ] in
/-- The total depends on a criticality as far as ten, and on which side of their thresholds the
number of lines and the number of dependencies are. -/
theorem riskTotal_congr (hcyclomatic : code.cyclomatic = code'.cyclomatic)
    (hcognitive : code.cognitive = code'.cognitive)
    (hcriticality : min business.criticality 10 = min business'.criticality 10)
    (hfanOut : manyDependencies < dependencies.fanOut ↔ manyDependencies < dependencies'.fanOut)
    (hlines : longFile < lines ↔ longFile < lines') :
    riskTotal code business dependencies lines =
      riskTotal code' business' dependencies' lines' := by
  simp only [riskTotal, hcyclomatic, hcognitive, hcriticality, hfanOut, hlines]

/-! ### The score itself -/

/-- The score lies between that of an empty file and the highest. -/
theorem riskScore_bounds (dependencies : DependencyImpact κ) (lines : Nat)
    (hcyclomatic : 1 ≤ code.cyclomatic.toNat) (hcriticality : 0 ≤ business.criticality) :
    0.45 ≤ @riskScore κ (.exact κ) code business dependencies lines ∧
      @riskScore κ (.exact κ) code business dependencies lines ≤ 100 := by
  rw [riskScore_eq_min]
  refine ⟨le_min (by norm_num) ?_, min_le_left ..⟩
  have hone : (1 : κ) ≤ code.cyclomatic.toNat := by exact_mod_cast hcyclomatic
  have htotal := le_riskTotal code dependencies lines hcriticality
  linarith

/-- The score does not fall when no figure falls. -/
theorem riskScore_le_of_le (hcyclomatic : code.cyclomatic ≤ code'.cyclomatic)
    (hcognitive : code.cognitive ≤ code'.cognitive)
    (hcriticality : business.criticality ≤ business'.criticality)
    (hfanOut : dependencies.fanOut ≤ dependencies'.fanOut) (hlines : lines ≤ lines') :
    @riskScore κ (.exact κ) code business dependencies lines ≤
      @riskScore κ (.exact κ) code' business' dependencies' lines' := by
  rw [riskScore_eq_min, riskScore_eq_min]
  refine min_le_min_left _ ?_
  exact (riskTotal_le_of_le hcyclomatic hcognitive hcriticality hfanOut hlines).1

/-- **The score of any figures.** It lies within its bounds, and it is the highest one exactly if
the parts reach that. It does not fall when no figure falls, and below the highest score it rises
with each of the complexities. It is the same for all criticalities from ten on, and for all numbers
of lines and of dependencies on one side of a threshold. -/
theorem riskScore_of_figures (code code' : CodeComplexity κ)
    (business business' : BusinessComplexity κ) (dependencies dependencies' : DependencyImpact κ) (lines lines' : Nat)
    (hnonneg : 0 ≤ business.criticality) :
    let score := @riskScore κ (.exact κ) code business dependencies lines
    let score' := @riskScore κ (.exact κ) code' business' dependencies' lines'
    (0.15 ≤ score ∧ score ≤ 100) ∧
    (score = 100 ↔
      100 ≤ 0.3 * (code.cyclomatic.toNat : κ) + 0.2 * code.cognitive.toNat +
        0.25 * min business.criticality 10 + (if 500 < lines then 0.2 else 0.1) +
        (if 10 < dependencies.fanOut then 0.15 else 0.05)) ∧
    (code.cyclomatic ≤ code'.cyclomatic → code.cognitive ≤ code'.cognitive →
      business.criticality ≤ business'.criticality → dependencies.fanOut ≤ dependencies'.fanOut →
      lines ≤ lines' →
        score ≤ score' ∧
          (code.cyclomatic < code'.cyclomatic ∨ code.cognitive < code'.cognitive →
            score < 100 → score < score')) ∧
    (code.cyclomatic = code'.cyclomatic → code.cognitive = code'.cognitive →
      (business.criticality = business'.criticality ∨
        10 ≤ business.criticality ∧ 10 ≤ business'.criticality) →
      (10 < dependencies.fanOut ↔ 10 < dependencies'.fanOut) → (500 < lines ↔ 500 < lines') →
        score = score') := by
  intro score score'
  have hscore : score = min 100 (riskTotal code business dependencies lines) := riskScore_eq_min ..
  have hscore' : score' = min 100 (riskTotal code' business' dependencies' lines') :=
    riskScore_eq_min ..
  rw [hscore, hscore']
  refine ⟨⟨le_min (by norm_num) ?_, min_le_left ..⟩, min_eq_left_iff, ?_, ?_⟩
  · have hcyclomatic : (0 : κ) ≤ code.cyclomatic.toNat := Nat.cast_nonneg _
    have htotal := le_riskTotal code dependencies lines hnonneg
    linarith
  · intro hcyclomatic hcognitive hcriticality hfanOut hlines
    obtain ⟨hle, hlt⟩ :=
      riskTotal_le_of_le hcyclomatic hcognitive hcriticality hfanOut hlines
    refine ⟨min_le_min_left _ hle, ?_⟩
    -- below 100 nothing is cut from the first score, and the second one is cut no lower
    intro hmore hbelow
    have htotal : riskTotal code business dependencies lines < 100 :=
      (min_lt_iff.mp hbelow).resolve_left (lt_irrefl _)
    rw [min_eq_right htotal.le]
    exact lt_min htotal (hlt hmore)
  · intro hcyclomatic hcognitive hcriticality hfanOut hlines
    have hcut : min business.criticality 10 = min business'.criticality 10 := by
      rcases hcriticality with heq | ⟨hten, hten'⟩
      · rw [heq]
      · rw [min_eq_right hten, min_eq_right hten']
    rw [riskTotal_congr hcyclomatic hcognitive hcut hfanOut hlines]

/-- Figures of code with the given cyclomatic complexity. -/
def ofCyclomatic (n : UInt32) : CodeComplexity ℚ :=
  { cyclomatic := n, cognitive := 5, totalMethods := 1, averageMethodLength := 3
    maxNestingDepth := 2, complexMethods := [] }

/-- Figures of business code with the given criticality. -/
def ofCriticality (c : ℚ) : BusinessComplexity ℚ :=
  { criticality := c, hasBusinessAnnotations := true, businessMethodCount := 0
    validationComplexity := 0, transactionHandling := false, exceptionHandling := false
    businessMethods := [] }

/-- Figures of imports with the given number of dependencies. -/
def ofFanOut (n : UInt32) : DependencyImpact ℚ :=
  { outgoing := .empty, incoming := .empty, fanOut := n, fanIn := 0, instability := 1 }

theorem riskScore_of_figures_sample :
    let score := @riskScore ℚ (.exact ℚ) (ofCyclomatic 10) (ofCriticality 12) (ofFanOut 10) 500
    let other := @riskScore ℚ (.exact ℚ) (ofCyclomatic 10) (ofCriticality 30) (ofFanOut 3) 20
    let more := @riskScore ℚ (.exact ℚ) (ofCyclomatic 11) (ofCriticality 30) (ofFanOut 11) 501
    (0.15 ≤ score ∧ score < 100) ∧ score = other ∧ score < more := by
  intro score other more
  have hten : (10 : ℚ) ≤ 12 ∧ (10 : ℚ) ≤ 30 := by norm_num
  obtain ⟨⟨hlow, hhigh⟩, hfull, hrises, -⟩ :=
    riskScore_of_figures (ofCyclomatic 10) (ofCyclomatic 11) (ofCriticality 12) (ofCriticality 30)
      (ofFanOut 10) (ofFanOut 11) 500 501 (show (0 : ℚ) ≤ 12 by norm_num)
  obtain ⟨-, -, -, hsame⟩ :=
    riskScore_of_figures (ofCyclomatic 10) (ofCyclomatic 10) (ofCriticality 12) (ofCriticality 30)
      (ofFanOut 10) (ofFanOut 3) 500 20 (show (0 : ℚ) ≤ 12 by norm_num)
  have hbelow : score < 100 := by
    have hcyclomatic : (ofCyclomatic 10).cyclomatic.toNat = 10 := rfl
    have hcognitive : (ofCyclomatic 10).cognitive.toNat = 5 := rfl
    rw [hcyclomatic, hcognitive] at hfull
    refine lt_of_le_of_ne hhigh fun heq => absurd (hfull.mp heq) ?_
    norm_num [ofCriticality, ofFanOut]
  refine ⟨⟨hlow, hbelow⟩, hsame rfl rfl (.inr hten) (by decide) (by decide), ?_⟩
  obtain ⟨-, hlt⟩ :=
    hrises (by decide) (by decide) (show (12 : ℚ) ≤ 30 by norm_num) (by decide) (by decide)
  exact hlt (.inl (by decide)) hbelow

end Exact

/-! ## Recommendations -/

section Recommendations
variable {ν : Type} [Scale ν] (code : CodeComplexity ν) (business : BusinessComplexity ν)
  (lines : Nat)

/-- The recommendations of the rules that hold, in the order of the rules. -/
def dueRecommendations : List Recommendation :=
  ((riskRules : List (RiskRule ν)).filter fun r => r.holds code business lines).map
    (·.recommendation)

theorem dueRecommendations_sublist : (dueRecommendations code business lines).Sublist
    ((riskRules : List (RiskRule ν)).map (·.recommendation)) :=
  List.filter_sublist.map _

/-- No rule recommends what another one does. -/
theorem nodup_riskRules : ((riskRules : List (RiskRule ν)).map (·.recommendation)).Nodup := by
  simp [riskRules]

/-- No rule finds that there is nothing to mend. -/
theorem priority_ne_ok_of_mem_due {r : Recommendation}
    (hr : r ∈ dueRecommendations code business lines) : r.priority ≠ .ok := by
  have hmem := (dueRecommendations_sublist code business lines).subset hr
  simp only [riskRules, List.map_cons, List.map_nil, List.mem_cons, List.not_mem_nil,
    or_false] at hmem
  rcases hmem with rfl | rfl | rfl | rfl | rfl | rfl <;> exact Priority.noConfusion

theorem recommendations_eq :
    recommendations code business lines =
      if dueRecommendations code business lines = [] then [nothingToMend]
      else dueRecommendations code business lines := by
  rw [recommendations, ← dueRecommendations]
  cases dueRecommendations code business lines with
  | nil => rfl
  | cons => rfl

theorem recommendations_ne_nil : recommendations code business lines ≠ [] := by
  rw [recommendations_eq]
  split
  · exact List.cons_ne_nil _ _
  · assumption

theorem nodup_recommendations : (recommendations code business lines).Nodup := by
  rw [recommendations_eq]
  split
  · exact List.nodup_singleton _
  · exact (dueRecommendations_sublist code business lines).nodup nodup_riskRules

/-- That there is nothing to mend is said by itself, if no rule holds, or not at all. -/
theorem exists_ok_iff :
    (∃ r ∈ recommendations code business lines, r.priority = .ok) ↔
      recommendations code business lines = [nothingToMend] := by
  rw [recommendations_eq]
  constructor
  · rintro ⟨r, hr, hok⟩
    split at hr
    case isTrue hnil => rw [if_pos hnil]
    case isFalse => exact absurd hok (priority_ne_ok_of_mem_due _ _ _ hr)
  · intro h
    rw [h]
    exact ⟨nothingToMend, List.mem_singleton.mpr rfl, rfl⟩

end Recommendations

end CodeRisk
