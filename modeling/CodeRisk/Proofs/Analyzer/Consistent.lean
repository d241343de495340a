import CodeRisk.Analyzer
import CodeRisk.Proofs.Business
import CodeRisk.Proofs.Complexity.Unit
import CodeRisk.Proofs.Dependency
import CodeRisk.Proofs.Risk

/-!
# Consistent records

The record of a file is filled by four passes that do not know of each other. Here it is shown that
their fields agree (`Analyzer.analyzeUnit_consistent`): what one pass lists another one has counted,
no part is larger than the whole, and the scores stay within their bounds. The only unit that is
refused is one without a type.
-/
namespace CodeRisk

/-- What is counted of a unit fits into counters. -/
structure Analyzer.Fits (a : Analyzer) (u : SourceUnit) : Prop extends unitFits : u.Fits where
  fanOut : (a.inspector.outgoing u.imports).size < Counter.limit

/-- The record of a unit holds together: its lists agree with its counts, its parts with the whole,
and its scores with the signs that they are made of. -/
structure FileMetadata.Consistent {κ : Type} [Field κ] [LinearOrder κ] (u : SourceUnit)
    (m : FileMetadata κ) : Prop where
  one_le_cyclomatic : 1 ≤ m.code.cyclomatic
  complexMethods_length_le : m.code.complexMethods.length ≤ m.code.totalMethods.toNat
  complexMethods_le : ∀ c ∈ m.code.complexMethods,
    c.cyclomatic ≤ m.code.cyclomatic ∧ c.cognitive ≤ m.code.cognitive
  businessMethodCount_eq :
    m.business.businessMethodCount.toNat = m.business.businessMethods.length
  businessMethods_length_le : m.business.businessMethods.length ≤ m.code.totalMethods.toNat
  validationComplexity_le : m.business.validationComplexity ≤ m.code.totalMethods
  fanOut_eq : m.dependencies.fanOut.toNat = m.dependencies.outgoing.size
  fanIn_eq : m.dependencies.fanIn = 0
  incoming_eq : m.dependencies.incoming.toList = []
  instability_eq : m.dependencies.instability = if 0 < m.dependencies.fanOut then 1 else 0
  criticality_nonneg : 0 ≤ m.business.criticality
  criticality_le : m.business.criticality ≤ 10
  two_le_criticality : m.business.hasBusinessAnnotations → 2 ≤ m.business.criticality
  three_halves_le_criticality : m.business.transactionHandling → 1.5 ≤ m.business.criticality
  criticality_eq_zero_iff : m.business.criticality = 0 ↔
    (∀ t ∈ u.types, ∀ name ∈ t.annotations, marksBusiness name = false) ∧
      ∀ d ∈ u.methods, isBusinessMethodName d.name = false ∧ d.hasValidation = false ∧
        ∀ name ∈ d.annotations, isTransactional name = false
  le_riskScore : 0.45 ≤ m.riskScore
  riskScore_le : m.riskScore ≤ 100
  recommendations_ne_nil : m.recommendations ≠ []
  nodup_recommendations : m.recommendations.Nodup
  exists_ok_iff : (∃ r ∈ m.recommendations, r.priority = .ok) ↔ m.recommendations = [nothingToMend]

namespace SourceUnit.Fits
variable {ν : Type} [Scale ν] {u : SourceUnit}

theorem complexMethods_length_le (h : u.Fits) :
    (u.complexity : CodeComplexity ν).complexMethods.length ≤
      (u.complexity : CodeComplexity ν).totalMethods.toNat := by
  rw [complexMethods_eq, h.toNat_totalMethods]
  exact (List.length_filter_le ..).trans_eq (List.length_map _)

theorem complexMethods_le (h : u.Fits) {c : MethodComplexity}
    (hc : c ∈ (u.complexity : CodeComplexity ν).complexMethods) :
    c.cyclomatic ≤ (u.complexity : CodeComplexity ν).cyclomatic ∧
      c.cognitive ≤ (u.complexity : CodeComplexity ν).cognitive := by
  rw [complexMethods_eq] at hc
  obtain ⟨m, hm, rfl⟩ := List.mem_map.mp (List.mem_filter.mp hc).1
  exact h.complexity_le hm

theorem businessMethods_length_le (u : SourceUnit) :
    (u.business : BusinessComplexity ν).businessMethods.length ≤ u.methods.length := by
  show (u.businessSigns.filterMap BusinessSign.methodName?).length ≤ _
  rw [filterMap_methodName?_businessSigns, List.length_map]
  exact List.length_filter_le ..

theorem businessMethodCount_eq (h : u.Fits) :
    (u.business : BusinessComplexity ν).businessMethodCount.toNat =
      (u.business : BusinessComplexity ν).businessMethods.length :=
  Counter.toNat_ofNat_of_lt ((businessMethods_length_le (ν := ν) u).trans_lt h.methods)

theorem toNat_validationComplexity (h : u.Fits) :
    (u.business : BusinessComplexity ν).validationComplexity.toNat =
      u.methods.countP MethodDecl.hasValidation := by
  show (UInt32.ofNat (u.businessSigns.count .validation)).toNat = _
  rw [count_validation_businessSigns]
  exact Counter.toNat_ofNat_of_lt (List.countP_le_length.trans_lt h.methods)

end SourceUnit.Fits

namespace Analyzer

/-- A unit is refused if and only if it has no type, and the error names the path. -/
theorem analyzeUnit_eq_error_iff {ν : Type} [Scale ν] (a : Analyzer) (revision : Revision)
    (now : Timestamp) (path : String) (u : SourceUnit) (e : AnalysisError) :
    (a.analyzeUnit revision now path u : Except AnalysisError (FileMetadata ν)) = .error e ↔
      u.types = [] ∧ e = .noPrimaryType path := by
  rw [analyzeUnit, SourceUnit.primaryType?]
  cases u.types with
  | nil => simp [eq_comm]
  | cons => simp

/-- The record has what the four passes find in the unit. -/
structure Records {ν : Type} [Scale ν] (a : Analyzer) (u : SourceUnit) (m : FileMetadata ν) :
    Prop where
  code : m.code = u.complexity
  business : m.business = u.business
  dependencies : m.dependencies = a.inspector.inspect u.imports
  riskScore : m.riskScore = riskScore m.code m.business m.dependencies u.lineCount
  recommendations : m.recommendations = recommendations m.code m.business u.lineCount

/-- A unit with a type has a record. -/
theorem exists_records {ν : Type} [Scale ν] (a : Analyzer) (revision : Revision)
    (now : Timestamp) (path : String) {u : SourceUnit} (h : u.types ≠ []) :
    ∃ m : FileMetadata ν, a.analyzeUnit revision now path u = .ok m ∧ a.Records u m := by
  obtain ⟨primary, rest, htypes⟩ := List.exists_cons_of_ne_nil h
  have hprimary : u.primaryType? = some primary := by
    rw [SourceUnit.primaryType?, htypes, List.head?_cons]
  exact ⟨_, by rw [analyzeUnit, hprimary], rfl, rfl, rfl, rfl, rfl⟩

variable {κ : Type} [Field κ] [LinearOrder κ] [IsStrictOrderedRing κ] [FloorRing κ]

/-- The record of a unit holds together unless a counter wraps around. -/
theorem Fits.consistent {a : Analyzer} {u : SourceUnit} (h : a.Fits u) {m : FileMetadata κ}
    (hm : @Records κ (.exact κ) a u m) : m.Consistent u := by
  let _ := Scale.exact κ
  have hfits : u.Fits := h.unitFits
  have hcyclomatic : 1 ≤ m.code.cyclomatic.toNat := by
    rw [hm.code, hfits.toNat_cyclomatic, SourceUnit.exactCyclomatic]
    omega
  have hnonneg : 0 ≤ m.business.criticality := hm.business ▸ SourceUnit.criticality_nonneg
  have hbounds := riskScore_bounds m.dependencies u.lineCount hcyclomatic hnonneg
  rw [← hm.riskScore] at hbounds
  exact {
    one_le_cyclomatic := UInt32.le_iff_toNat_le.mpr hcyclomatic
    complexMethods_length_le := hm.code ▸ hfits.complexMethods_length_le
    complexMethods_le := fun c hc => by
      rw [hm.code] at hc ⊢
      exact hfits.complexMethods_le hc
    businessMethodCount_eq := hm.business ▸ hfits.businessMethodCount_eq
    businessMethods_length_le := by
      rw [hm.business, hm.code, hfits.toNat_totalMethods]
      exact SourceUnit.Fits.businessMethods_length_le u
    validationComplexity_le := by
      rw [UInt32.le_iff_toNat_le, hm.business, hm.code, hfits.toNat_totalMethods,
        hfits.toNat_validationComplexity]
      exact List.countP_le_length
    fanOut_eq := by
      rw [hm.dependencies]
      exact DependencyInspector.toNat_fanOut a.inspector h.fanOut
    fanIn_eq := hm.dependencies ▸ rfl
    incoming_eq := hm.dependencies ▸ rfl
    instability_eq := hm.dependencies ▸ DependencyInspector.instability_eq a.inspector u.imports
    criticality_nonneg := hnonneg
    criticality_le := hm.business ▸ SourceUnit.criticality_le
    two_le_criticality := hm.business ▸ SourceUnit.two_le_criticality
    three_halves_le_criticality := hm.business ▸ SourceUnit.three_halves_le_criticality
    criticality_eq_zero_iff := by
      rw [hm.business, SourceUnit.criticality_eq_zero_iff, SourceUnit.businessSigns_eq_nil_iff]
    le_riskScore := hbounds.1
    riskScore_le := hbounds.2
    recommendations_ne_nil := hm.recommendations ▸ CodeRisk.recommendations_ne_nil _ _ _
    nodup_recommendations := hm.recommendations ▸ CodeRisk.nodup_recommendations _ _ _
    exists_ok_iff := hm.recommendations ▸ CodeRisk.exists_ok_iff _ _ _ }

/-- **Consistency.** Whatever an analyzer is configured with, it refuses exactly the units without a
type, with an error that names the path, and unless a counter wraps around the record of any other
unit holds together. -/
theorem analyzeUnit_consistent (a : Analyzer) (revision : Revision) (now : Timestamp)
    (path : String) (u : SourceUnit) :
    (∀ e, @analyzeUnit κ (.exact κ) a revision now path u = .error e ↔
      u.types = [] ∧ e = .noPrimaryType path) ∧
    (u.types ≠ [] → ∃ m, @analyzeUnit κ (.exact κ) a revision now path u = .ok m ∧
      (a.Fits u → m.Consistent u)) := by
  let _ := Scale.exact κ
  refine ⟨fun e => analyzeUnit_eq_error_iff a revision now path u e, fun hne => ?_⟩
  obtain ⟨m, hm, hrecords⟩ := exists_records (ν := κ) a revision now path hne
  exact ⟨m, hm, fun h => h.consistent hrecords⟩

/-- A file with a service, two methods, some code outside them and one import from the project. -/
def sampleUnit : SourceUnit :=
  { SourceUnit.sample with
    types := [⟨"Shop", .ofClass, ["Service"], ⟨1, 60⟩⟩]
    imports := ["java.util.List", "shop.Order"] }

theorem analyzeUnit_consistent_sample :
    let a := ofConfig {}
    sampleUnit.types ≠ [] ∧ a.Fits sampleUnit ∧
      ∃ m, @analyzeUnit ℚ (.exact ℚ) a ⟨"", "main"⟩ ⟨0, 0, 0⟩ "Shop.java" sampleUnit = .ok m ∧
        m.Consistent sampleUnit := by
  intro a
  have htypes : sampleUnit.types ≠ [] := by decide
  have hfits : a.Fits sampleUnit := ⟨by decide, by decide⟩
  obtain ⟨m, hm, hconsistent⟩ :=
    (analyzeUnit_consistent (κ := ℚ) a ⟨"", "main"⟩ ⟨0, 0, 0⟩ "Shop.java" sampleUnit).2 htypes
  exact ⟨htypes, hfits, m, hm, hconsistent hfits⟩

end Analyzer

end CodeRisk
