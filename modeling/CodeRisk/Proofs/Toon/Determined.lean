import CodeRisk.Proofs.Analyzer.Consistent
import CodeRisk.Proofs.Metadata.Timestamp
import CodeRisk.Toon

/-!
# What a compact record leaves out

A compact record leaves out what is empty or false and what follows from the rest, and rounds its
numbers. For results of an analysis nothing is lost by it but the exact mean length of the methods
(`analyzeUnit_determined`). The criticality is a number of halves, so rounding keeps it, and the
figures that are not written are functions of others that are.
-/
namespace CodeRisk

/-! ## Numbers of halves -/

section Exact
variable {κ : Type} [Field κ] [LinearOrder κ] [IsStrictOrderedRing κ] [FloorRing κ]

theorem Toon.hundredths_eq {x : κ} (h : 0 ≤ x) :
    @hundredths κ (.exact κ) x = (⌊x * 100 + 1 / 2⌋ : ℤ) / 100 := by
  have hhundred : (100.0 : κ) = 100 := by norm_num
  have hscaled : 0 ≤ x * 100 := mul_nonneg h (by norm_num)
  show @Scale.round κ (.exact κ) (x * 100.0) / 100.0 = _
  rw [hhundred]
  show (if 0 ≤ x * 100 then ((⌊x * 100 + 1 / 2⌋ : ℤ) : κ) else _) / 100 = _
  rw [if_pos hscaled]

/-- Rounding to hundredths keeps halves. -/
theorem Toon.hundredths_half (n : ℕ) : @hundredths κ (.exact κ) (n / 2) = n / 2 := by
  have hscaled : (n / 2 * 100 : κ) = ((50 * n : ℕ) : κ) := by
    push_cast
    ring
  have hfloor : ⌊((50 * n : ℕ) : κ) + 1 / 2⌋ = ((50 * n : ℕ) : ℤ) := by
    rw [Int.floor_natCast_add]
    norm_num
  rw [hundredths_eq (by positivity), hscaled, hfloor, Int.cast_natCast, ← hscaled]
  exact mul_div_cancel_right₀ _ (by norm_num)

/-- Rounding to hundredths keeps the criticality. -/
theorem SourceUnit.hundredths_criticality (u : SourceUnit) :
    @Toon.hundredths κ (.exact κ) (@business κ (.exact κ) u).criticality =
      (@business κ (.exact κ) u).criticality := by
  obtain ⟨n, -, hn⟩ := exists_half_criticality (κ := κ) u
  rw [hn, Toon.hundredths_half]

end Exact

namespace Toon

section Lookup
variable {ν : Type} {name key : String} {v : Value ν} {present : Bool}

theorem lookup_field? :
    (field? present name v).lookup key = if present && key == name then some v else none := by
  cases present with
  | false => rfl
  | true =>
    rw [field?, if_pos rfl, List.lookup_cons, Bool.true_and]
    cases key == name <;> rfl

/-- What is left out if it is nothing can be told from what is written. -/
theorem eq_of_present {α β : Type} {f : α → β} (hf : Function.Injective f) {x y : α} (nothing : α)
    [Decidable (x = nothing)] [Decidable (y = nothing)]
    (h : (if x = nothing then none else some (f x)) = if y = nothing then none else some (f y)) :
    x = y := by
  by_cases hx : x = nothing
  · by_cases hy : y = nothing
    · rw [hx, hy]
    · rw [if_pos hx, if_neg hy] at h
      cases h
  · by_cases hy : y = nothing
    · rw [if_neg hx, if_pos hy] at h
      cases h
    · rw [if_neg hx, if_neg hy] at h
      exact hf (Option.some.inj h)

theorem methodRow_injective :
    Function.Injective (methodRow : MethodComplexity → List (Scalar ν)) := by
  rintro ⟨name, cyclomatic, cognitive, lines⟩ ⟨name', cyclomatic', cognitive', lines'⟩ h
  simp only [methodRow, List.cons.injEq, Scalar.text.injEq, Scalar.nat.injEq, UInt32.toNat_inj,
    and_true] at h
  obtain ⟨rfl, rfl, rfl, rfl⟩ := h
  rfl

theorem list_injective : Function.Injective (Value.list : List String → Value ν) := by
  intro xs ys h
  exact Value.list.inj h

theorem table_injective (columns : List String) :
    Function.Injective fun ms : List MethodComplexity =>
      (Value.table columns (ms.map methodRow) : Value ν) := by
  intro ms ns h
  exact List.map_injective_iff.mpr methodRow_injective (Value.table.inj h).2

theorem counter_injective : Function.Injective (Value.counter : UInt32 → Value ν) := by
  intro k l h
  exact UInt32.toNat_inj.mp (Scalar.nat.inj (Value.scalar.inj h))

variable [Scale ν] {m n : FileMetadata ν}

/-- Of the mean length of the methods only the hundredths are shown. -/
theorem ofMetadata_mean {mean : ν}
    (h : hundredths m.code.averageMethodLength = hundredths mean) :
    ofMetadata { m with code := { m.code with averageMethodLength := mean } } = ofMetadata m := by
  simp only [ofMetadata, h]

/-- What the same object says about two files. -/
structure SameWritten (m n : FileMetadata ν) : Prop where
  filePath : m.filePath = n.filePath
  className : m.className = n.className
  packageName : m.packageName = n.packageName
  repositoryUrl : m.repositoryUrl = n.repositoryUrl
  branch : m.branch = n.branch
  lineCount : m.lineCount = n.lineCount
  cyclomatic : m.code.cyclomatic = n.code.cyclomatic
  cognitive : m.code.cognitive = n.code.cognitive
  totalMethods : m.code.totalMethods = n.code.totalMethods
  averageMethodLength :
    hundredths m.code.averageMethodLength = hundredths n.code.averageMethodLength
  maxNestingDepth : m.code.maxNestingDepth = n.code.maxNestingDepth
  complexMethods : m.code.complexMethods = n.code.complexMethods
  criticality : hundredths m.business.criticality = hundredths n.business.criticality
  hasBusinessAnnotations : m.business.hasBusinessAnnotations = n.business.hasBusinessAnnotations
  businessMethods : m.business.businessMethods = n.business.businessMethods
  validationComplexity : m.business.validationComplexity = n.business.validationComplexity
  transactionHandling : m.business.transactionHandling = n.business.transactionHandling
  exceptionHandling : m.business.exceptionHandling = n.business.exceptionHandling
  outgoing : m.dependencies.outgoing.toList = n.dependencies.outgoing.toList
  analyzedAt : m.analyzedAt.render "+00:00" = n.analyzedAt.render "+00:00"

/-- Equal objects say the same, whatever is left out. -/
theorem sameWritten_of_lookup
    (h : ∀ name, (ofMetadata m).lookup name = (ofMetadata n).lookup name) : SameWritten m n := by
  have hlookup (name : String) := h name
  simp only [ofMetadata, List.lookup_append, List.lookup_cons, List.lookup_nil,
    lookup_field?] at hlookup
  exact {
    filePath := by simpa [Value.text] using hlookup "file"
    className := by simpa [Value.text] using hlookup "class"
    packageName := by simpa [Value.text] using hlookup "package"
    repositoryUrl := by simpa [Value.text] using hlookup "repo"
    branch := by simpa [Value.text] using hlookup "branch"
    lineCount := by simpa [Value.nat] using hlookup "lines"
    cyclomatic := by simpa [Value.counter, Value.nat, UInt32.toNat_inj] using hlookup "cyclomatic"
    cognitive := by simpa [Value.counter, Value.nat, UInt32.toNat_inj] using hlookup "cognitive"
    totalMethods := by simpa [Value.counter, Value.nat, UInt32.toNat_inj] using hlookup "methods"
    averageMethodLength := by simpa using hlookup "avg_method_lines"
    maxNestingDepth := by
      simpa [Value.counter, Value.nat, UInt32.toNat_inj] using hlookup "max_nesting"
    complexMethods :=
      eq_of_present (table_injective _) [] (by simpa using hlookup "complex_methods")
    criticality := by simpa using hlookup "criticality"
    hasBusinessAnnotations := by
      have hannotated := hlookup "business_annotated"
      cases hm : m.business.hasBusinessAnnotations <;>
        cases hn : n.business.hasBusinessAnnotations <;> simp [hm, hn] at hannotated ⊢
    businessMethods := eq_of_present list_injective [] (by simpa using hlookup "business_methods")
    validationComplexity := eq_of_present counter_injective 0 (by simpa using hlookup "validation")
    transactionHandling := by simpa [Value.bool] using hlookup "transactions"
    exceptionHandling := by simpa [Value.bool] using hlookup "exceptions"
    outgoing := eq_of_present list_injective [] (by simpa using hlookup "depends_on")
    analyzedAt := by simpa [Value.text] using hlookup "analyzed_at" }

end Lookup
end Toon

/-! ## Results of an analysis -/

namespace Analyzer

/-- What an analysis returns has what the passes find in the unit. -/
theorem records_of_analyzeUnit {ν : Type} [Scale ν] {a : Analyzer} {revision : Revision}
    {now : Timestamp} {path : String} {u : SourceUnit} {m : FileMetadata ν}
    (h : a.analyzeUnit revision now path u = .ok m) :
    a.Records u m ∧ m.lineCount = u.lineCount ∧ m.analyzedAt = now := by
  rw [analyzeUnit] at h
  cases hprimary : u.primaryType? with
  | none =>
    rw [hprimary] at h
    cases h
  | some primary =>
    rw [hprimary] at h
    obtain rfl := Except.ok.inj h
    exact ⟨⟨rfl, rfl, rfl, rfl, rfl⟩, rfl, rfl⟩

variable {κ : Type} [Field κ] [LinearOrder κ] [IsStrictOrderedRing κ] [FloorRing κ]

/-- The signs of business code follow from what is written of them. -/
theorem Records.business_eq {a a' : Analyzer} {u u' : SourceUnit} {m m' : FileMetadata κ}
    (h : @Records κ (.exact κ) a u m) (h' : @Records κ (.exact κ) a' u' m')
    (hsame : @Toon.SameWritten κ (.exact κ) m m') : m'.business = m.business := by
  let _ := Scale.exact κ
  have hcount {w : SourceUnit} {b : BusinessComplexity κ} (hb : b = w.business) :
      b.businessMethodCount = UInt32.ofNat b.businessMethods.length := hb ▸ rfl
  have hcriticality {w : SourceUnit} {b : BusinessComplexity κ} (hb : b = w.business) :
      Toon.hundredths b.criticality = b.criticality := hb ▸ w.hundredths_criticality
  have hcriticalities : m.business.criticality = m'.business.criticality := by
    rw [← hcriticality h.business, hsame.criticality, hcriticality h'.business]
  have hcounts : m.business.businessMethodCount = m'.business.businessMethodCount := by
    rw [hcount h.business, hsame.businessMethods, hcount h'.business]
  calc m'.business
      = ⟨m.business.criticality, m.business.hasBusinessAnnotations, m.business.businessMethodCount,
          m.business.validationComplexity, m.business.transactionHandling,
          m.business.exceptionHandling, m.business.businessMethods⟩ := by
        rw [hcriticalities, hsame.hasBusinessAnnotations, hcounts, hsame.validationComplexity,
          hsame.transactionHandling, hsame.exceptionHandling, hsame.businessMethods]
    _ = m.business := rfl

/-- **Nothing is lost by what a compact record leaves out.** If two results of analyses, whatever
was analyzed and however, have the same object, they are equal but for the mean length of the
methods, and the two means are the same when rounded to hundredths. -/
theorem analyzeUnit_determined (a a' : Analyzer) (revision revision' : Revision)
    (now now' : Timestamp) (path path' : String) (u u' : SourceUnit) (m m' : FileMetadata κ)
    (hnow : now.IsValid) (hnow' : now'.IsValid)
    (hm : @analyzeUnit κ (.exact κ) a revision now path u = .ok m)
    (hm' : @analyzeUnit κ (.exact κ) a' revision' now' path' u' = .ok m')
    (hobject : ∀ name, (@Toon.ofMetadata κ (.exact κ) m).lookup name =
      (@Toon.ofMetadata κ (.exact κ) m').lookup name) :
    m' = { m with code := { m.code with averageMethodLength := m'.code.averageMethodLength } } ∧
      @Toon.hundredths κ (.exact κ) m.code.averageMethodLength =
        @Toon.hundredths κ (.exact κ) m'.code.averageMethodLength := by
  let _ := Scale.exact κ
  have hsame : Toon.SameWritten m m' := Toon.sameWritten_of_lookup hobject
  obtain ⟨hrecords, hlines, htime⟩ := records_of_analyzeUnit hm
  obtain ⟨hrecords', hlines', htime'⟩ := records_of_analyzeUnit hm'
  have hcode : m'.code = ⟨m.code.cyclomatic, m.code.cognitive, m.code.totalMethods,
      m'.code.averageMethodLength, m.code.maxNestingDepth, m.code.complexMethods⟩ := by
    rw [hsame.cyclomatic, hsame.cognitive, hsame.totalMethods, hsame.maxNestingDepth,
      hsame.complexMethods]
  have hbusiness : m'.business = m.business :=
    hrecords.business_eq hrecords' hsame
  have hdependencies : m'.dependencies = m.dependencies := by
    rw [hrecords.dependencies, hrecords'.dependencies]
    refine DependencyInspector.inspect_congr (StringSet.eq_of_toList ?_)
    rw [← hrecords.dependencies, ← hrecords'.dependencies, hsame.outgoing]
  have hrisk : m'.riskScore = m.riskScore := by
    rw [hrecords.riskScore, hrecords'.riskScore, hcode, hbusiness, hdependencies, ← hlines,
      ← hlines', hsame.lineCount]
    rfl
  have hrecommendations : m'.recommendations = m.recommendations := by
    rw [hrecords.recommendations, hrecords'.recommendations, hcode, hbusiness, ← hlines,
      ← hlines', hsame.lineCount]
    rfl
  have hanalyzed : m'.analyzedAt = m.analyzedAt := by
    have hmark : "+00:00".toList = '+' :: "00:00".toList := rfl
    refine Timestamp.render_injective hmark rfl ?_ ?_ hsame.analyzedAt.symm
    · rw [htime']
      exact hnow'
    · rw [htime]
      exact hnow
  refine ⟨?_, hsame.averageMethodLength⟩
  calc m'
      = ⟨m.repositoryUrl, m.branch, m.filePath, m.className, m.packageName, m.lineCount,
          ⟨m.code.cyclomatic, m.code.cognitive, m.code.totalMethods, m'.code.averageMethodLength,
            m.code.maxNestingDepth, m.code.complexMethods⟩,
          m.business, m.dependencies, m.riskScore, m.recommendations, m.analyzedAt⟩ := by
        rw [hsame.filePath, hsame.className, hsame.packageName, hsame.repositoryUrl, hsame.branch,
          hsame.lineCount, ← hcode, ← hbusiness, ← hdependencies, ← hrisk, ← hrecommendations,
          ← hanalyzed]
    _ = { m with code := { m.code with averageMethodLength := m'.code.averageMethodLength } } := rfl

/-- A unit with two hundred and one methods, of which all but the first have one line. -/
def sampleLongUnit (last : Nat) : SourceUnit where
  package := none
  types := [⟨"Catalog", .ofClass, [], ⟨1, 300⟩⟩]
  methods := ⟨"first", [], [], [], none, ⟨1, last⟩⟩ ::
    List.replicate 200 ⟨"other", [], [], [], none, ⟨1, 1⟩⟩
  otherCode := []
  imports := []
  lineCount := 300

/-- The tally of the unit if its methods have so many lines. -/
def sampleLongTally (lines : Nat) : Tally where
  methodCount := 201
  methodLines := lines

theorem tally_sampleLongUnit :
    (sampleLongUnit 1).tally = sampleLongTally 201 ∧
      (sampleLongUnit 2).tally = sampleLongTally 202 := by
  decide +kernel

/-- The record of the unit if its methods have so many lines. -/
def sampleLongRecord (lines : Nat) : FileMetadata ℚ :=
  let _ := Scale.exact ℚ
  let code : CodeComplexity ℚ := (sampleLongTally lines).figures
  let business := SourceUnit.business (sampleLongUnit 1)
  let dependencies := ({} : DependencyInspector).inspect []
  ⟨"", "main", "Catalog.java", "Catalog", "default", 300, code, business, dependencies,
    riskScore code business dependencies 300, recommendations code business 300, ⟨0, 0, 0⟩⟩

/-- The length of a method is no sign of business code. -/
theorem business_sampleLongUnit (last : Nat) :
    @SourceUnit.business ℚ (.exact ℚ) (sampleLongUnit last) =
      @SourceUnit.business ℚ (.exact ℚ) (sampleLongUnit 1) := by
  have hsigns : (sampleLongUnit last).businessSigns = (sampleLongUnit 1).businessSigns := by
    simp only [SourceUnit.businessSigns, sampleLongUnit, List.flatMap_cons]
    rfl
  have hexceptions : (sampleLongUnit last).handlesExceptions =
      (sampleLongUnit 1).handlesExceptions := by
    simp only [SourceUnit.handlesExceptions, sampleLongUnit, List.filterMap_cons]
  simp only [SourceUnit.business, hsigns, hexceptions]

theorem analyzeUnit_sampleLongUnit {last lines : Nat}
    (h : (sampleLongUnit last).tally = sampleLongTally lines) :
    @analyzeUnit ℚ (.exact ℚ) (ofConfig {}) ⟨"", "main"⟩ ⟨0, 0, 0⟩ "Catalog.java"
      (sampleLongUnit last) = .ok (sampleLongRecord lines) := by
  let _ := Scale.exact ℚ
  have hcode : ((sampleLongUnit last).complexity : CodeComplexity ℚ) =
      (sampleLongTally lines).figures := congrArg Tally.figures h
  have hprimary : (sampleLongUnit last).primaryType? =
      some ⟨"Catalog", .ofClass, [], ⟨1, 300⟩⟩ := rfl
  simp only [analyzeUnit, hprimary, hcode, business_sampleLongUnit last]
  rfl

/-- Means that differ by less than a hundredth are all that two files with the same object may
differ in. -/
theorem analyzeUnit_determined_sample :
    ∃ m m' : FileMetadata ℚ,
      @analyzeUnit ℚ (.exact ℚ) (ofConfig {}) ⟨"", "main"⟩ ⟨0, 0, 0⟩ "Catalog.java"
        (sampleLongUnit 1) = .ok m ∧
      @analyzeUnit ℚ (.exact ℚ) (ofConfig {}) ⟨"", "main"⟩ ⟨0, 0, 0⟩ "Catalog.java"
        (sampleLongUnit 2) = .ok m' ∧
      (∀ name, (@Toon.ofMetadata ℚ (.exact ℚ) m).lookup name =
        (@Toon.ofMetadata ℚ (.exact ℚ) m').lookup name) ∧
      m.code.averageMethodLength ≠ m'.code.averageMethodLength ∧
      m' = { m with code := { m.code with averageMethodLength := m'.code.averageMethodLength } } ∧
      @Toon.hundredths ℚ (.exact ℚ) m.code.averageMethodLength =
        @Toon.hundredths ℚ (.exact ℚ) m'.code.averageMethodLength := by
  let _ := Scale.exact ℚ
  have hm := analyzeUnit_sampleLongUnit tally_sampleLongUnit.1
  have hm' := analyzeUnit_sampleLongUnit tally_sampleLongUnit.2
  have hmean (lines : Nat) :
      (sampleLongRecord lines).code.averageMethodLength = (lines : ℚ) / 201 := rfl
  have hrounded : Toon.hundredths (201 / 201 : ℚ) = Toon.hundredths (202 / 201 : ℚ) := by
    have hone : ⌊(201 / 201 * 100 + 1 / 2 : ℚ)⌋ = 100 := by norm_num
    have hmore : ⌊(202 / 201 * 100 + 1 / 2 : ℚ)⌋ = 100 := by norm_num
    rw [Toon.hundredths_eq (by norm_num), Toon.hundredths_eq (by norm_num), hone, hmore]
  have hobject : Toon.ofMetadata (sampleLongRecord 202) = Toon.ofMetadata (sampleLongRecord 201) :=
    Toon.ofMetadata_mean (m := sampleLongRecord 201) hrounded
  have hlookup (name : String) : (Toon.ofMetadata (sampleLongRecord 201)).lookup name =
      (Toon.ofMetadata (sampleLongRecord 202)).lookup name := by
    rw [hobject]
  refine ⟨_, _, hm, hm', hlookup, ?_, ?_⟩
  · rw [hmean, hmean]
    norm_num
  · exact analyzeUnit_determined _ _ _ _ _ _ _ _ _ _ _ _ (by decide) (by decide) hm hm' hlookup

end Analyzer

end CodeRisk
