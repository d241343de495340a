import CodeRisk.Proofs.Complexity.Method
import CodeRisk.Proofs.ExactScale
import Mathlib.Algebra.Order.BigOperators.Group.List

/-!
# The complexity of a file

A file is walked in one pass over a shared tally. Nothing that one method counts reaches another
one: after any number of methods the tally is put together from the figures that each method has by
itself (`Tally.foldl_method`), and there are no counters left when the code outside methods is
walked. So the figures of a file are those of its methods, added or compared, together with the
branches and the nesting of the other code (`SourceUnit.complexity_eq_isolated`).
-/
namespace CodeRisk

/-- The unit with some code outside methods and nothing else. -/
def SourceUnit.ofCode (ss : List Stmt) : SourceUnit :=
  { SourceUnit.empty with otherCode := ss }

/-! ## The pass over the methods -/

namespace Tally

/-- **The tally after some methods**, put together from the methods one by one. -/
theorem foldl_method (ms : List MethodDecl) (t : Tally) (ht : t.current = none) :
    ms.foldl method t =
      { cyclomatic := t.cyclomatic + (ms.map fun m => m.complexity.cyclomatic - 1).sum
        cognitive := t.cognitive + (ms.map fun m => m.complexity.cognitive).sum
        maxNesting :=
          max t.maxNesting (Counter.largest (ms.map fun m => Stmt.level m.statements))
        methodCount := t.methodCount + .ofNat ms.length
        methodLines := t.methodLines + (ms.map fun m => m.span.lineCount).sum
        complexMethods :=
          t.complexMethods ++ (ms.map MethodDecl.complexity).filter MethodComplexity.isComplex
        current := none } := by
  -- the tally is generalized: each method starts from what those before it have left
  induction ms generalizing t with
  | nil =>
    obtain ⟨_, _, _, _, _, _, current⟩ := t
    obtain rfl : current = none := ht
    simp
  | cons m ms ih =>
    rw [List.foldl_cons, ih _ (by rw [method_eq]), method_eq]
    rw [Tally.mk.injEq]
    refine ⟨?_, ?_, ?_, ?_, ?_, ?_, rfl⟩
    · rw [List.map_cons, List.sum_cons, UInt32.add_assoc]
    · rw [List.map_cons, List.sum_cons, UInt32.add_assoc]
    · rw [List.map_cons, Counter.largest_cons, Counter.max_assoc]
    · rw [List.length_cons, ← Counter.ofNat_succ]
      grind
    · rw [List.map_cons, List.sum_cons, Nat.add_assoc]
    · rw [List.map_cons, List.append_assoc, ← List.filter_append]
      rfl

end Tally

/-! ## The figures of the whole file -/

namespace SourceUnit

/-- The branches of all methods and of the code outside them, and one more. -/
def exactCyclomatic (u : SourceUnit) : Nat :=
  1 + (u.methods.map fun m => Outline.branches m.occurrences).sum +
    Outline.branches (Stmt.occurrences u.otherCode)

/-- The weight of all methods. -/
def exactCognitive (u : SourceUnit) : Nat :=
  (u.methods.map fun m => Outline.cognition m.occurrences).sum

/-- All nodes of the code of a unit. -/
def occurrences (u : SourceUnit) : List (Occurrence Construct) :=
  u.methods.flatMap MethodDecl.occurrences ++ Stmt.occurrences u.otherCode

theorem sum_map_flatMap {α β : Type} (f : β → Nat) (g : α → List β) (xs : List α) :
    ((xs.flatMap g).map f).sum = (xs.map fun x => ((g x).map f).sum).sum := by
  rw [List.map_flatMap, List.flatMap_def, List.sum_flatten, List.map_map]
  rfl

theorem exactCyclomatic_eq (u : SourceUnit) :
    u.exactCyclomatic = 1 + Outline.branches u.occurrences := by
  rw [exactCyclomatic, occurrences, Outline.branches, Outline.branches, List.map_append,
    List.sum_append, sum_map_flatMap, Nat.add_assoc]
  rfl

theorem exactCognitive_eq (u : SourceUnit) :
    u.exactCognitive = Outline.cognition (u.methods.flatMap MethodDecl.occurrences) := by
  rw [exactCognitive, Outline.cognition, sum_map_flatMap]
  rfl

/-- What is summed up over a file fits into counters. -/
structure Fits (u : SourceUnit) : Prop where
  methods : u.methods.length < Counter.limit
  cyclomatic : u.exactCyclomatic < Counter.limit
  cognitive : u.exactCognitive < Counter.limit

instance (u : SourceUnit) : Decidable u.Fits :=
  decidable_of_iff (u.methods.length < Counter.limit ∧ u.exactCyclomatic < Counter.limit ∧
      u.exactCognitive < Counter.limit)
    ⟨fun ⟨h₁, h₂, h₃⟩ => ⟨h₁, h₂, h₃⟩, fun h => ⟨h.methods, h.cyclomatic, h.cognitive⟩⟩

/-- **The tally of a file**, put together from its methods and the code outside them. -/
theorem tally_eq (u : SourceUnit) :
    u.tally =
      { cyclomatic := .ofNat u.exactCyclomatic
        cognitive := .ofNat u.exactCognitive
        maxNesting :=
          max (Counter.largest (u.methods.map fun m => Stmt.level m.statements))
            (Stmt.level u.otherCode)
        methodCount := .ofNat u.methods.length
        methodLines := (u.methods.map fun m => m.span.lineCount).sum
        complexMethods := (u.methods.map MethodDecl.complexity).filter MethodComplexity.isComplex
        current := none } := by
  rw [tally, Tally.stmts_eq_grow, Tally.foldl_method _ _ rfl, Tally.grow, Tally.mk.injEq]
  refine ⟨?_, ?_, ?_, ?_, ?_, rfl, rfl⟩
  · show 1 + (u.methods.map fun m => m.complexity.cyclomatic - 1).sum + _ = _
    simp only [MethodDecl.cyclomatic_sub_one, Counter.sum_ofNat, exactCyclomatic, UInt32.ofNat_add]
    rfl
  · show 0 + (u.methods.map fun m => m.complexity.cognitive).sum = _
    simp only [MethodDecl.cognitive_eq, Counter.sum_ofNat, exactCognitive]
    exact UInt32.zero_add _
  · exact congrArg (max · _) (Counter.zero_max _)
  · exact UInt32.zero_add _
  · exact Nat.zero_add _

/-- The nesting depth of a file with one statement outside methods. -/
theorem maxNestingDepth_ofCode {ν : Type} [Scale ν] (s : Stmt) :
    ((ofCode [s]).complexity : CodeComplexity ν).maxNestingDepth = Stmt.level [s] := by
  show (ofCode [s]).tally.maxNesting = _
  rw [tally_eq]
  exact Counter.zero_max _

/-- The deepest level in the code of a unit. -/
def exactNesting (u : SourceUnit) : Nat :=
  Outline.nesting u.occurrences

/-- The deepest level of some methods, if it fits into a counter. -/
theorem toNat_largest_level {ms : List MethodDecl}
    (h : Outline.nesting (ms.flatMap MethodDecl.occurrences) < Counter.limit) :
    (Counter.largest (ms.map fun m => Stmt.level m.statements)).toNat =
      Outline.nesting (ms.flatMap MethodDecl.occurrences) := by
  induction ms with
  | nil => rfl
  | cons m ms ih =>
    rw [List.flatMap_cons, Outline.nesting_append] at h ⊢
    have hm : Outline.nesting (Stmt.occurrences m.statements) < Counter.limit := by
      exact (Nat.le_max_left ..).trans_lt h
    rw [List.map_cons, Counter.largest_cons, Counter.toNat_max, Stmt.toNat_level hm,
      ih ((Nat.le_max_right ..).trans_lt h)]
    rfl

theorem toNat_maxNestingDepth {ν : Type} [Scale ν] {u : SourceUnit}
    (h : u.exactNesting < Counter.limit) :
    (u.complexity : CodeComplexity ν).maxNestingDepth.toNat = u.exactNesting := by
  rw [exactNesting, occurrences, Outline.nesting_append] at h ⊢
  show u.tally.maxNesting.toNat = _
  rw [tally_eq, Counter.toNat_max, toNat_largest_level ((Nat.le_max_left ..).trans_lt h),
    Stmt.toNat_level ((Nat.le_max_right ..).trans_lt h)]

/-- The total number of lines of all methods. -/
def methodLines (u : SourceUnit) : Nat :=
  (u.methods.map fun m => m.span.lineCount).sum

variable {ν : Type} [Scale ν] {u : SourceUnit}

namespace Fits

theorem toNat_totalMethods (h : u.Fits) :
    (u.complexity : CodeComplexity ν).totalMethods.toNat = u.methods.length := by
  show u.tally.methodCount.toNat = _
  rw [tally_eq]
  exact Counter.toNat_ofNat_of_lt h.methods

theorem toNat_cyclomatic (h : u.Fits) :
    (u.complexity : CodeComplexity ν).cyclomatic.toNat = u.exactCyclomatic := by
  show u.tally.cyclomatic.toNat = _
  rw [tally_eq]
  exact Counter.toNat_ofNat_of_lt h.cyclomatic

theorem toNat_cognitive (h : u.Fits) :
    (u.complexity : CodeComplexity ν).cognitive.toNat = u.exactCognitive := by
  show u.tally.cognitive.toNat = _
  rw [tally_eq]
  exact Counter.toNat_ofNat_of_lt h.cognitive

/-- The branches of a method are among those of the file. -/
theorem branches_lt (h : u.Fits) {m : MethodDecl} (hm : m ∈ u.methods) :
    1 + Outline.branches m.occurrences ≤ u.exactCyclomatic ∧
      1 + Outline.branches m.occurrences < Counter.limit := by
  have hle : Outline.branches m.occurrences ≤
      (u.methods.map fun m => Outline.branches m.occurrences).sum :=
    List.le_sum_of_mem (List.mem_map_of_mem hm)
  have hlt := h.cyclomatic
  rw [exactCyclomatic] at hlt ⊢
  omega

/-- The weight of a method is part of that of the file. -/
theorem cognition_lt (h : u.Fits) {m : MethodDecl} (hm : m ∈ u.methods) :
    Outline.cognition m.occurrences ≤ u.exactCognitive ∧
      Outline.cognition m.occurrences < Counter.limit := by
  have hle : Outline.cognition m.occurrences ≤ u.exactCognitive :=
    List.le_sum_of_mem (List.mem_map_of_mem hm)
  exact ⟨hle, Nat.lt_of_le_of_lt hle h.cognitive⟩

/-- The branches of each method are what its own cyclomatic complexity says. -/
theorem map_cyclomatic (h : u.Fits) :
    (u.methods.map fun m => m.complexity.cyclomatic.toNat - 1) =
      u.methods.map fun m => Outline.branches m.occurrences := by
  refine List.map_congr_left fun m hm => ?_
  rw [MethodDecl.toNat_cyclomatic (h.branches_lt hm).2, Nat.add_sub_cancel_left]

/-- The weight of each method is its own cognitive complexity. -/
theorem map_cognitive (h : u.Fits) :
    (u.methods.map fun m => m.complexity.cognitive.toNat) =
      u.methods.map fun m => Outline.cognition m.occurrences :=
  List.map_congr_left fun _ hm => MethodDecl.toNat_cognitive (h.cognition_lt hm).2

/-- No method is more complex than the file. -/
theorem complexity_le (h : u.Fits) {m : MethodDecl} (hm : m ∈ u.methods) :
    m.complexity.cyclomatic ≤ (u.complexity : CodeComplexity ν).cyclomatic ∧
      m.complexity.cognitive ≤ (u.complexity : CodeComplexity ν).cognitive := by
  rw [UInt32.le_iff_toNat_le, UInt32.le_iff_toNat_le, h.toNat_cyclomatic, h.toNat_cognitive,
    MethodDecl.toNat_cyclomatic (h.branches_lt hm).2,
    MethodDecl.toNat_cognitive (h.cognition_lt hm).2]
  exact ⟨(h.branches_lt hm).1, (h.cognition_lt hm).1⟩

/-- The order of the methods makes no difference to what fits. -/
theorem perm {ms : List MethodDecl} (h : u.Fits) (hms : ms.Perm u.methods) :
    ({ u with methods := ms } : SourceUnit).Fits where
  methods := hms.length_eq ▸ h.methods
  cyclomatic := by
    rw [exactCyclomatic, (hms.map _).sum_nat]
    exact h.cyclomatic
  cognitive := by
    rw [exactCognitive, (hms.map _).sum_nat]
    exact h.cognitive

end Fits

/-! ## What is in the figures -/

theorem maxNestingDepth_eq (u : SourceUnit) :
    (u.complexity : CodeComplexity ν).maxNestingDepth =
      Counter.largest
        ((u.methods.map fun m => (m.alone.complexity : CodeComplexity ν).maxNestingDepth) ++
          u.otherCode.map fun s =>
            ((ofCode [s]).complexity : CodeComplexity ν).maxNestingDepth) := by
  show u.tally.maxNesting = _
  simp only [MethodDecl.maxNestingDepth_alone, maxNestingDepth_ofCode, Counter.largest_append,
    ← Stmt.level_eq_largest]
  rw [tally_eq]

theorem complexMethods_eq (u : SourceUnit) :
    (u.complexity : CodeComplexity ν).complexMethods =
      (u.methods.map MethodDecl.complexity).filter MethodComplexity.isComplex := by
  show u.tally.complexMethods = _
  rw [tally_eq]

/-- The mean length, if the methods can be counted. -/
theorem averageMethodLength_of_lt (h : u.methods.length < Counter.limit) :
    (u.complexity : CodeComplexity ν).averageMethodLength =
      if u.methods.length = 0 then Scale.ofNat 0
      else Scale.ofNat u.methodLines / Scale.ofNat u.methods.length := by
  have hcount : u.tally.methodCount.toNat = u.methods.length := by
    rw [tally_eq]
    exact Counter.toNat_ofNat_of_lt h
  have hlines : u.tally.methodLines = u.methodLines := by rw [tally_eq]; rfl
  have hzero : u.tally.methodCount = 0 ↔ u.methods.length = 0 := by
    rw [← UInt32.toNat_inj, hcount]
    rfl
  show (if u.tally.methodCount = 0 then _ else _) = _
  rw [hlines, hcount]
  exact if_congr hzero rfl rfl

theorem averageMethodLength_eq (h : u.Fits) :
    (u.complexity : CodeComplexity ν).averageMethodLength =
      if u.methods.length = 0 then Scale.ofNat 0
      else Scale.ofNat u.methodLines / Scale.ofNat u.methods.length :=
  averageMethodLength_of_lt h.methods

/-- In exact arithmetic the mean length times the number of methods is the number of lines. -/
theorem averageMethodLength_mul {κ : Type} [Field κ] [LinearOrder κ] [IsStrictOrderedRing κ]
    [FloorRing κ] (h : u.Fits) :
    (@complexity κ (.exact κ) u).averageMethodLength * u.methods.length = u.methodLines := by
  rw [@averageMethodLength_eq κ (.exact κ) u h]
  by_cases hzero : u.methods.length = 0
  · have hnil : u.methods = [] := List.length_eq_zero_iff.mp hzero
    rw [methodLines, hnil]
    simp
  · rw [if_neg hzero]
    exact div_mul_cancel₀ _ (Nat.cast_ne_zero.mpr hzero)

/-- The words of the thresholds say what the numbers say. -/
theorem isComplex_eq (m : MethodComplexity) :
    m.isComplex = (decide (10 < m.cyclomatic.toNat) || decide (15 < m.cognitive.toNat)) := by
  simp only [MethodComplexity.isComplex, UInt32.lt_iff_toNat_lt]
  rfl

omit [Scale ν] in
private theorem codeComplexity_ext {c d : CodeComplexity ν}
    (hcyclomatic : c.cyclomatic = d.cyclomatic) (hcognitive : c.cognitive = d.cognitive)
    (htotal : c.totalMethods = d.totalMethods)
    (haverage : c.averageMethodLength = d.averageMethodLength)
    (hnesting : c.maxNestingDepth = d.maxNestingDepth)
    (hcomplex : c.complexMethods = d.complexMethods) : c = d := by
  cases c
  cases d
  simp_all

/-- The order of the methods shows in the list of complex methods only. -/
theorem complexity_perm {ms : List MethodDecl} (h : u.Fits) (hms : ms.Perm u.methods) :
    (({ u with methods := ms } : SourceUnit).complexity : CodeComplexity ν) =
      { (u.complexity : CodeComplexity ν) with
        complexMethods := (ms.map MethodDecl.complexity).filter MethodComplexity.isComplex } := by
  have hv := h.perm hms
  apply codeComplexity_ext
  · rw [← UInt32.toNat_inj, hv.toNat_cyclomatic, h.toNat_cyclomatic, exactCyclomatic,
      exactCyclomatic, (hms.map _).sum_nat]
  · rw [← UInt32.toNat_inj, hv.toNat_cognitive, h.toNat_cognitive, exactCognitive, exactCognitive,
      (hms.map _).sum_nat]
  · rw [← UInt32.toNat_inj, hv.toNat_totalMethods, h.toNat_totalMethods, hms.length_eq]
  · rw [averageMethodLength_eq hv, averageMethodLength_eq h, methodLines, methodLines,
      hms.length_eq, (hms.map _).sum_nat]
  · rw [maxNestingDepth_eq, maxNestingDepth_eq]
    exact Counter.largest_perm ((hms.map _).append_right _)
  · exact complexMethods_eq _

/-- A file with two methods, of which the second has eleven conditions one after the other, and with
four conditions inside each other outside methods. -/
def sample : SourceUnit where
  package := none
  types := []
  methods := [.sample, {
    name := "busy"
    parameters := []
    throws := []
    annotations := []
    body := some ⟨"", List.replicate 11 (.ifElse .atom (.simple []) none)⟩
    span := ⟨11, 40⟩ }]
  otherCode := [
    .ifElse .atom (.ifElse .atom (.ifElse .atom (.ifElse .atom (.simple []) none) none) none) none]
  imports := []
  lineCount := 60

end SourceUnit

end CodeRisk
