import CodeRisk.Business
import CodeRisk.Proofs.ExactScale
import Mathlib.Algebra.Order.BigOperators.Group.List
import Mathlib.Tactic.Linarith

/-!
# Signs and criticality

All figures of business code except the one for exceptions are read off one list of signs. So the
names of business methods, the number of validations and the flags say what they say about the
methods and annotations of a unit, and in exact arithmetic the criticality is the sum of the weights
of the signs, cut at ten (`SourceUnit.criticality_eq`). More signs leave no figure smaller
(`SourceUnit.criticality_le_of_sublist`).
-/
namespace CodeRisk

/-! ## Which signs there are -/

namespace BusinessSign

theorem filterMap_methodName?_ofMethod (m : MethodDecl) :
    (ofMethod m).filterMap methodName? =
      if isBusinessMethodName m.name then [m.name] else [] := by
  have htransaction : ((m.annotations.filter isTransactional).map fun _ => transaction).filterMap
      methodName? = [] := by
    refine List.filterMap_eq_nil_iff.mpr fun s hs => ?_
    obtain ⟨_, _, rfl⟩ := List.mem_map.mp hs
    rfl
  rw [ofMethod, List.filterMap_append, List.filterMap_append, htransaction]
  cases isBusinessMethodName m.name <;> cases m.hasValidation <;> rfl

theorem count_validation_ofMethod (m : MethodDecl) :
    (ofMethod m).count validation = if m.hasValidation then 1 else 0 := by
  have htransaction : ((m.annotations.filter isTransactional).map fun _ => transaction).count
      validation = 0 := by
    simp [List.count_eq_zero]
  rw [ofMethod, List.count_append, List.count_append, htransaction]
  cases isBusinessMethodName m.name <;> cases m.hasValidation <;> simp

end BusinessSign

namespace SourceUnit
open BusinessSign
variable (u : SourceUnit)

/-- The names among the signs are those of the business methods. -/
theorem filterMap_methodName?_businessSigns :
    u.businessSigns.filterMap methodName? =
      (u.methods.filter fun m => isBusinessMethodName m.name).map (·.name) := by
  have htypes : (u.types.flatMap ofType).filterMap methodName? = [] := by
    refine List.filterMap_eq_nil_iff.mpr fun s hs => ?_
    obtain ⟨t, _, hs⟩ := List.mem_flatMap.mp hs
    obtain ⟨_, _, rfl⟩ := List.mem_map.mp hs
    rfl
  rw [businessSigns, List.filterMap_append, htypes, List.nil_append]
  induction u.methods with
  | nil => rfl
  | cons m ms ih =>
    rw [List.flatMap_cons, List.filterMap_append, ih, filterMap_methodName?_ofMethod,
      List.filter_cons]
    split <;> rfl

/-- There is a sign of validation for each method that checks its input. -/
theorem count_validation_businessSigns :
    u.businessSigns.count validation = u.methods.countP MethodDecl.hasValidation := by
  have htypes : (u.types.flatMap ofType).count validation = 0 := by
    simp [List.count_eq_zero, ofType]
  rw [businessSigns, List.count_append, htypes, Nat.zero_add]
  induction u.methods with
  | nil => rfl
  | cons m ms ih =>
    rw [List.flatMap_cons, List.count_append, ih, count_validation_ofMethod, List.countP_cons,
      Nat.add_comm]

/-- There is no sign at all if there is no annotation of business code, no business method, no
method that checks its input and no annotation for transactions. -/
theorem businessSigns_eq_nil_iff :
    u.businessSigns = [] ↔
      (∀ t ∈ u.types, ∀ name ∈ t.annotations, marksBusiness name = false) ∧
        ∀ m ∈ u.methods, isBusinessMethodName m.name = false ∧ m.hasValidation = false ∧
          ∀ name ∈ m.annotations, isTransactional name = false := by
  have htype (t : TypeDecl) :
      ofType t = [] ↔ ∀ name ∈ t.annotations, marksBusiness name = false := by
    simp [ofType]
  have hmethod (m : MethodDecl) : ofMethod m = [] ↔
      isBusinessMethodName m.name = false ∧ m.hasValidation = false ∧
        ∀ name ∈ m.annotations, isTransactional name = false := by
    simp [ofMethod]
  simp only [businessSigns, List.append_eq_nil_iff, List.flatMap_eq_nil_iff, htype, hmethod]

/-! ### More signs -/

section Sublist
variable {ν : Type} [Scale ν] {u v : SourceUnit} (h : u.businessSigns.Sublist v.businessSigns)
include h

theorem hasBusinessAnnotations_of_sublist :
    (u.business : BusinessComplexity ν).hasBusinessAnnotations →
      (v.business : BusinessComplexity ν).hasBusinessAnnotations := by
  intro hu
  obtain ⟨s, hs, hannotated⟩ := List.any_eq_true.mp hu
  exact List.any_eq_true.mpr ⟨s, h.subset hs, hannotated⟩

theorem transactionHandling_of_sublist :
    (u.business : BusinessComplexity ν).transactionHandling →
      (v.business : BusinessComplexity ν).transactionHandling := by
  intro hu
  exact List.contains_iff_mem.mpr (h.subset (List.contains_iff_mem.mp hu))

theorem length_businessMethods_le_of_sublist :
    (u.business : BusinessComplexity ν).businessMethods.length ≤
      (v.business : BusinessComplexity ν).businessMethods.length :=
  (h.filterMap methodName?).length_le

theorem countP_hasValidation_le_of_sublist :
    u.methods.countP MethodDecl.hasValidation ≤ v.methods.countP MethodDecl.hasValidation := by
  rw [← count_validation_businessSigns, ← count_validation_businessSigns]
  exact h.count_le validation

end Sublist

end SourceUnit

/-! ## Exact criticality -/

section Exact
variable {κ : Type} [Field κ] [LinearOrder κ] [IsStrictOrderedRing κ] [FloorRing κ]

namespace BusinessSign

/-- The weight of a sign in exact arithmetic. -/
def exactWeight : BusinessSign → κ
  | annotated _ => 2.0
  | businessMethod _ => 1.0
  | validation => 0.5
  | transaction => 1.5

omit [IsStrictOrderedRing κ] in
theorem weight_exact (s : BusinessSign) : @weight κ (.exact κ) s = s.exactWeight := by
  cases s <;> rfl

omit [FloorRing κ] in
theorem exactWeight_pos (s : BusinessSign) : (0 : κ) < s.exactWeight := by
  cases s <;> norm_num [exactWeight]

omit [LinearOrder κ] [IsStrictOrderedRing κ] [FloorRing κ] in
theorem exists_half_exactWeight [CharZero κ] (s : BusinessSign) :
    ∃ n : ℕ, (s.exactWeight : κ) = n / 2 := by
  cases s with
  | annotated => exact ⟨4, by norm_num [exactWeight]⟩
  | businessMethod => exact ⟨2, by norm_num [exactWeight]⟩
  | validation => exact ⟨1, by norm_num [exactWeight]⟩
  | transaction => exact ⟨3, by norm_num [exactWeight]⟩

end BusinessSign

namespace SourceUnit
open BusinessSign
variable (κ) in
/-- The weights of all signs of a unit together. -/
def totalWeight (u : SourceUnit) : κ :=
  (u.businessSigns.map exactWeight).sum

variable {u v : SourceUnit}

omit [FloorRing κ] in
theorem exactWeight_nonneg_of_mem {w : κ} (hw : w ∈ u.businessSigns.map exactWeight) : 0 ≤ w := by
  obtain ⟨s, -, rfl⟩ := List.mem_map.mp hw
  exact (exactWeight_pos s).le

omit [FloorRing κ] in
theorem exactWeight_le_totalWeight {s : BusinessSign} (hs : s ∈ u.businessSigns) :
    exactWeight s ≤ u.totalWeight κ :=
  List.single_le_sum (fun _ hw => exactWeight_nonneg_of_mem hw) _ (List.mem_map_of_mem hs)

omit [FloorRing κ] in
theorem totalWeight_nonneg : 0 ≤ u.totalWeight κ :=
  List.sum_nonneg fun _ hw => exactWeight_nonneg_of_mem hw

omit [FloorRing κ] in
theorem exists_half_totalWeight (u : SourceUnit) : ∃ n : ℕ, u.totalWeight κ = n / 2 := by
  rw [totalWeight]
  induction u.businessSigns with
  | nil => exact ⟨0, by simp⟩
  | cons s ss ih =>
    obtain ⟨n, hn⟩ := exists_half_exactWeight (κ := κ) s
    obtain ⟨k, hk⟩ := ih
    exact ⟨n + k, by rw [List.map_cons, List.sum_cons, hn, hk, Nat.cast_add, add_div]⟩

/-- **The criticality** is the weight of all signs, cut at ten. -/
theorem criticality_eq (u : SourceUnit) :
    (@business κ (.exact κ) u).criticality = min 10 (u.totalWeight κ) := by
  have hten : (10.0 : κ) = 10 := by norm_num
  have hzero : (0.0 : κ) = 0 := by norm_num
  have hsum : @Scale.sum κ (.exact κ) (u.businessSigns.map (@weight κ (.exact κ))) =
      u.totalWeight κ := by
    rw [Scale.sum_exact, totalWeight, funext (weight_exact (κ := κ))]
  show @Scale.clamp κ (.exact κ) 0.0 10.0 (@Scale.sum κ (.exact κ) _) = _
  rw [hsum, hten, hzero, Scale.clamp_exact (by norm_num)]
  exact max_eq_right (le_min (by norm_num) totalWeight_nonneg)

theorem criticality_nonneg : 0 ≤ (@business κ (.exact κ) u).criticality := by
  rw [criticality_eq]
  exact le_min (by norm_num) totalWeight_nonneg

theorem criticality_le : (@business κ (.exact κ) u).criticality ≤ 10 := by
  rw [criticality_eq]
  exact min_le_left ..

/-- The criticality is a number of halves, at most twenty. -/
theorem exists_half_criticality (u : SourceUnit) :
    ∃ n : ℕ, n ≤ 20 ∧ (@business κ (.exact κ) u).criticality = n / 2 := by
  obtain ⟨n, hn⟩ := exists_half_totalWeight (κ := κ) u
  refine ⟨min 20 n, Nat.min_le_left .., ?_⟩
  have hten : (10 : κ) = (20 : ℕ) / 2 := by norm_num
  rw [criticality_eq, hn, hten, min_div_div_right (by norm_num), Nat.cast_min]

/-- A sign of weight up to ten is found again in the criticality. -/
theorem exactWeight_le_criticality {s : BusinessSign} (hs : s ∈ u.businessSigns)
    (hten : exactWeight s ≤ (10 : κ)) :
    exactWeight s ≤ (@business κ (.exact κ) u).criticality := by
  rw [criticality_eq]
  exact le_min hten (exactWeight_le_totalWeight hs)

theorem two_le_criticality (h : (@business κ (.exact κ) u).hasBusinessAnnotations) :
    2 ≤ (@business κ (.exact κ) u).criticality := by
  obtain ⟨s, hs, hannotated⟩ := List.any_eq_true.mp h
  cases s with
  | annotated name =>
    have hle : (2.0 : κ) ≤ (@business κ (.exact κ) u).criticality :=
      exactWeight_le_criticality hs (show (2.0 : κ) ≤ 10 by norm_num)
    linarith
  | _ => cases hannotated

theorem three_halves_le_criticality (h : (@business κ (.exact κ) u).transactionHandling) :
    1.5 ≤ (@business κ (.exact κ) u).criticality := by
  have hs : transaction ∈ u.businessSigns := List.contains_iff_mem.mp h
  exact exactWeight_le_criticality hs (show (1.5 : κ) ≤ 10 by norm_num)

theorem criticality_eq_zero_iff :
    (@business κ (.exact κ) u).criticality = 0 ↔ u.businessSigns = [] := by
  constructor
  · intro h
    rw [criticality_eq] at h
    by_contra hne
    obtain ⟨s, hs⟩ := List.exists_mem_of_ne_nil _ hne
    have hpos : 0 < u.totalWeight κ := (exactWeight_pos s).trans_le (exactWeight_le_totalWeight hs)
    exact (lt_min (by norm_num) hpos).ne' h
  · intro h
    rw [criticality_eq, totalWeight, h]
    simp

/-- More signs leave the criticality no smaller. -/
theorem criticality_le_of_sublist (h : u.businessSigns.Sublist v.businessSigns) :
    (@business κ (.exact κ) u).criticality ≤ (@business κ (.exact κ) v).criticality := by
  rw [criticality_eq, criticality_eq]
  refine min_le_min_left _ ?_
  exact (h.map exactWeight).sum_le_sum fun _ hw => exactWeight_nonneg_of_mem hw

end SourceUnit

end Exact

end CodeRisk
