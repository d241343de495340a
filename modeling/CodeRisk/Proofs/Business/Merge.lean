import CodeRisk.Proofs.Business
import Mathlib.Logic.Relation

/-!
# Joined and rearranged units

A unit with the declarations and the code of two units has the figures of both, merged
(`SourceUnit.IsJoin.business_eq`). The criticality of each part is cut already, but what a cut takes
away from a part the cut of the whole takes away too (`min_add_min`).

A rearrangement of the types, the methods, the annotations of a declaration or the code outside
methods changes nothing but the order of the business methods (`SourceUnit.business_rearranged`).
-/
namespace CodeRisk

/-! ## Exceptions in several statements -/

theorem Stmt.anyHandles_eq_any_handlesExceptions (ss : List Stmt) :
    Stmt.anyHandles ss = ss.any Stmt.handlesExceptions := by
  induction ss with
  | nil => rfl
  | cons s ss ih => rw [Stmt.anyHandles, ih, List.any_cons]

/-! ## Joined units -/

namespace SourceUnit

/-- A unit with the declarations and the code of two units, those of the first one first. -/
structure IsJoin (u v w : SourceUnit) : Prop where
  types : w.types = u.types ++ v.types
  methods : w.methods = u.methods ++ v.methods
  otherCode : w.otherCode = u.otherCode ++ v.otherCode

namespace IsJoin
variable {u v w : SourceUnit} (h : u.IsJoin v w)
include h

/-- There are the signs of both units, though the types of the second one now come before the
methods of the first. -/
theorem businessSigns_perm : w.businessSigns.Perm (u.businessSigns ++ v.businessSigns) := by
  rw [businessSigns, h.types, h.methods, List.flatMap_append, List.flatMap_append, businessSigns,
    businessSigns, List.append_assoc, List.append_assoc]
  exact (List.perm_append_comm_assoc ..).append_left _

theorem methodNames_eq :
    w.businessSigns.filterMap BusinessSign.methodName? =
      u.businessSigns.filterMap BusinessSign.methodName? ++
        v.businessSigns.filterMap BusinessSign.methodName? := by
  rw [filterMap_methodName?_businessSigns, filterMap_methodName?_businessSigns,
    filterMap_methodName?_businessSigns, h.methods, List.filter_append, List.map_append]

theorem handlesExceptions_eq :
    w.handlesExceptions = (u.handlesExceptions || v.handlesExceptions) := by
  simp only [handlesExceptions, h.methods, h.otherCode, Stmt.anyHandles_eq_any_handlesExceptions,
    List.filterMap_append, List.any_append]
  ac_rfl

end IsJoin

/-! ## Rearranged units -/

/-- One list of a unit comes in another order. -/
inductive Rearrangement (u : SourceUnit) : SourceUnit → Prop where
  | types {ts : List TypeDecl} (h : u.types.Perm ts) : Rearrangement u { u with types := ts }
  | methods {ms : List MethodDecl} (h : u.methods.Perm ms) :
      Rearrangement u { u with methods := ms }
  | otherCode {code : List Stmt} (h : u.otherCode.Perm code) :
      Rearrangement u { u with otherCode := code }
  | typeAnnotations {t : TypeDecl} {before after : List TypeDecl} {names : List String}
      (h : u.types = before ++ t :: after) (hnames : t.annotations.Perm names) :
      Rearrangement u { u with types := before ++ { t with annotations := names } :: after }
  | methodAnnotations {m : MethodDecl} {before after : List MethodDecl} {names : List String}
      (h : u.methods = before ++ m :: after) (hnames : m.annotations.Perm names) :
      Rearrangement u { u with methods := before ++ { m with annotations := names } :: after }

/-- Two units have the same signs, in whatever order, and handle exceptions or not alike. -/
structure SameSigns (u v : SourceUnit) : Prop where
  signs : u.businessSigns.Perm v.businessSigns
  exceptions : u.handlesExceptions = v.handlesExceptions

theorem SameSigns.refl (u : SourceUnit) : u.SameSigns u :=
  ⟨.refl _, rfl⟩

theorem SameSigns.trans {u v w : SourceUnit} (h : u.SameSigns v) (h' : v.SameSigns w) :
    u.SameSigns w :=
  ⟨h.signs.trans h'.signs, h.exceptions.trans h'.exceptions⟩

theorem flatMap_perm_replace {α β : Type} (f : α → List β) (before after : List α) {x y : α}
    (h : (f x).Perm (f y)) :
    ((before ++ x :: after).flatMap f).Perm ((before ++ y :: after).flatMap f) := by
  rw [List.flatMap_append, List.flatMap_append, List.flatMap_cons, List.flatMap_cons]
  exact (h.append_right _).append_left _

/-- **One rearrangement** leaves the signs as they are. -/
theorem Rearrangement.sameSigns {u v : SourceUnit} (h : u.Rearrangement v) : u.SameSigns v := by
  cases h with
  | types h =>
    exact ⟨(h.flatMap_right _).append_right _, rfl⟩
  | methods h =>
    -- the bodies come in another order too, which no search for one of them sees
    refine ⟨(h.flatMap_right _).append_left _, ?_⟩
    rw [handlesExceptions, (h.filterMap _).any_eq]
    rfl
  | otherCode h =>
    refine ⟨.refl _, ?_⟩
    simp only [handlesExceptions, Stmt.anyHandles_eq_any_handlesExceptions, h.any_eq]
  | @typeAnnotations t before after names h hnames =>
    refine ⟨?_, rfl⟩
    rw [businessSigns, h]
    refine (flatMap_perm_replace _ _ _ ?_).append_right _
    exact (hnames.filter _).map _
  | @methodAnnotations m before after names h hnames =>
    constructor
    · rw [businessSigns, h]
      refine (flatMap_perm_replace _ _ _ ?_).append_left _
      exact ((hnames.filter _).map _).append_left _
    · simp only [handlesExceptions, h, List.filterMap_append, List.filterMap_cons]

/-- **Any number of rearrangements** leaves the signs as they are. -/
theorem sameSigns_of_rearrangements {u v : SourceUnit}
    (h : Relation.ReflTransGen Rearrangement u v) : u.SameSigns v := by
  induction h with
  | refl => exact .refl u
  | tail _ hstep ih => exact ih.trans hstep.sameSigns

end SourceUnit

/-! ## Figures -/

section Exact
variable {κ : Type} [Field κ] [LinearOrder κ]

/-- The figures of two units together. -/
def BusinessComplexity.merge (b c : BusinessComplexity κ) : BusinessComplexity κ where
  criticality := min 10.0 (b.criticality + c.criticality)
  hasBusinessAnnotations := b.hasBusinessAnnotations || c.hasBusinessAnnotations
  businessMethodCount := b.businessMethodCount + c.businessMethodCount
  validationComplexity := b.validationComplexity + c.validationComplexity
  transactionHandling := b.transactionHandling || c.transactionHandling
  exceptionHandling := b.exceptionHandling || c.exceptionHandling
  businessMethods := b.businessMethods ++ c.businessMethods

variable [IsStrictOrderedRing κ]

/-- The cut of a sum takes away whatever a cut of its parts has taken away before. -/
theorem min_add_min {a b limit : κ} (ha : 0 ≤ a) (hb : 0 ≤ b) (hlimit : 0 ≤ limit) :
    min limit (min limit a + min limit b) = min limit (a + b) := by
  -- a part that reaches the limit fills the sum by itself, as the other one is not negative
  rcases le_total limit a with hcut | ha'
  · have hrest : 0 ≤ min limit b := le_min hlimit hb
    rw [min_eq_left hcut, min_eq_left (by linarith), min_eq_left (by linarith)]
  · rcases le_total limit b with hcut | hb'
    · rw [min_eq_right ha', min_eq_left hcut, min_eq_left (by linarith), min_eq_left (by linarith)]
    · rw [min_eq_right ha', min_eq_right hb']

variable [FloorRing κ]

namespace SourceUnit
open BusinessSign

omit [LinearOrder κ] [IsStrictOrderedRing κ] [FloorRing κ] in
theorem totalWeight_of_perm {u v : SourceUnit} (h : u.businessSigns.Perm v.businessSigns) :
    u.totalWeight κ = v.totalWeight κ :=
  (h.map _).sum_eq

namespace IsJoin
variable {u v w : SourceUnit} (h : u.IsJoin v w)
include h

omit [LinearOrder κ] [IsStrictOrderedRing κ] [FloorRing κ] in
theorem totalWeight_eq : w.totalWeight κ = u.totalWeight κ + v.totalWeight κ := by
  rw [totalWeight, (h.businessSigns_perm.map _).sum_eq, List.map_append, List.sum_append,
    totalWeight, totalWeight]

theorem criticality_eq :
    (@business κ (.exact κ) w).criticality =
      min 10.0 ((@business κ (.exact κ) u).criticality + (@business κ (.exact κ) v).criticality) := by
  have hten : (10.0 : κ) = 10 := by norm_num
  rw [SourceUnit.criticality_eq, SourceUnit.criticality_eq, SourceUnit.criticality_eq,
    h.totalWeight_eq, hten, min_add_min totalWeight_nonneg totalWeight_nonneg (by norm_num)]

/-- **The figures of joined units** are those of the parts, merged. -/
theorem business_eq :
    @business κ (.exact κ) w = (@business κ (.exact κ) u).merge (@business κ (.exact κ) v) := by
  have hany (p : BusinessSign → Bool) :
      w.businessSigns.any p = (u.businessSigns.any p || v.businessSigns.any p) := by
    rw [h.businessSigns_perm.any_eq, List.any_append]
  have hcount : w.businessSigns.count validation =
      u.businessSigns.count validation + v.businessSigns.count validation := by
    rw [h.businessSigns_perm.count_eq, List.count_append]
  refine (BusinessComplexity.mk.injEq ..).mpr
    ⟨h.criticality_eq, hany isAnnotated, ?_, ?_, ?_, h.handlesExceptions_eq, h.methodNames_eq⟩
  · rw [h.methodNames_eq, List.length_append, UInt32.ofNat_add]
    rfl
  · rw [hcount, UInt32.ofNat_add]
    rfl
  · rw [List.contains_eq_any_beq, hany, ← List.contains_eq_any_beq, ← List.contains_eq_any_beq]
    rfl

end IsJoin

/-- Units with the same signs have the same figures but for the order of the business methods. -/
theorem SameSigns.business_eq {u v : SourceUnit} (h : u.SameSigns v) :
    @business κ (.exact κ) v =
      { @business κ (.exact κ) u with
        businessMethods := (@business κ (.exact κ) v).businessMethods } := by
  refine (BusinessComplexity.mk.injEq ..).mpr
    ⟨?_, h.signs.symm.any_eq, ?_, ?_, ?_, h.exceptions.symm, rfl⟩
  · show (@business κ (.exact κ) v).criticality = (@business κ (.exact κ) u).criticality
    rw [criticality_eq, criticality_eq, totalWeight_of_perm h.signs]
  · rw [(h.signs.symm.filterMap methodName?).length_eq]
    rfl
  · rw [h.signs.symm.count_eq]
    rfl
  · rw [h.signs.symm.contains_eq]
    rfl

/-- **Joined and rearranged units.** The figures of a unit with the declarations and the code of two
others are theirs, merged: counts add up, names follow one another, flags are joined, and the
criticalities add up to ten at most. Each criticality is a number of halves, so that no rounding
gets in between. A rearrangement of the lists of a unit leaves all its figures as they are, except
that the names of business methods may come in another order. -/
theorem business_joined_and_rearranged :
    (∀ u v w : SourceUnit, u.IsJoin v w →
      @business κ (.exact κ) w = (@business κ (.exact κ) u).merge (@business κ (.exact κ) v)) ∧
    (∀ u : SourceUnit, ∃ n : ℕ, n ≤ 20 ∧ (@business κ (.exact κ) u).criticality = n / 2) ∧
    ∀ u v : SourceUnit, Relation.ReflTransGen Rearrangement u v →
      let b := @business κ (.exact κ) u
      let c := @business κ (.exact κ) v
      c = { b with businessMethods := c.businessMethods } ∧
        b.businessMethods.Perm c.businessMethods := by
  refine ⟨fun _ _ _ h => h.business_eq, exists_half_criticality, ?_⟩
  intro u v h b c
  have hsigns := sameSigns_of_rearrangements h
  exact ⟨hsigns.business_eq, hsigns.signs.filterMap methodName?⟩

/-- A unit with a weight above ten. -/
def storeUnit : SourceUnit :=
  { SourceUnit.empty with
    types := [⟨"Store", .ofClass,
      ["Service", "Controller", "Component", "Repository", "RestController"], ⟨1, 20⟩⟩]
    methods := [
      { name := "saveOrder", parameters := [], throws := [],
        annotations := ["Override", "Transactional"], body := none, span := ⟨2, 9⟩ },
      { name := "findOrder", parameters := [], throws := [], annotations := [],
        body := none, span := ⟨11, 19⟩ }] }

/-- A unit with a weight of two and with code outside methods. -/
def registryUnit : SourceUnit :=
  { SourceUnit.empty with
    types := [⟨"Registry", .ofClass, ["Data", "Component"], ⟨1, 9⟩⟩]
    otherCode := [.simple [], .throw .atom] }

/-- The two units joined. -/
def joinedUnit : SourceUnit :=
  { SourceUnit.empty with
    types := storeUnit.types ++ registryUnit.types
    methods := storeUnit.methods ++ registryUnit.methods
    otherCode := storeUnit.otherCode ++ registryUnit.otherCode }

theorem business_joined_and_rearranged_sample :
    let b := @business ℚ (.exact ℚ) joinedUnit
    let c := @business ℚ (.exact ℚ) { joinedUnit with methods := joinedUnit.methods.reverse }
    b = (@business ℚ (.exact ℚ) storeUnit).merge (@business ℚ (.exact ℚ) registryUnit) ∧
      b.criticality = 10 ∧ b.exceptionHandling ∧ c.criticality = 10 ∧
      c.businessMethodCount = b.businessMethodCount ∧
      b.businessMethods.Perm c.businessMethods := by
  obtain ⟨hjoin, -, hturn⟩ := business_joined_and_rearranged (κ := ℚ)
  have hmerge := hjoin storeUnit registryUnit joinedUnit ⟨rfl, rfl, rfl⟩
  obtain ⟨hsame, hnames⟩ := hturn joinedUnit
    { joinedUnit with methods := joinedUnit.methods.reverse }
    (.single (.methods (List.reverse_perm _).symm))
  have hcriticality : (@business ℚ (.exact ℚ) joinedUnit).criticality = 10 := by
    have hsigns : joinedUnit.businessSigns =
        [.annotated "Service", .annotated "Controller", .annotated "Component",
          .annotated "Repository", .annotated "RestController", .annotated "Component",
          .businessMethod "saveOrder", .transaction, .businessMethod "findOrder"] := by
      decide +kernel
    rw [criticality_eq, totalWeight, hsigns]
    norm_num [exactWeight]
  refine ⟨hmerge, hcriticality, ?_, ?_, ?_, hnames⟩
  · rw [hmerge]
    rfl
  · rw [hsame]
    exact hcriticality
  · rw [hsame]

end SourceUnit

end Exact

end CodeRisk
