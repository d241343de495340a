import CodeRisk.Proofs.Business
import Mathlib.Algebra.Order.Field.Basic

/-!
# The criticality by rules

Each rule of the criticality finds something a number of times: annotations of types, names of
methods, texts of methods, annotations of methods. The weight of a unit is the sum of these numbers,
each times the weight of its rule (`SourceUnit.totalWeight_eq_counts`).

The rule on transactions speaks of methods, but what is weighed is every annotation of a method. So
the criticality is what the rules say, cut at ten, as long as no method carries two such annotations
or the rules reach ten anyhow, and only then (`SourceUnit.criticality_eq_rules`).
-/
namespace CodeRisk

/-! ## What the rules look for -/

/-- A name in which, in lower case, one of the keywords stands. -/
def NamesBusiness (name : String) : Prop :=
  ∃ keyword ∈ businessKeywords, keyword.toList <:+: (Text.lower name).toList

/-- An annotation with "Transactional" somewhere in its name. -/
def NamesTransaction (name : String) : Prop :=
  "Transactional".toList <:+: name.toList

/-- A method that carries at least one annotation for transactions. -/
def MethodDecl.IsTransactional (m : MethodDecl) : Prop :=
  ∃ name ∈ m.annotations, NamesTransaction name

theorem isBusinessMethodName_iff {name : String} :
    isBusinessMethodName name ↔ NamesBusiness name := by
  simp only [isBusinessMethodName, List.any_eq_true, Text.contains_iff]
  rfl

theorem isTransactional_iff {name : String} : isTransactional name ↔ NamesTransaction name :=
  Text.contains_iff

instance (name : String) : Decidable (NamesBusiness name) :=
  decidable_of_iff _ isBusinessMethodName_iff

instance (name : String) : Decidable (NamesTransaction name) :=
  decidable_of_iff _ isTransactional_iff

instance (m : MethodDecl) : Decidable m.IsTransactional :=
  inferInstanceAs (Decidable (∃ name ∈ m.annotations, NamesTransaction name))

/-- The annotations of a method that are for transactions. -/
def MethodDecl.transactionCount (m : MethodDecl) : Nat :=
  m.annotations.countP fun name => NamesTransaction name

theorem MethodDecl.isTransactional_iff (m : MethodDecl) :
    m.IsTransactional ↔ 0 < m.transactionCount := by
  simp [IsTransactional, transactionCount, List.countP_pos_iff]

namespace SourceUnit
open BusinessSign
variable (u : SourceUnit)

/-- The number of annotations of types that are in the business vocabulary. -/
def businessAnnotationCount : Nat :=
  (u.types.flatMap (·.annotations)).countP fun name => name ∈ businessAnnotations

/-- The number of methods with the name of business logic. -/
def businessNameCount : Nat :=
  u.methods.countP fun m => NamesBusiness m.name

/-- The number of methods that check their input. -/
def validationCount : Nat :=
  u.methods.countP MethodDecl.hasValidation

/-- The number of methods that carry an annotation for transactions. -/
def transactionalMethodCount : Nat :=
  u.methods.countP fun m => m.IsTransactional

/-- The number of annotations for transactions on methods. -/
def transactionCount : Nat :=
  (u.methods.map MethodDecl.transactionCount).sum

/-! ## The signs by kind -/

/-- There is a sign for each annotation in the business vocabulary. -/
theorem countP_isAnnotated_businessSigns :
    u.businessSigns.countP isAnnotated = u.businessAnnotationCount := by
  have htype (t : TypeDecl) : (ofType t).countP isAnnotated =
      t.annotations.countP fun name => name ∈ businessAnnotations := by
    rw [ofType, List.countP_map, List.countP_filter]
    exact List.countP_congr fun name _ => by simp [isAnnotated, marksBusiness]
  have hmethod (m : MethodDecl) : (ofMethod m).countP isAnnotated = 0 := by
    simp only [ofMethod, List.countP_append, List.countP_map]
    cases isBusinessMethodName m.name <;> cases m.hasValidation <;>
      simp [isAnnotated, Function.comp_def]
  rw [businessSigns, List.countP_append, List.countP_flatMap, List.countP_flatMap,
    businessAnnotationCount, List.countP_flatMap]
  simp [Function.comp_def, htype, hmethod]

/-- There is a sign for each annotation for transactions on a method. -/
theorem count_transaction_businessSigns :
    u.businessSigns.count transaction = u.transactionCount := by
  have htypes : (u.types.flatMap ofType).count transaction = 0 := by
    simp [List.count_eq_zero, ofType]
  have hname : isTransactional = fun name => decide (NamesTransaction name) :=
    funext fun name => Bool.eq_iff_iff.mpr (isTransactional_iff.trans decide_eq_true_iff.symm)
  have hmethod (m : MethodDecl) : (ofMethod m).count transaction = m.transactionCount := by
    simp only [ofMethod, List.count_append, List.map_const', List.count_replicate_self,
      ← List.countP_eq_length_filter, MethodDecl.transactionCount, hname]
    cases isBusinessMethodName m.name <;> cases m.hasValidation <;> simp
  rw [businessSigns, List.count_append, htypes, Nat.zero_add, List.count_flatMap, transactionCount]
  refine congrArg List.sum (List.map_congr_left fun m hm => ?_)
  rw [Function.comp_apply, hmethod]

/-- There is a name among the signs for each method with the name of business logic. -/
theorem length_methodNames_businessSigns :
    (u.businessSigns.filterMap methodName?).length = u.businessNameCount := by
  rw [filterMap_methodName?_businessSigns, List.length_map, ← List.countP_eq_length_filter]
  refine List.countP_congr fun m _ => ?_
  rw [isBusinessMethodName_iff, decide_eq_true_iff]

/-! ## Methods and their annotations -/

/-- A method counts for the rule no more often than it carries an annotation for transactions, and
just as often if and only if it carries no second one. -/
theorem transactionalMethodCount_le :
    u.transactionalMethodCount ≤ u.transactionCount ∧
      (u.transactionalMethodCount = u.transactionCount ↔
        ∀ m ∈ u.methods, m.transactionCount ≤ 1) := by
  -- both parts at once: sums that are in order one by one agree only if they agree everywhere
  rw [transactionalMethodCount, transactionCount]
  induction u.methods with
  | nil => simp
  | cons m ms ih =>
    obtain ⟨hle, hiff⟩ := ih
    rw [List.countP_cons, List.map_cons, List.sum_cons, List.forall_mem_cons, ← hiff]
    by_cases hcarries : m.IsTransactional
    · have hpos := m.isTransactional_iff.mp hcarries
      rw [if_pos (decide_eq_true hcarries)]
      omega
    · have hzero : m.transactionCount = 0 :=
        Nat.eq_zero_of_not_pos fun hpos => hcarries (m.isTransactional_iff.mpr hpos)
      rw [if_neg (by simpa using hcarries)]
      omega

theorem transactionCount_pos_iff : 0 < u.transactionCount ↔ 0 < u.transactionalMethodCount := by
  rw [transactionalMethodCount, transactionCount, List.countP_pos_iff]
  constructor
  · intro hpos
    obtain ⟨n, hn, hne⟩ := List.exists_mem_ne_zero_of_sum_ne_zero hpos.ne'
    obtain ⟨m, hm, rfl⟩ := List.mem_map.mp hn
    exact ⟨m, hm, decide_eq_true (m.isTransactional_iff.mpr (Nat.pos_of_ne_zero hne))⟩
  · rintro ⟨m, hm, hcarries⟩
    have hpos := m.isTransactional_iff.mp (of_decide_eq_true hcarries)
    exact hpos.trans_le (List.le_sum_of_mem (List.mem_map_of_mem hm))

end SourceUnit

/-! ## Exact criticality -/

/-- A cut hides that one number is below another one exactly if it cuts both. -/
theorem min_eq_min_iff_of_le {κ : Type} [LinearOrder κ] {a b limit : κ} (hle : a ≤ b) :
    min limit b = min limit a ↔ a = b ∨ limit ≤ a := by
  constructor
  · intro hcut
    by_contra hne
    obtain ⟨hne, hbelow⟩ := not_or.mp hne
    have hlt : a < b := lt_of_le_of_ne hle hne
    rw [min_eq_right (not_le.mp hbelow).le] at hcut
    exact (lt_min (not_le.mp hbelow) hlt).ne' hcut
  · rintro (rfl | hlimit)
    · rfl
    · rw [min_eq_left hlimit, min_eq_left (hlimit.trans hle)]

section Exact
variable {κ : Type} [Field κ] [LinearOrder κ] [IsStrictOrderedRing κ] [FloorRing κ]

namespace BusinessSign

omit [FloorRing κ] in
/-- Some signs weigh together what their kinds weigh, each as often as there are signs of it. -/
theorem sum_exactWeight (ss : List BusinessSign) :
    (ss.map exactWeight).sum =
      2 * (ss.countP isAnnotated : κ) + (ss.countP fun s => (methodName? s).isSome) +
        0.5 * (ss.count validation : κ) + 1.5 * (ss.count transaction : κ) := by
  induction ss with
  | nil => simp
  | cons s ss ih =>
    have hweight : s.exactWeight =
        2 * ((if isAnnotated s then 1 else 0 : ℕ) : κ) +
          (if (methodName? s).isSome then 1 else 0 : ℕ) +
          0.5 * ((if s == validation then 1 else 0 : ℕ) : κ) +
          1.5 * ((if s == transaction then 1 else 0 : ℕ) : κ) := by
      cases s <;> simp [exactWeight, isAnnotated, methodName?] <;> norm_num
    rw [List.map_cons, List.sum_cons, ih, hweight, List.countP_cons, List.countP_cons,
      List.count_cons, List.count_cons]
    push_cast
    ring

end BusinessSign

namespace SourceUnit

omit [FloorRing κ] in
/-- **The weight of a unit** by its rules, with the annotations for transactions each by itself. -/
theorem totalWeight_eq_counts (u : SourceUnit) :
    u.totalWeight κ =
      2 * u.businessAnnotationCount + u.businessNameCount + 0.5 * u.validationCount +
        1.5 * u.transactionCount := by
  rw [totalWeight, BusinessSign.sum_exactWeight, countP_isAnnotated_businessSigns,
    ← List.length_filterMap_eq_countP, length_methodNames_businessSigns,
    count_validation_businessSigns, count_transaction_businessSigns]
  rfl

/-- **The criticality by rules.** It is the weight of what the rules find, cut at ten, where each
annotation for transactions has its weight. The same with a weight for each method that carries one
holds if and only if no method carries two or the cut hides it. The two flags say that a rule has
found something. -/
theorem criticality_eq_rules (u : SourceUnit) :
    let c := @business κ (.exact κ) u
    let rules (transactions : ℕ) : κ :=
      2 * u.businessAnnotationCount + u.businessNameCount + 0.5 * u.validationCount +
        1.5 * transactions
    c.criticality = min 10 (rules u.transactionCount) ∧
    (c.criticality = min 10 (rules u.transactionalMethodCount) ↔
      (∀ m ∈ u.methods, m.transactionCount ≤ 1) ∨ 10 ≤ rules u.transactionalMethodCount) ∧
    (c.transactionHandling ↔ 0 < u.transactionalMethodCount) ∧
    (c.hasBusinessAnnotations ↔ 0 < u.businessAnnotationCount) := by
  intro c rules
  have hcriticality : c.criticality = min 10 (rules u.transactionCount) := by
    rw [criticality_eq, totalWeight_eq_counts]
  obtain ⟨hle, hiff⟩ := u.transactionalMethodCount_le
  have hrules : rules u.transactionalMethodCount ≤ rules u.transactionCount := by
    have hcast : (u.transactionalMethodCount : κ) ≤ u.transactionCount := by exact_mod_cast hle
    show _ + 1.5 * _ ≤ _ + 1.5 * _
    linarith
  have hequal : rules u.transactionalMethodCount = rules u.transactionCount ↔
      u.transactionalMethodCount = u.transactionCount := by
    constructor
    · intro h
      have hcast : (u.transactionalMethodCount : κ) = u.transactionCount := by
        change _ + 1.5 * _ = _ + 1.5 * _ at h
        linarith
      exact_mod_cast hcast
    · intro h
      rw [h]
  refine ⟨hcriticality, ?_, ?_, ?_⟩
  -- the rules give too little for a second annotation, and only the cut can make up for that
  · rw [hcriticality, min_eq_min_iff_of_le hrules, hequal, hiff]
  · show u.businessSigns.contains .transaction ↔ _
    rw [← transactionCount_pos_iff, ← count_transaction_businessSigns, List.count_pos_iff,
      List.contains_iff_mem]
  · show u.businessSigns.any BusinessSign.isAnnotated ↔ _
    rw [← countP_isAnnotated_businessSigns, List.countP_pos_iff, List.any_eq_true]

/-- A service with a method that checks a payment in a transaction. -/
def paymentUnit : SourceUnit :=
  { SourceUnit.empty with
    types := [⟨"Payments", .ofClass, ["Service", "Data"], ⟨1, 9⟩⟩]
    methods := [{
      name := "validatePayment"
      parameters := ["x"]
      throws := []
      annotations := ["Transactional", "Override"]
      body := some ⟨"\x7b if (x == null) throw new Refused(); \x7d",
        [.ifElse .atom (.throw .atom) none]⟩
      span := ⟨3, 7⟩ }] }

theorem criticality_eq_rules_paymentUnit :
    let c := @business ℚ (.exact ℚ) paymentUnit
    c.criticality = 5 ∧ c.transactionHandling ∧ c.hasBusinessAnnotations := by
  obtain ⟨hcriticality, -, htransaction, hannotations⟩ := criticality_eq_rules (κ := ℚ) paymentUnit
  have hannotated : paymentUnit.businessAnnotationCount = 1 := by decide +kernel
  have hnamed : paymentUnit.businessNameCount = 1 := by decide +kernel
  have hvalid : paymentUnit.validationCount = 1 := by decide +kernel
  have hmarked : paymentUnit.transactionCount = 1 := by decide +kernel
  have hcarried : paymentUnit.transactionalMethodCount = 1 := by decide +kernel
  rw [hannotated, hnamed, hvalid, hmarked] at hcriticality
  rw [hcarried] at htransaction
  rw [hannotated] at hannotations
  exact ⟨hcriticality.trans (by norm_num), htransaction.mpr Nat.one_pos,
    hannotations.mpr Nat.one_pos⟩

/-- A method that hears of transactions, in a transaction of its own. -/
def listenerUnit : SourceUnit :=
  { SourceUnit.empty with
    types := [⟨"Orders", .ofClass, [], ⟨1, 6⟩⟩]
    methods := [{
      name := "run"
      parameters := []
      throws := []
      annotations := ["Transactional", "TransactionalEventListener"]
      body := some ⟨"\x7b\n    \x7d", []⟩
      span := ⟨2, 5⟩ }]
    lineCount := 6 }

/-- One method, weighed twice: the rule gives it one and a half. -/
theorem transaction_weighed_twice :
    listenerUnit.transactionalMethodCount = 1 ∧
    (@business ℚ (.exact ℚ) listenerUnit).criticality = 3 ∧
    (@business ℚ (.exact ℚ) listenerUnit).criticality ≠
      min (10 : ℚ) (2 * listenerUnit.businessAnnotationCount + listenerUnit.businessNameCount +
        0.5 * listenerUnit.validationCount + 1.5 * listenerUnit.transactionalMethodCount) := by
  have hannotated : listenerUnit.businessAnnotationCount = 0 := by decide +kernel
  have hnamed : listenerUnit.businessNameCount = 0 := by decide +kernel
  have hvalid : listenerUnit.validationCount = 0 := by decide +kernel
  have hmarked : listenerUnit.transactionCount = 2 := by decide +kernel
  have hcarried : listenerUnit.transactionalMethodCount = 1 := by decide +kernel
  have hcriticality : (@business ℚ (.exact ℚ) listenerUnit).criticality = 3 := by
    rw [criticality_eq, totalWeight_eq_counts, hannotated, hnamed, hvalid, hmarked]
    norm_num
  refine ⟨hcarried, hcriticality, ?_⟩
  rw [hcriticality, hannotated, hnamed, hvalid, hcarried]
  norm_num

end SourceUnit

end Exact

end CodeRisk
