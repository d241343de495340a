import CodeRisk.Proofs.Analyzer.Consistent
import CodeRisk.Proofs.Exceptions
import CodeRisk.Proofs.Insertion.Statements
import Mathlib.Logic.Relation

/-!
# More code, no smaller figures

A unit grows when something is inserted anywhere in it (`SourceUnit.Insertion`): a method, a
statement at any depth, a type behind the primary one, an annotation, an import, or lines. After any
number of insertions everything that the analyses look at is still there (`SourceUnit.Keeps`), so no
figure of the unit has become smaller and no flag has been taken back
(`Analyzer.analyzeUnit_le_of_insertions`).
-/
namespace CodeRisk

namespace SourceUnit

/-! ## Insertions -/

/-- The second unit is the first with one thing inserted. -/
inductive Insertion (u : SourceUnit) : SourceUnit → Prop where
  | method (m : MethodDecl) (before after : List MethodDecl) (h : u.methods = before ++ after) :
      Insertion u { u with methods := before ++ m :: after }
  /-- A statement comes to the code outside methods or into a block in it. -/
  | otherCode {code : List Stmt} (h : Stmt.InsertionIn u.otherCode code) :
      Insertion u { u with otherCode := code }
  /-- A statement comes into the body of a method or into a block in it. -/
  | statement {m : MethodDecl} {b : MethodBody} {code : Block} (before after : List MethodDecl)
      (h : u.methods = before ++ m :: after) (hbody : m.body = some b)
      (hcode : Stmt.InsertionIn b.block code) :
      Insertion u
        { u with methods := before ++ { m with body := some { b with block := code } } :: after }
  /-- A type comes behind the primary one. -/
  | type (t : TypeDecl) {primary : TypeDecl} (before after : List TypeDecl)
      (h : u.types = primary :: before ++ after) :
      Insertion u { u with types := primary :: before ++ t :: after }
  | annotatedType (name : String) {t : TypeDecl} (before after : List TypeDecl)
      {first rest : List String} (h : u.types = before ++ t :: after)
      (hnames : t.annotations = first ++ rest) :
      Insertion u
        { u with types := before ++ { t with annotations := first ++ name :: rest } :: after }
  | annotatedMethod (name : String) {m : MethodDecl} (before after : List MethodDecl)
      {first rest : List String} (h : u.methods = before ++ m :: after)
      (hnames : m.annotations = first ++ rest) :
      Insertion u
        { u with methods := before ++ { m with annotations := first ++ name :: rest } :: after }
  | importName (name : String) (before after : List String) (h : u.imports = before ++ after) :
      Insertion u { u with imports := before ++ name :: after }
  | lines {n : Nat} (h : u.lineCount ≤ n) : Insertion u { u with lineCount := n }

/-- Everything in the first unit that the analyses look at is in the second one too. -/
structure Keeps (u v : SourceUnit) : Prop where
  types : u.types ≠ [] → v.types ≠ []
  methods : u.methods.length ≤ v.methods.length
  methodCode :
    (u.methods.flatMap MethodDecl.occurrences).Sublist (v.methods.flatMap MethodDecl.occurrences)
  otherCode : (Stmt.occurrences u.otherCode).Sublist (Stmt.occurrences v.otherCode)
  signs : u.businessSigns.Sublist v.businessSigns
  imports : u.imports ⊆ v.imports
  lineCount : u.lineCount ≤ v.lineCount

namespace Keeps
variable {u v w : SourceUnit}

theorem refl (u : SourceUnit) : u.Keeps u :=
  ⟨id, Nat.le_refl _, .refl _, .refl _, .refl _, List.Subset.refl _, Nat.le_refl _⟩

theorem trans (h : u.Keeps v) (h' : v.Keeps w) : u.Keeps w where
  types := h'.types ∘ h.types
  methods := h.methods.trans h'.methods
  methodCode := h.methodCode.trans h'.methodCode
  otherCode := h.otherCode.trans h'.otherCode
  signs := h.signs.trans h'.signs
  imports := List.Subset.trans h.imports h'.imports
  lineCount := h.lineCount.trans h'.lineCount

end Keeps

/-! ### One insertion -/

section Lists
variable {α β : Type} (f : α → List β) (before after : List α)

theorem flatMap_sublist_insert (x : α) :
    ((before ++ after).flatMap f).Sublist ((before ++ x :: after).flatMap f) := by
  rw [List.flatMap_append, List.flatMap_append, List.flatMap_cons]
  exact (List.sublist_append_right ..).append_left _

theorem flatMap_sublist_replace {x y : α} (h : (f x).Sublist (f y)) :
    ((before ++ x :: after).flatMap f).Sublist ((before ++ y :: after).flatMap f) := by
  rw [List.flatMap_append, List.flatMap_append, List.flatMap_cons, List.flatMap_cons]
  exact (h.append_right _).append_left _

end Lists

/-- A type with one more annotation has no fewer signs. -/
theorem ofType_sublist (t : TypeDecl) (name : String) {first rest : List String}
    (h : t.annotations = first ++ rest) :
    (BusinessSign.ofType t).Sublist
      (BusinessSign.ofType { t with annotations := first ++ name :: rest }) := by
  rw [BusinessSign.ofType, h]
  exact (((List.sublist_cons_self name rest).append_left first).filter _).map _

/-- A method with one more annotation has no fewer signs. -/
theorem ofMethod_sublist (m : MethodDecl) (name : String) {first rest : List String}
    (h : m.annotations = first ++ rest) :
    (BusinessSign.ofMethod m).Sublist
      (BusinessSign.ofMethod { m with annotations := first ++ name :: rest }) := by
  rw [BusinessSign.ofMethod, h]
  exact ((((List.sublist_cons_self name rest).append_left first).filter _).map _).append_left _

/-- **One insertion** leaves everything where it is. -/
theorem Insertion.keeps {u v : SourceUnit} (h : u.Insertion v) : u.Keeps v := by
  cases h with
  | @method m before after h =>
    exact { Keeps.refl u with
      methods := by
        rw [h, List.length_append, List.length_append, List.length_cons]
        omega
      methodCode := h ▸ flatMap_sublist_insert ..
      signs := by
        rw [businessSigns, h]
        exact (flatMap_sublist_insert ..).append_left _ }
  | otherCode h =>
    exact { Keeps.refl u with otherCode := h.occurrences_sublist }
  | @statement m b code before after h hbody hcode =>
    have hoccurrences : m.occurrences.Sublist
        ({ m with body := some { b with block := code } } : MethodDecl).occurrences := by
      rw [MethodDecl.occurrences, MethodDecl.occurrences, MethodDecl.statements,
        MethodDecl.statements, hbody]
      exact hcode.occurrences_sublist
    have hvalidation : m.hasValidation =
        ({ m with body := some { b with block := code } } : MethodDecl).hasValidation := by
      rw [MethodDecl.hasValidation, MethodDecl.hasValidation, hbody]
    have hsigns : (BusinessSign.ofMethod m).Sublist
        (BusinessSign.ofMethod { m with body := some { b with block := code } }) := by
      rw [BusinessSign.ofMethod, BusinessSign.ofMethod, hvalidation]
    exact { Keeps.refl u with
      methods := by rw [h, List.length_append, List.length_append, List.length_cons,
        List.length_cons]
      methodCode := h ▸ flatMap_sublist_replace _ _ _ hoccurrences
      signs := by
        rw [businessSigns, h]
        exact (flatMap_sublist_replace _ _ _ hsigns).append_left _ }
  | @type t primary before after h =>
    exact { Keeps.refl u with
      types := fun _ => List.cons_ne_nil _ _
      signs := by
        rw [businessSigns, h]
        exact (flatMap_sublist_insert _ (primary :: before) after t).append_right _ }
  | @annotatedType name t before after first rest h hnames =>
    exact { Keeps.refl u with
      types := fun _ => List.append_ne_nil_of_right_ne_nil _ (List.cons_ne_nil _ _)
      signs := by
        rw [businessSigns, h]
        exact (flatMap_sublist_replace _ _ _ (ofType_sublist t name hnames)).append_right _ }
  | @annotatedMethod name m before after first rest h hnames =>
    exact { Keeps.refl u with
      methods := by rw [h, List.length_append, List.length_append, List.length_cons,
        List.length_cons]
      methodCode := by
        rw [h]
        exact flatMap_sublist_replace _ _ _ (List.Sublist.refl m.occurrences)
      signs := by
        rw [businessSigns, h]
        exact (flatMap_sublist_replace _ _ _ (ofMethod_sublist m name hnames)).append_left _ }
  | @importName name before after h =>
    exact { Keeps.refl u with
      imports := h ▸ ((List.sublist_cons_self name after).append_left before).subset }
  | lines h =>
    exact { Keeps.refl u with lineCount := h }

/-- **Any number of insertions** leave everything where it is. -/
theorem keeps_of_insertions {u v : SourceUnit} (h : Relation.ReflTransGen Insertion u v) :
    u.Keeps v := by
  induction h with
  | refl => exact .refl u
  | tail _ hstep ih => exact ih.trans hstep.keeps

/-! ## Figures -/

namespace Keeps
variable {u v : SourceUnit} (h : u.Keeps v)
include h

theorem occurrences_sublist : u.occurrences.Sublist v.occurrences :=
  h.methodCode.append h.otherCode

theorem exactCyclomatic_le : u.exactCyclomatic ≤ v.exactCyclomatic := by
  rw [exactCyclomatic_eq, exactCyclomatic_eq]
  exact Nat.add_le_add_left (Outline.branches_le_of_sublist h.occurrences_sublist) 1

theorem exactCognitive_le : u.exactCognitive ≤ v.exactCognitive := by
  rw [exactCognitive_eq, exactCognitive_eq]
  exact Outline.cognition_le_of_sublist h.methodCode

theorem exactNesting_le : u.exactNesting ≤ v.exactNesting :=
  Outline.nesting_le_of_sublist h.occurrences_sublist

theorem handlesExceptions_of : u.handlesExceptions → v.handlesExceptions := by
  rw [handlesExceptions_eq, handlesExceptions_eq, List.any_eq_true, List.any_eq_true]
  rintro ⟨o, ho, hlabel⟩
  exact ⟨o, h.occurrences_sublist.subset ho, hlabel⟩

end Keeps

end SourceUnit

/-! ## Records -/

/-- Everything that is counted of a unit fits into counters, the depth of its code too. -/
structure Analyzer.FitsAll (a : Analyzer) (u : SourceUnit) : Prop extends a.Fits u where
  nesting : u.exactNesting < Counter.limit

/-- Whether no figure of the first record is above that of the second, and all its flags are set
there too. -/
structure FileMetadata.AtMost {κ : Type} [LE κ] (m m' : FileMetadata κ) : Prop where
  cyclomatic : m.code.cyclomatic ≤ m'.code.cyclomatic
  cognitive : m.code.cognitive ≤ m'.code.cognitive
  totalMethods : m.code.totalMethods ≤ m'.code.totalMethods
  maxNestingDepth : m.code.maxNestingDepth ≤ m'.code.maxNestingDepth
  criticality : m.business.criticality ≤ m'.business.criticality
  businessMethodCount : m.business.businessMethodCount ≤ m'.business.businessMethodCount
  validationComplexity : m.business.validationComplexity ≤ m'.business.validationComplexity
  fanOut : m.dependencies.fanOut ≤ m'.dependencies.fanOut
  riskScore : m.riskScore ≤ m'.riskScore
  hasBusinessAnnotations :
    m.business.hasBusinessAnnotations → m'.business.hasBusinessAnnotations
  transactionHandling : m.business.transactionHandling → m'.business.transactionHandling
  exceptionHandling : m.business.exceptionHandling → m'.business.exceptionHandling

namespace Analyzer
variable {a : Analyzer} {u v : SourceUnit}

/-- What fits with everything kept and more, fits without the rest. -/
theorem FitsAll.of_keeps (hv : a.FitsAll v) (h : u.Keeps v) : a.FitsAll u where
  methods := h.methods.trans_lt hv.methods
  cyclomatic := h.exactCyclomatic_le.trans_lt hv.cyclomatic
  cognitive := h.exactCognitive_le.trans_lt hv.cognitive
  fanOut := (a.inspector.size_outgoing_le h.imports).trans_lt hv.fanOut
  nesting := h.exactNesting_le.trans_lt hv.nesting

variable {κ : Type} [Field κ] [LinearOrder κ] [IsStrictOrderedRing κ] [FloorRing κ]

/-- No figure gets smaller where everything is kept. -/
theorem Records.atMost_of_keeps {m m' : FileMetadata κ} (hm : @Records κ (.exact κ) a u m)
    (hm' : @Records κ (.exact κ) a v m') (h : u.Keeps v) (hv : a.FitsAll v) : m.AtMost m' := by
  let _ := Scale.exact κ
  have hu : a.FitsAll u := hv.of_keeps h
  have hcyclomatic : m.code.cyclomatic ≤ m'.code.cyclomatic := by
    rw [UInt32.le_iff_toNat_le, hm.code, hm'.code, hu.unitFits.toNat_cyclomatic,
      hv.unitFits.toNat_cyclomatic]
    exact h.exactCyclomatic_le
  have hcognitive : m.code.cognitive ≤ m'.code.cognitive := by
    rw [UInt32.le_iff_toNat_le, hm.code, hm'.code, hu.unitFits.toNat_cognitive,
      hv.unitFits.toNat_cognitive]
    exact h.exactCognitive_le
  have hcriticality : m.business.criticality ≤ m'.business.criticality := by
    rw [hm.business, hm'.business]
    exact SourceUnit.criticality_le_of_sublist h.signs
  have hfanOut : m.dependencies.fanOut ≤ m'.dependencies.fanOut := by
    rw [UInt32.le_iff_toNat_le, hm.dependencies, hm'.dependencies,
      DependencyInspector.toNat_fanOut _ hu.fanOut, DependencyInspector.toNat_fanOut _ hv.fanOut]
    exact a.inspector.size_outgoing_le h.imports
  exact {
    cyclomatic := hcyclomatic
    cognitive := hcognitive
    criticality := hcriticality
    fanOut := hfanOut
    riskScore := by
      rw [hm.riskScore, hm'.riskScore]
      exact riskScore_le_of_le hcyclomatic hcognitive hcriticality hfanOut h.lineCount
    totalMethods := by
      rw [UInt32.le_iff_toNat_le, hm.code, hm'.code, hu.unitFits.toNat_totalMethods,
        hv.unitFits.toNat_totalMethods]
      exact h.methods
    maxNestingDepth := by
      rw [UInt32.le_iff_toNat_le, hm.code, hm'.code, SourceUnit.toNat_maxNestingDepth hu.nesting,
        SourceUnit.toNat_maxNestingDepth hv.nesting]
      exact h.exactNesting_le
    businessMethodCount := by
      rw [UInt32.le_iff_toNat_le, hm.business, hm'.business, hu.unitFits.businessMethodCount_eq,
        hv.unitFits.businessMethodCount_eq]
      exact SourceUnit.length_businessMethods_le_of_sublist h.signs
    validationComplexity := by
      rw [UInt32.le_iff_toNat_le, hm.business, hm'.business,
        hu.unitFits.toNat_validationComplexity, hv.unitFits.toNat_validationComplexity]
      exact SourceUnit.countP_hasValidation_le_of_sublist h.signs
    hasBusinessAnnotations := by
      rw [hm.business, hm'.business]
      exact SourceUnit.hasBusinessAnnotations_of_sublist h.signs
    transactionHandling := by
      rw [hm.business, hm'.business]
      exact SourceUnit.transactionHandling_of_sublist h.signs
    exceptionHandling := by
      rw [hm.business, hm'.business]
      exact h.handlesExceptions_of }

/-- **More code, no smaller figures.** Whatever is inserted into a unit with a type, and however
often, its record is there before and after, no figure of it falls and no flag is taken back. -/
theorem analyzeUnit_le_of_insertions (a : Analyzer) (revision : Revision) (now now' : Timestamp)
    (path : String) {u v : SourceUnit} (htype : u.types ≠ [])
    (h : Relation.ReflTransGen SourceUnit.Insertion u v) (hv : a.FitsAll v) :
    ∃ m m', @analyzeUnit κ (.exact κ) a revision now path u = .ok m ∧
      @analyzeUnit κ (.exact κ) a revision now' path v = .ok m' ∧ m.AtMost m' := by
  let _ := Scale.exact κ
  have hkeeps : u.Keeps v := SourceUnit.keeps_of_insertions h
  obtain ⟨m, hm, hrecords⟩ := exists_records (ν := κ) a revision now path htype
  obtain ⟨m', hm', hrecords'⟩ :=
    exists_records (ν := κ) a revision now' path (hkeeps.types htype)
  exact ⟨m, m', hm, hm', hrecords.atMost_of_keeps hrecords' hkeeps hv⟩

/-- A class with a field that holds a lambda with nothing in it. -/
def idleUnit : SourceUnit :=
  { SourceUnit.empty with
    types := [⟨"Shop", .ofClass, [], ⟨1, 1⟩⟩]
    otherCode := [.simple [.lambda (.block [])]] }

/-- The same class, with a throw statement in the lambda and an import from the project. -/
def busyUnit : SourceUnit :=
  { idleUnit with
    otherCode := [.simple [.lambda (.block [.throw .atom])]]
    imports := ["shop.Order"] }

theorem analyzeUnit_le_of_insertions_busyUnit :
    let a := ofConfig {}
    idleUnit.types ≠ [] ∧ Relation.ReflTransGen SourceUnit.Insertion idleUnit busyUnit ∧
      a.FitsAll busyUnit ∧
      ∃ m m', @analyzeUnit ℚ (.exact ℚ) a ⟨"", "main"⟩ ⟨0, 0, 0⟩ "Shop.java" idleUnit = .ok m ∧
        @analyzeUnit ℚ (.exact ℚ) a ⟨"", "main"⟩ ⟨1, 0, 0⟩ "Shop.java" busyUnit = .ok m' ∧
        m.AtMost m' := by
  intro a
  have htypes : idleUnit.types ≠ [] := by decide
  have hlambda : Stmt.InsertionIn [.simple [.lambda (.block [])]]
      [.simple [.lambda (.block [.throw .atom])]] :=
    .inside (.simple (.inside (.lambda (.block .here))))
  have hinsertions : Relation.ReflTransGen SourceUnit.Insertion idleUnit busyUnit :=
    (Relation.ReflTransGen.single (.otherCode hlambda)).tail
      (.importName "shop.Order" [] [] rfl)
  have hfits : a.FitsAll busyUnit := ⟨⟨by decide, by decide⟩, by decide⟩
  exact ⟨htypes, hinsertions, hfits,
    analyzeUnit_le_of_insertions (κ := ℚ) a ⟨"", "main"⟩ ⟨0, 0, 0⟩ ⟨1, 0, 0⟩ "Shop.java" htypes
      hinsertions hfits⟩

end Analyzer

end CodeRisk
