import CodeRisk.Proofs.Complexity.Walk

/-!
# The complexity of one method

The cyclomatic and the cognitive complexity of a method are sums over all nodes of its body, each
weighed by its rank and the nodes around it, and the nesting depth of a file with this method alone
is the deepest level inside its nodes (`MethodDecl.complexity_eq_occurrences`). Counters are words,
so this is said of methods whose figures fit into one (`MethodDecl.Fits`).
-/
namespace CodeRisk

/-- The unit with one method and nothing else. -/
def MethodDecl.alone (m : MethodDecl) : SourceUnit :=
  { SourceUnit.empty with methods := [m] }

/-- The exact figures of a method fit into counters. -/
structure MethodDecl.Fits (m : MethodDecl) : Prop where
  cyclomatic : 1 + Outline.branches m.occurrences < Counter.limit
  cognitive : Outline.cognition m.occurrences < Counter.limit
  nesting : Outline.nesting m.occurrences < Counter.limit

instance (m : MethodDecl) : Decidable m.Fits :=
  decidable_of_iff (1 + Outline.branches m.occurrences < Counter.limit ∧
      Outline.cognition m.occurrences < Counter.limit ∧
      Outline.nesting m.occurrences < Counter.limit)
    ⟨fun ⟨h₁, h₂, h₃⟩ => ⟨h₁, h₂, h₃⟩, fun h => ⟨h.cyclomatic, h.cognitive, h.nesting⟩⟩

/-- The counters of a method while it is the one at hand, after its body has been walked. -/
def MethodDecl.counters (m : MethodDecl) : MethodCounters :=
  ⟨1 + .ofNat (Outline.branches m.occurrences), .ofNat (Outline.cognition m.occurrences)⟩

namespace Tally

/-- The tally when the body of a method has been walked and the method is not left yet. -/
theorem body_enterMethod (m : MethodDecl) (t : Tally) :
    (t.enterMethod m.span.lineCount).body m.body =
      { t with
        cyclomatic := t.cyclomatic + .ofNat (Outline.branches m.occurrences)
        maxNesting := max t.maxNesting (Stmt.level m.statements)
        methodCount := t.methodCount + 1
        methodLines := t.methodLines + m.span.lineCount
        current := some m.counters } := by
  rw [body_eq_stmts, stmts_eq_grow]
  simp [grow, enterMethod, MethodDecl.counters, MethodDecl.occurrences]

theorem leaveMethod_eq (m : MethodDecl) {t : Tally} {c : MethodCounters}
    (hc : t.current = some c) :
    t.leaveMethod m =
      { t with
        cognitive := t.cognitive + c.cognitive
        complexMethods := t.complexMethods ++ [c.figures m].filter MethodComplexity.isComplex
        current := none } := by
  have hcounters : t.counters = c := by rw [counters, hc]; rfl
  have hlist : (if (c.figures m).isComplex then t.complexMethods ++ [c.figures m]
      else t.complexMethods) =
      t.complexMethods ++ [c.figures m].filter MethodComplexity.isComplex := by
    cases h : (c.figures m).isComplex <;> simp [h]
  rw [leaveMethod, hcounters, ← hlist]
  rfl

end Tally

/-- The figures of a method are those of its counters. -/
theorem MethodDecl.complexity_eq_figures (m : MethodDecl) :
    m.complexity = m.counters.figures m := by
  rw [MethodDecl.complexity, Tally.body_enterMethod]
  rfl

theorem MethodDecl.cyclomatic_eq (m : MethodDecl) :
    m.complexity.cyclomatic = 1 + .ofNat (Outline.branches m.occurrences) := by
  rw [m.complexity_eq_figures]
  rfl

/-- What a method adds to the cyclomatic complexity of its file. -/
theorem MethodDecl.cyclomatic_sub_one (m : MethodDecl) :
    m.complexity.cyclomatic - 1 = .ofNat (Outline.branches m.occurrences) := by
  rw [m.cyclomatic_eq]
  grind

theorem MethodDecl.cognitive_eq (m : MethodDecl) :
    m.complexity.cognitive = .ofNat (Outline.cognition m.occurrences) := by
  rw [m.complexity_eq_figures]
  rfl

theorem MethodDecl.toNat_cyclomatic {m : MethodDecl}
    (h : 1 + Outline.branches m.occurrences < Counter.limit) :
    m.complexity.cyclomatic.toNat = 1 + Outline.branches m.occurrences := by
  rw [m.cyclomatic_eq, show (1 : UInt32) = .ofNat 1 from rfl, ← UInt32.ofNat_add]
  exact Counter.toNat_ofNat_of_lt h

theorem MethodDecl.toNat_cognitive {m : MethodDecl}
    (h : Outline.cognition m.occurrences < Counter.limit) :
    m.complexity.cognitive.toNat = Outline.cognition m.occurrences := by
  rw [m.cognitive_eq]
  exact Counter.toNat_ofNat_of_lt h

/-- **One step of the walk over a file**: a method adds its own figures and leaves no counters
behind. -/
theorem Tally.method_eq (t : Tally) (m : MethodDecl) :
    t.method m =
      { cyclomatic := t.cyclomatic + (m.complexity.cyclomatic - 1)
        cognitive := t.cognitive + m.complexity.cognitive
        maxNesting := max t.maxNesting (Stmt.level m.statements)
        methodCount := t.methodCount + 1
        methodLines := t.methodLines + m.span.lineCount
        complexMethods := t.complexMethods ++ [m.complexity].filter MethodComplexity.isComplex
        current := none } := by
  rw [m.cyclomatic_sub_one, m.complexity_eq_figures, Tally.method, body_enterMethod,
    leaveMethod_eq m rfl]
  rfl

/-- The nesting depth of a file with one method is the deepest level inside that method. -/
theorem MethodDecl.maxNestingDepth_alone {ν : Type} [Scale ν] (m : MethodDecl) :
    (m.alone.complexity : CodeComplexity ν).maxNestingDepth = Stmt.level m.statements := by
  show (Tally.stmts 0 [] (Tally.method {} m)).maxNesting = _
  rw [Tally.stmts, Tally.method_eq]
  exact Counter.zero_max _

/-- **The complexity of a method is a sum over the nodes of its body**: one and the branches of all
nodes is its cyclomatic complexity, the branches weighed by depth are its cognitive complexity, and
the deepest level inside a node that nests is the nesting depth of a file with this method alone. -/
theorem MethodDecl.complexity_eq_occurrences {ν : Type} [Scale ν] (m : MethodDecl) (h : m.Fits) :
    m.complexity.cyclomatic.toNat = 1 + (m.occurrences.map Occurrence.ways).sum ∧
    m.complexity.cognitive.toNat = (m.occurrences.map Occurrence.weight).sum ∧
    (m.alone.complexity : CodeComplexity ν).maxNestingDepth.toNat =
      ((m.occurrences.filter Occurrence.nests).map fun o => o.depth + 1).foldr max 0 := by
  refine ⟨toNat_cyclomatic h.cyclomatic, toNat_cognitive h.cognitive, ?_⟩
  rw [m.maxNestingDepth_alone]
  exact Stmt.toNat_level h.nesting

/-- A loop around a switch with two cases: one holds a handler with a condition in it, the other a
lambda with a loop in it. -/
def MethodDecl.sample : MethodDecl where
  name := "sample"
  parameters := []
  throws := []
  annotations := []
  body := some ⟨"", [
    .whileLoop (.conditional .atom .atom .atom) (.block [
      .switch .atom [
        .mk "case 1" [
          .tryCatch [] [] [.mk ["IOException"] [.ifElse .atom (.simple []) none]] none],
        .mk "default" [.simple [.lambda (.block [.forLoop [] (.simple [])])]]]])]⟩
  span := ⟨1, 9⟩

theorem MethodDecl.complexity_eq_occurrences_sample :
    MethodDecl.sample.Fits ∧
    MethodDecl.sample.complexity.cyclomatic.toNat = 8 ∧
    MethodDecl.sample.complexity.cognitive.toNat = 12 ∧
    (MethodDecl.sample.alone.complexity : CodeComplexity Float).maxNestingDepth.toNat = 3 := by
  have hfits : MethodDecl.sample.Fits := by decide
  obtain ⟨hcyclomatic, hcognitive, hnesting⟩ :=
    MethodDecl.complexity_eq_occurrences (ν := Float) MethodDecl.sample hfits
  exact ⟨hfits, hcyclomatic.trans (by decide), hcognitive.trans (by decide),
    hnesting.trans (by decide)⟩

end CodeRisk
