import CodeRisk.Proofs.Complexity.Size

/-!
# Pairs of nested constructs

The cognitive complexity charges a condition or a loop with its depth, the number of conditions and
loops around it. Added up over all of them this counts each pair in which one stands inside the
other once: from the inner one, looking out. Here the pairs are counted from the outer one, looking
in (`Outline.nestedPairs`), and both counts agree at whatever depth the walk begins
(`Outline.depthsIn_eq`). So the cognitive complexity of a method is the number of its branches and
of its nested pairs, and a condition around the whole body adds itself and one pair for each
construct that nests in it (`MethodDecl.cognitive_eq_nestedPairs`).
-/
namespace CodeRisk

namespace Outline
variable {α : Type}

mutual

/-- All pairs of a node of an outline and a node anywhere inside it, the outer one first. -/
def enclosures : Outline α → List (α × α)
  | node a parts => (labelsIn parts).map (fun b => (a, b)) ++ enclosuresIn parts

/-- All pairs of a node of some outlines and a node anywhere inside it, the outer one first. -/
def enclosuresIn : List (Outline α) → List (α × α)
  | [] => []
  | o :: os => enclosures o ++ enclosuresIn os

end

@[simp] theorem enclosures_node (a : α) (parts : List (Outline α)) :
    enclosures (node a parts) = (labelsIn parts).map (fun b => (a, b)) ++ enclosuresIn parts := rfl

@[simp] theorem enclosuresIn_nil : enclosuresIn ([] : List (Outline α)) = [] := rfl

@[simp] theorem enclosuresIn_cons (o : Outline α) (os : List (Outline α)) :
    enclosuresIn (o :: os) = enclosures o ++ enclosuresIn os := rfl

variable [Ranked α]

/-- The number of nodes of some outlines that nest. -/
def nestingNodes (os : List (Outline α)) : Nat :=
  (labelsIn os).countP Ranked.nests

/-- The number of pairs of nodes that nest, one anywhere inside the other. -/
def nestedPairs (os : List (Outline α)) : Nat :=
  (enclosuresIn os).countP fun p => Ranked.nests p.1 && Ranked.nests p.2

@[simp] theorem nestingNodes_nil : nestingNodes ([] : List (Outline α)) = 0 := rfl

@[simp] theorem nestedPairs_nil : nestedPairs ([] : List (Outline α)) = 0 := rfl

/-- A node that nests is one more. -/
theorem nestingNodes_cons (a : α) (parts os : List (Outline α)) :
    nestingNodes (node a parts :: os) =
      (if Ranked.nests a then 1 else 0) + nestingNodes parts + nestingNodes os := by
  rw [nestingNodes, labelsIn_cons, labels_node, List.countP_append, List.countP_cons,
    ← nestingNodes, ← nestingNodes]
  omega

/-- A node that nests makes a pair with each node inside it that nests. -/
theorem nestedPairs_cons (a : α) (parts os : List (Outline α)) :
    nestedPairs (node a parts :: os) =
      (if Ranked.nests a then nestingNodes parts else 0) + nestedPairs parts + nestedPairs os := by
  have hhead : ((labelsIn parts).map fun b => (a, b)).countP
      (fun p => Ranked.nests p.1 && Ranked.nests p.2) =
        if Ranked.nests a then nestingNodes parts else 0 := by
    rw [List.countP_map, nestingNodes]
    by_cases hnests : Ranked.nests a <;> simp [hnests, Function.comp_def]
  rw [nestedPairs, enclosuresIn_cons, enclosures_node, List.countP_append, List.countP_append,
    hhead, ← nestedPairs, ← nestedPairs]

/-! ## Counting from inside and from outside -/

/-- **The depths are the pairs**, and each node that nests lies as much deeper as nodes nest around
the outlines. -/
theorem depthsIn_eq (around : List α) : (os : List (Outline α)) →
    depths (occurrencesIn around os) =
      nestedPairs os + around.countP Ranked.nests * nestingNodes os
  | [] => by simp [occurrencesIn, depths]
  | node a parts :: os => by
    have hbelow := depthsIn_eq (a :: around) parts
    have htail := depthsIn_eq around os
    -- inside the node each node that nests is one deeper: that is its pair with the node
    rw [countP_cons_eq_inside, inside] at hbelow
    rw [occurrencesIn, depths_append, occurrences, depths_cons, hbelow, htail, nestedPairs_cons,
      nestingNodes_cons]
    show (if Ranked.nests a then around.countP Ranked.nests else 0) + _ + _ = _
    by_cases hnests : Ranked.nests a
    · simp only [if_pos hnests]
      ring
    · simp only [if_neg hnests]
      ring

/-- **The weight of some nodes is their branches and their nested pairs.** -/
theorem cognition_eq_nestedPairs (os : List (Outline α)) :
    cognition (occurrencesIn [] os) = branches (occurrencesIn [] os) + nestedPairs os := by
  have hdepths := depthsIn_eq [] os
  rw [List.countP_nil, Nat.zero_mul, Nat.add_zero] at hdepths
  rw [cognition_eq_branches_add, ← depths, hdepths]

/-- No node that nests has a depth if and only if no level is reached but the first. -/
theorem depths_eq_zero_iff (os : List (Occurrence α)) : depths os = 0 ↔ nesting os ≤ 1 := by
  induction os with
  | nil => simp [depths, nesting]
  | cons o os ih =>
    rw [depths_cons, nesting_cons]
    by_cases hnests : o.nests
    · rw [if_pos hnests, if_pos hnests]
      omega
    · rw [if_neg hnests, if_neg hnests]
      omega

/-- There are no nested pairs if and only if no level is reached but the first. -/
theorem nestedPairs_eq_zero_iff (os : List (Outline α)) :
    nestedPairs os = 0 ↔ nesting (occurrencesIn [] os) ≤ 1 := by
  rw [← depths_eq_zero_iff, depthsIn_eq, List.countP_nil, Nat.zero_mul, Nat.add_zero]

/-! ## The deepest level -/

/-- Behind the nodes around the outlines the deepest level is reached on the longest chain. -/
theorem max_nestingIn_eq (around : List α) : (os : List (Outline α)) →
    max (around.countP Ranked.nests) (nesting (occurrencesIn around os)) =
      around.countP Ranked.nests + chainIn os
  | [] => by simp [occurrencesIn, nesting]
  | node a parts :: os => by
    have hbelow := max_nestingIn_eq (a :: around) parts
    have htail := max_nestingIn_eq around os
    rw [countP_cons_eq_inside, inside] at hbelow
    rw [occurrencesIn, nesting_append, occurrences, nesting_cons, chainIn_cons, chain_node, inside]
    show max _ (max (max (if Ranked.nests a then around.countP Ranked.nests + 1 else 0) _) _) = _
    by_cases hnests : Ranked.nests a
    · simp only [if_pos hnests] at hbelow ⊢
      omega
    · simp only [if_neg hnests] at hbelow ⊢
      omega

/-- **The deepest level is the length of the longest chain.** -/
theorem nesting_eq_chainIn (os : List (Outline α)) :
    nesting (occurrencesIn [] os) = chainIn os := by
  have hmax := max_nestingIn_eq [] os
  rw [List.countP_nil, Nat.zero_max, Nat.zero_add] at hmax
  exact hmax

end Outline

/-! ## A condition around a body -/

namespace MethodDecl

/-- The number of conditions, loops and switches in the body of a method that nest. -/
def nestingNodes (m : MethodDecl) : Nat :=
  (Outline.labelsIn (Stmt.outlines m.statements)).countP Construct.nests

/-- The number of pairs of conditions, loops and switches in the body of a method, one anywhere
inside the other. -/
def nestedPairs (m : MethodDecl) : Nat :=
  (Outline.enclosuresIn (Stmt.outlines m.statements)).countP fun p => p.1.nests && p.2.nests

/-- The method with a condition around its whole body, and no other branch. -/
def guarded (m : MethodDecl) (text : String) : MethodDecl :=
  { m with body := some ⟨text, [.ifElse .atom (.block m.statements) none]⟩ }

variable (m : MethodDecl) (text : String)

theorem outlines_guarded :
    Stmt.outlines (m.guarded text).statements =
      [.node .ifElse [.node .atom [], .node .block (Stmt.outlines m.statements)]] := rfl

/-- The weight of a method is its branches and its nested pairs. -/
theorem cognition_eq :
    Outline.cognition m.occurrences = Outline.branches m.occurrences + m.nestedPairs :=
  Outline.cognition_eq_nestedPairs (Stmt.outlines m.statements)

/-- The condition is one more branch. -/
theorem branches_guarded :
    Outline.branches (m.guarded text).occurrences = Outline.branches m.occurrences + 1 := by
  rw [occurrences, occurrences, Stmt.occurrences, Stmt.occurrences, Outline.branches_eq_waysIn,
    Outline.branches_eq_waysIn, outlines_guarded]
  simp [Outline.waysIn, Nat.add_comm]

/-- The condition makes a pair with each node that nests. -/
theorem nestedPairs_guarded : (m.guarded text).nestedPairs = m.nestedPairs + m.nestingNodes := by
  have hbody : Outline.nestedPairs (Stmt.outlines (m.guarded text).statements) =
      Outline.nestingNodes (Stmt.outlines m.statements) +
        Outline.nestedPairs (Stmt.outlines m.statements) := by
    rw [outlines_guarded]
    simp [Outline.nestedPairs_cons, Outline.nestingNodes_cons]
  show Outline.nestedPairs _ = Outline.nestedPairs _ + Outline.nestingNodes _
  rw [hbody, Nat.add_comm]

/-- The condition makes every chain longer by one. -/
theorem nesting_guarded :
    Outline.nesting (m.guarded text).occurrences = Outline.nesting m.occurrences + 1 := by
  rw [occurrences, occurrences, Stmt.occurrences, Stmt.occurrences, Outline.nesting_eq_chainIn,
    Outline.nesting_eq_chainIn, outlines_guarded]
  simp [Outline.inside]

variable {m text} {ν : Type} [Scale ν]

theorem toNat_maxNestingDepth_alone (h : m.Fits) :
    (m.alone.complexity : CodeComplexity ν).maxNestingDepth.toNat =
      Outline.nesting m.occurrences := by
  rw [m.maxNestingDepth_alone]
  exact Stmt.toNat_level h.nesting

/-- **The weight of a method beyond its branches** is the number of its nested pairs. So it is never
below the branches, and equal to them if and only if no construct nests in another one. A condition
around the whole body adds one branch, one pair for each construct that nests in the body, and one
level. -/
theorem cognitive_eq_nestedPairs (m : MethodDecl) (h : m.Fits) :
    m.complexity.cognitive.toNat + 1 = m.complexity.cyclomatic.toNat + m.nestedPairs ∧
    m.complexity.cyclomatic.toNat ≤ m.complexity.cognitive.toNat + 1 ∧
    (m.complexity.cognitive.toNat + 1 = m.complexity.cyclomatic.toNat ↔
      (m.alone.complexity : CodeComplexity ν).maxNestingDepth.toNat ≤ 1) ∧
    ∀ text, (m.guarded text).Fits →
      (m.guarded text).complexity.cyclomatic.toNat = m.complexity.cyclomatic.toNat + 1 ∧
      (m.guarded text).complexity.cognitive.toNat =
        m.complexity.cognitive.toNat + (1 + m.nestingNodes) ∧
      ((m.guarded text).alone.complexity : CodeComplexity ν).maxNestingDepth.toNat =
        (m.alone.complexity : CodeComplexity ν).maxNestingDepth.toNat + 1 := by
  have hcyclomatic := toNat_cyclomatic h.cyclomatic
  have hcognitive := toNat_cognitive h.cognitive
  have hnesting := toNat_maxNestingDepth_alone (ν := ν) h
  have hweight := m.cognition_eq
  have hflat : m.nestedPairs = 0 ↔ Outline.nesting m.occurrences ≤ 1 :=
    Outline.nestedPairs_eq_zero_iff (Stmt.outlines m.statements)
  rw [hcyclomatic, hcognitive, hnesting]
  refine ⟨by omega, by omega, ?_, ?_⟩
  · rw [← hflat]
    omega
  · intro text hguarded
    have hbranches := m.branches_guarded text
    have hpairs := m.nestedPairs_guarded text
    have hweight' := (m.guarded text).cognition_eq
    rw [toNat_cyclomatic hguarded.cyclomatic, toNat_cognitive hguarded.cognitive,
      toNat_maxNestingDepth_alone hguarded, m.nesting_guarded text]
    exact ⟨by omega, by omega, rfl⟩

/-- In the sample five pairs nest: the loop around the switch and what is in it, and the switch
around the condition and the inner loop. -/
theorem cognitive_eq_nestedPairs_sample :
    sample.Fits ∧ (sample.guarded "").Fits ∧
    sample.complexity.cognitive.toNat + 1 = sample.complexity.cyclomatic.toNat + 5 ∧
    ¬ (sample.alone.complexity : CodeComplexity Float).maxNestingDepth.toNat ≤ 1 ∧
    (sample.guarded "").complexity.cognitive.toNat = sample.complexity.cognitive.toNat + 5 := by
  have hfits : sample.Fits := by decide
  have hguarded : (sample.guarded "").Fits := by decide
  obtain ⟨hpairs, -, hflat, hguard⟩ := cognitive_eq_nestedPairs (ν := Float) sample hfits
  have hfive : sample.nestedPairs = 5 := by decide
  have hfour : sample.nestingNodes = 4 := by decide
  rw [hfive] at hpairs
  refine ⟨hfits, hguarded, hpairs, ?_, ?_⟩
  · intro hle
    have hequal := hflat.mpr hle
    omega
  · have hcognitive := (hguard "" hguarded).2.1
    rw [hfour] at hcognitive
    exact hcognitive

end MethodDecl

end CodeRisk
