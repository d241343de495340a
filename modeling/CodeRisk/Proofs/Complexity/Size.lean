import CodeRisk.Proofs.Complexity.Chain
import CodeRisk.Proofs.Complexity.Unit
import Mathlib.Tactic.Linarith

/-!
# Figures bounded by size

How large the figures of a unit can be is a matter of counting its nodes. A node that branches pays
for its first branch, and a switch has a part of its own for each further one, so there are no more
branches than nodes. The depth of a node is the number of nodes around it that nest, so the depths
of all nodes together are no more than the pairs of nested nodes, and there are at most `n(n-1)/2`
of these among `n` nodes (`Outline.depths_le`).

With the methods counted in as well, every figure of a unit is bounded in terms of one number
(`SourceUnit.size`).
-/
namespace CodeRisk

/-- A charge neither weighs nor reaches more than `n`. -/
structure Charge.AtMost (n : Nat) (c : Charge) : Prop where
  weight : c.weight ≤ n
  level : c.level ≤ n

theorem Charge.AtMost.mono {n k : Nat} {c : Charge} (h : c.AtMost n) (hle : n ≤ k) : c.AtMost k :=
  ⟨h.weight.trans hle, h.level.trans hle⟩

namespace Outline
variable {α : Type}

/-- The number of nodes of an outline. -/
def size (o : Outline α) : Nat :=
  (labels o).length

/-- The number of nodes of some outlines. -/
def sizeIn (os : List (Outline α)) : Nat :=
  (labelsIn os).length

@[simp] theorem size_node (a : α) (parts : List (Outline α)) :
    size (node a parts) = sizeIn parts + 1 := rfl

@[simp] theorem sizeIn_nil : sizeIn ([] : List (Outline α)) = 0 := rfl

@[simp] theorem sizeIn_cons (o : Outline α) (os : List (Outline α)) :
    sizeIn (o :: os) = size o + sizeIn os :=
  List.length_append

theorem one_le_size (o : Outline α) : 1 ≤ size o := by
  cases o with
  | node a parts =>
    rw [size_node]
    omega

theorem length_le_sizeIn (os : List (Outline α)) : os.length ≤ sizeIn os := by
  induction os with
  | nil => exact Nat.le_refl 0
  | cons o os ih =>
    have ho := one_le_size o
    rw [sizeIn_cons, List.length_cons]
    omega

theorem length_occurrencesIn (around : List α) (os : List (Outline α)) :
    (occurrencesIn around os).length = sizeIn os := by
  rw [sizeIn, ← map_label_occurrencesIn around os, List.length_map]

variable [Ranked α]

/-! ## Chains -/

mutual

/-- A chain has no more nodes than the outline. -/
theorem chain_le_size : (o : Outline α) → chain o ≤ size o
  | node a parts => by
    have hparts := chainIn_le_sizeIn parts
    rw [chain_node, size_node, inside]
    split <;> omega

theorem chainIn_le_sizeIn : (os : List (Outline α)) → chainIn os ≤ sizeIn os
  | [] => Nat.le_refl 0
  | o :: os => by
    have hhead := chain_le_size o
    have htail := chainIn_le_sizeIn os
    rw [chainIn_cons, sizeIn_cons]
    omega

end

/-! ## Branches -/

/-- The label of the node itself. -/
def root : Outline α → α
  | node a _ => a

/-- Whether the node itself adds no branch. -/
def isPlain (o : Outline α) : Bool :=
  Ranked.ways (root o) == 0

mutual

/-- Each node has a part that adds no branch for each of its branches but one. -/
def Covered : Outline α → Prop
  | node a parts => Ranked.ways a ≤ 1 + parts.countP isPlain ∧ CoveredIn parts

/-- Each node of some outlines has parts for its branches. -/
def CoveredIn : List (Outline α) → Prop
  | [] => True
  | o :: os => Covered o ∧ CoveredIn os

end

@[simp] theorem covered_node (a : α) (parts : List (Outline α)) :
    Covered (node a parts) ↔ Ranked.ways a ≤ 1 + parts.countP isPlain ∧ CoveredIn parts := Iff.rfl

@[simp] theorem coveredIn_nil : CoveredIn ([] : List (Outline α)) := trivial

@[simp] theorem coveredIn_cons (o : Outline α) (os : List (Outline α)) :
    CoveredIn (o :: os) ↔ Covered o ∧ CoveredIn os := Iff.rfl

@[simp] theorem coveredIn_append (os ps : List (Outline α)) :
    CoveredIn (os ++ ps) ↔ CoveredIn os ∧ CoveredIn ps := by
  induction os with
  | nil => simp
  | cons o os ih => rw [List.cons_append, coveredIn_cons, coveredIn_cons, ih, and_assoc]

/-- All branches of an outline. -/
def waysOf (o : Outline α) : Nat :=
  ((labels o).map Ranked.ways).sum

/-- All branches of some outlines. -/
def waysIn (os : List (Outline α)) : Nat :=
  ((labelsIn os).map Ranked.ways).sum

theorem waysOf_node (a : α) (parts : List (Outline α)) :
    waysOf (node a parts) = Ranked.ways a + waysIn parts :=
  List.sum_cons

theorem waysIn_cons (o : Outline α) (os : List (Outline α)) :
    waysIn (o :: os) = waysOf o + waysIn os := by
  rw [waysIn, labelsIn_cons, List.map_append, List.sum_append]
  rfl

mutual

/-- There are no more branches than nodes. If the node itself adds none, it is left over for the
node around it. -/
theorem waysOf_le : (o : Outline α) → Covered o →
    waysOf o + (if isPlain o then 1 else 0) ≤ size o
  | node a parts, h => by
    obtain ⟨hways, hparts⟩ := h
    have hbelow := waysIn_le parts hparts
    rw [waysOf_node, size_node]
    split
    next hplain =>
      have hzero : Ranked.ways a = 0 := eq_of_beq hplain
      omega
    next => omega

theorem waysIn_le : (os : List (Outline α)) → CoveredIn os →
    waysIn os + os.countP isPlain ≤ sizeIn os
  | [], _ => Nat.le_refl 0
  | o :: os, h => by
    obtain ⟨ho, hos⟩ := h
    have hhead := waysOf_le o ho
    have htail := waysIn_le os hos
    rw [waysIn_cons, sizeIn_cons, List.countP_cons]
    omega

end

theorem branches_eq_waysIn (around : List α) (os : List (Outline α)) :
    branches (occurrencesIn around os) = waysIn os := by
  rw [waysIn, ← map_label_occurrencesIn around os, List.map_map]
  rfl

/-- **There are no more branches than nodes.** -/
theorem branches_le_size {around : List α} {os : List (Outline α)} (h : CoveredIn os) :
    branches (occurrencesIn around os) ≤ sizeIn os := by
  have hways := waysIn_le os h
  rw [branches_eq_waysIn]
  omega

/-! ## Depths -/

/-- The depths of the nodes that nest, added up. -/
def depths (os : List (Occurrence α)) : Nat :=
  ((os.filter Occurrence.nests).map Occurrence.depth).sum

theorem depths_cons (o : Occurrence α) (os : List (Occurrence α)) :
    depths (o :: os) = (if o.nests then o.depth else 0) + depths os := by
  rw [depths, List.filter_cons]
  split
  · rfl
  · exact (Nat.zero_add _).symm

theorem depths_append (os ps : List (Occurrence α)) :
    depths (os ++ ps) = depths os + depths ps := by
  rw [depths, List.filter_append, List.map_append, List.sum_append]
  rfl

mutual

/-- **The depths are no more than the pairs of nested nodes**, and each node is nested in the nodes
that nest around the outline. -/
theorem depths_le (around : List α) : (o : Outline α) →
    2 * depths (occurrences around o) + size o ≤
      size o * size o + 2 * (around.countP Ranked.nests * size o)
  | node a parts => by
    have hbelow := depthsIn_le (a :: around) parts
    rw [countP_cons_eq_inside, inside] at hbelow
    rw [occurrences, depths_cons, size_node]
    show 2 * ((if Ranked.nests a then around.countP Ranked.nests else 0) + _) + _ ≤ _
    generalize around.countP Ranked.nests = d at hbelow ⊢
    by_cases hnests : Ranked.nests a
    · rw [if_pos hnests] at hbelow ⊢
      linarith
    · rw [if_neg hnests] at hbelow ⊢
      linarith [Nat.zero_le d, Nat.zero_le (sizeIn parts)]

theorem depthsIn_le (around : List α) : (os : List (Outline α)) →
    2 * depths (occurrencesIn around os) + sizeIn os ≤
      sizeIn os * sizeIn os + 2 * (around.countP Ranked.nests * sizeIn os)
  | [] => Nat.le_refl 0
  | o :: os => by
    have hhead := depths_le around o
    have htail := depthsIn_le around os
    rw [occurrencesIn, depths_append, sizeIn_cons]
    nlinarith [Nat.zero_le (size o * sizeIn os)]

end

/-- **The weight of some nodes is at most quadratic**: their branches and their depths. -/
theorem two_mul_cognition_le {os : List (Outline α)} (h : CoveredIn os) :
    2 * cognition (occurrencesIn [] os) ≤ sizeIn os * (sizeIn os + 1) := by
  have hbranches : branches (occurrencesIn [] os) ≤ sizeIn os := branches_le_size h
  have hdepths := depthsIn_le [] os
  rw [cognition_eq_branches_add, ← depths]
  rw [List.countP_nil, Nat.zero_mul] at hdepths
  linarith

/-! ## Charges -/

mutual

/-- No node weighs more than its depth and the size of the outline, nor does it reach deeper. -/
theorem charge_atMost (d : Nat) : (o : Outline α) → Covered o →
    ∀ c ∈ charges d o, c.AtMost (d + size o)
  | node a parts, h => by
    obtain ⟨hways, hparts⟩ := h
    intro c hc
    have hplain := List.countP_le_length (p := isPlain) (l := parts)
    have hlength := length_le_sizeIn parts
    rw [size_node]
    rcases List.mem_append.mp hc with hc | hc
    · obtain ⟨-, hc⟩ := List.mem_ite_nil_right.mp hc
      obtain rfl := List.mem_singleton.mp hc
      constructor
      · show Ranked.ways a + (if Ranked.nests a then d else 0) ≤ _
        split <;> omega
      · show (if Ranked.nests a then d + 1 else 0) ≤ _
        split <;> omega
    · have hinside : inside d a ≤ d + 1 := by
        rw [inside]
        split <;> omega
      exact (chargeIn_atMost (inside d a) parts hparts c hc).mono (by omega)

theorem chargeIn_atMost (d : Nat) : (os : List (Outline α)) → CoveredIn os →
    ∀ c ∈ chargesIn d os, c.AtMost (d + sizeIn os)
  | [], _ => nofun
  | o :: os, h => by
    obtain ⟨ho, hos⟩ := h
    intro c hc
    rw [sizeIn_cons]
    rcases List.mem_append.mp hc with hc | hc
    · exact (charge_atMost d o ho c hc).mono (by omega)
    · exact (chargeIn_atMost d os hos c hc).mono (by omega)

end

end Outline

/-! ## Statements are covered -/

open Outline (isPlain)

/-- The cases of a switch add no branch of their own. -/
theorem SwitchCase.countP_isPlain (cs : List SwitchCase) :
    (SwitchCase.outlines cs).countP isPlain = cs.length := by
  induction cs with
  | nil => rfl
  | cons c cs ih =>
    cases c with
    | mk label body =>
      rw [outlines, List.countP_cons_of_pos rfl, ih]
      rfl

mutual

/-- The branches of a statement are covered: those of a switch by its cases. -/
theorem Stmt.covered : (s : Stmt) → s.outline.Covered
  | .ifElse c a none => by simp [c.covered, a.covered]
  | .ifElse c a (some b) => by simp [c.covered, a.covered, b.covered]
  | .whileLoop c b => by simp [c.covered, b.covered]
  | .doWhile b c => by simp [b.covered, c.covered]
  | .forLoop h b => by simp [Expr.coveredIn h, b.covered]
  | .forEach e b => by simp [e.covered, b.covered]
  | .switch e cs => by
    have hcases := SwitchCase.countP_isPlain cs
    refine ⟨?_, e.covered, SwitchCase.coveredIn cs⟩
    show cs.length ≤ 1 + _
    rw [List.countP_cons]
    omega
  | .tryCatch rs b cs none => by
    simp [Expr.coveredIn rs, Stmt.coveredIn b, CatchClause.coveredIn cs]
  | .tryCatch rs b cs (some f) => by
    simp [Expr.coveredIn rs, Stmt.coveredIn b, CatchClause.coveredIn cs, Stmt.coveredIn f]
  | .throw e => by simp [e.covered]
  | .block b => by simp [Stmt.coveredIn b]
  | .synchronized e b => by simp [e.covered, Stmt.coveredIn b]
  | .simple es => by simp [Expr.coveredIn es]

theorem Expr.covered : (e : Expr) → e.outline.Covered
  | .conditional c a b => by simp [c.covered, a.covered, b.covered]
  | .lambda s => by simp [s.covered]
  | .switch e cs => by simp [e.covered, SwitchCase.coveredIn cs]
  | .compound es => by simp [Expr.coveredIn es]
  | .atom => by simp

theorem Stmt.coveredIn : (ss : List Stmt) → Outline.CoveredIn (Stmt.outlines ss)
  | [] => trivial
  | s :: ss => ⟨s.covered, Stmt.coveredIn ss⟩

theorem Expr.coveredIn : (es : List Expr) → Outline.CoveredIn (Expr.outlines es)
  | [] => trivial
  | e :: es => ⟨e.covered, Expr.coveredIn es⟩

theorem SwitchCase.coveredIn : (cs : List SwitchCase) → Outline.CoveredIn (SwitchCase.outlines cs)
  | [] => trivial
  | .mk _ body :: cs => ⟨⟨Nat.zero_le _, Stmt.coveredIn body⟩, SwitchCase.coveredIn cs⟩

theorem CatchClause.coveredIn : (cs : List CatchClause) →
    Outline.CoveredIn (CatchClause.outlines cs)
  | [] => trivial
  | .mk _ body :: cs => ⟨⟨Nat.le_add_right 1 _, Stmt.coveredIn body⟩, CatchClause.coveredIn cs⟩

end

/-! ## Units -/

/-- A node that nests is no deeper than there are other nodes. -/
theorem Stmt.depth_lt {ss : List Stmt} {o : Occurrence Construct} (ho : o ∈ Stmt.occurrences ss)
    (hnests : o.nests) : o.depth + 1 ≤ (Stmt.occurrences ss).length := by
  have hchain := Outline.countP_le_chainIn [] (Stmt.outlines ss) o ho
  have hsize := Outline.chainIn_le_sizeIn (Stmt.outlines ss)
  have hlabel : Ranked.nests o.label = true := hnests
  rw [List.countP_cons_of_pos hlabel, List.countP_nil, Nat.zero_add] at hchain
  rw [Stmt.occurrences, Outline.length_occurrencesIn]
  exact hchain.trans hsize

namespace SourceUnit

/-- The number of methods and of all nodes of their bodies and of the other code: statements,
expressions, cases and handlers. -/
def size (u : SourceUnit) : Nat :=
  u.methods.length + u.occurrences.length

/-- The number of nodes of a method. -/
theorem length_occurrences_method (m : MethodDecl) :
    m.occurrences.length = Outline.sizeIn (Stmt.outlines m.statements) :=
  Outline.length_occurrencesIn [] _

theorem size_eq (u : SourceUnit) :
    u.size = u.methods.length + (u.methods.map fun m => m.occurrences.length).sum +
      (Stmt.occurrences u.otherCode).length := by
  rw [size, occurrences, List.length_append, List.length_flatMap, Nat.add_assoc]

/-- A method has no more nodes than the unit. -/
theorem length_occurrences_le {u : SourceUnit} {m : MethodDecl} (hm : m ∈ u.methods) :
    m.occurrences.length + 1 ≤ u.size := by
  have hsum : m.occurrences.length ≤ (u.methods.map fun m => m.occurrences.length).sum :=
    List.le_sum_of_mem (List.mem_map_of_mem hm)
  have hmethods : 0 < u.methods.length := List.length_pos_of_mem hm
  rw [size_eq]
  omega

theorem length_methods_le (u : SourceUnit) : u.methods.length ≤ u.size := by
  rw [size_eq]
  omega

theorem exactCyclomatic_le_size (u : SourceUnit) : u.exactCyclomatic ≤ u.size + 1 := by
  have hmethods : (u.methods.map fun m => Outline.branches m.occurrences).sum ≤
      (u.methods.map fun m => m.occurrences.length).sum := by
    apply List.sum_le_sum
    intro m _
    rw [length_occurrences_method]
    exact Outline.branches_le_size (Stmt.coveredIn m.statements)
  have hother : Outline.branches (Stmt.occurrences u.otherCode) ≤
      (Stmt.occurrences u.otherCode).length := by
    rw [Stmt.occurrences, Outline.length_occurrencesIn]
    exact Outline.branches_le_size (Stmt.coveredIn u.otherCode)
  rw [exactCyclomatic, size_eq]
  omega

theorem exactNesting_le_size (u : SourceUnit) : u.exactNesting ≤ u.size := by
  apply Outline.nesting_le
  intro o ho hnests
  rcases List.mem_append.mp ho with ho | ho
  · obtain ⟨m, hm, ho⟩ := List.mem_flatMap.mp ho
    have hdepth := Stmt.depth_lt ho hnests
    have hsize := length_occurrences_le hm
    rw [MethodDecl.occurrences] at hsize
    omega
  · have hdepth := Stmt.depth_lt ho hnests
    rw [size_eq]
    omega

/-- **The weight of a unit is at most quadratic in its size.** -/
theorem two_mul_exactCognitive_le (u : SourceUnit) :
    2 * u.exactCognitive ≤ u.size * (u.size + 1) := by
  have hmethods (ms : List MethodDecl) :
      2 * (ms.map fun m => Outline.cognition m.occurrences).sum ≤
        (ms.map fun m => m.occurrences.length).sum *
          ((ms.map fun m => m.occurrences.length).sum + 1) := by
    induction ms with
    | nil => exact Nat.le_refl 0
    | cons m ms ih =>
      have hm := Outline.two_mul_cognition_le (Stmt.coveredIn m.statements)
      rw [← length_occurrences_method] at hm
      change 2 * Outline.cognition m.occurrences ≤ _ at hm
      rw [List.map_cons, List.sum_cons, List.map_cons, List.sum_cons]
      -- what two methods hold together is no less than what each holds by itself
      nlinarith [Nat.zero_le (m.occurrences.length *
        (ms.map fun m => m.occurrences.length).sum)]
  have hsize : (u.methods.map fun m => m.occurrences.length).sum ≤ u.size := by
    rw [size_eq]
    omega
  calc 2 * u.exactCognitive
      ≤ _ := hmethods u.methods
    _ ≤ u.size * (u.size + 1) := Nat.mul_le_mul hsize (Nat.succ_le_succ hsize)

end SourceUnit

end CodeRisk
