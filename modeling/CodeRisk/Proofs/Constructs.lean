import CodeRisk.Proofs.Complexity.Mark
import CodeRisk.Proofs.Exceptions

/-!
# The constructs of a unit

The statement trees of a unit are the bodies of its methods and the pieces of its other code. The
constructs in them, one tree after the other, determine the two figures that speak of all code: the
cyclomatic complexity (`SourceUnit.exactCyclomatic_eq_constructs`) and whether exceptions are
handled (`SourceUnit.handlesExceptions_eq_constructs`).
-/
namespace CodeRisk
open Outline (labelsIn)

/-- The constructs in some statements, in the order of the text. -/
def Stmt.constructs (ss : List Stmt) : List Construct :=
  (labelsIn (Stmt.outlines ss)).filter Construct.isMarked

theorem Stmt.constructs_eq (d : Nat) (ss : List Stmt) :
    Stmt.constructs ss = (Outline.marksIn d (Stmt.outlines ss)).map Mark.construct := by
  rw [← Outline.filterMap_labelsIn, Stmt.constructs, ← List.filterMap_eq_filter]
  rfl

namespace Construct

/-- What is not marked has no branches. -/
theorem sum_ways_filter (cs : List Construct) :
    ((cs.filter isMarked).map ways).sum = (cs.map ways).sum := by
  induction cs with
  | nil => rfl
  | cons c cs ih =>
    rw [List.map_cons, List.sum_cons, ← ih, List.filter_cons]
    split
    · rfl
    next hmarked =>
      have hways : c.ways = 0 := by
        cases c <;> first | rfl | exact absurd rfl hmarked
      rw [hways, Nat.zero_add]

/-- What is not marked handles no exceptions. -/
theorem any_handlesExceptions_filter (cs : List Construct) :
    (cs.filter isMarked).any handlesExceptions = cs.any handlesExceptions := by
  rw [List.any_filter]
  refine congrArg _ (funext fun c => ?_)
  cases c <;> rfl

end Construct

namespace SourceUnit

/-- The statement trees of a unit: one for each method and one for each piece of other code. -/
def trees (u : SourceUnit) : List (List Stmt) :=
  u.methods.map MethodDecl.statements ++ u.otherCode.map fun s => [s]

/-- The constructs in the trees of a unit are the marked nodes of its code. -/
theorem flatMap_constructs (u : SourceUnit) :
    u.trees.flatMap Stmt.constructs =
      (u.occurrences.map Occurrence.label).filter Construct.isMarked := by
  have hlabels (ss : List Stmt) : ((Stmt.occurrences ss).map Occurrence.label).filter
      Construct.isMarked = Stmt.constructs ss := by
    rw [Stmt.occurrences, Outline.map_label_occurrencesIn, Stmt.constructs]
  have hcode (ss : List Stmt) :
      (ss.map fun s => [s]).flatMap Stmt.constructs = Stmt.constructs ss := by
    induction ss with
    | nil => rfl
    | cons s ss ih =>
      rw [List.map_cons, List.flatMap_cons, ih]
      simp [Stmt.constructs]
  rw [trees, occurrences, List.flatMap_append, List.map_append, List.filter_append, hlabels, hcode,
    List.map_flatMap, List.filter_flatMap, List.flatMap_map]
  exact congrArg (· ++ _) (List.flatMap_congr fun m _ => (hlabels m.statements).symm)

/-- The cyclomatic complexity of a unit counts the branches of its constructs. -/
theorem exactCyclomatic_eq_constructs (u : SourceUnit) :
    u.exactCyclomatic = 1 + ((u.trees.flatMap Stmt.constructs).map Construct.ways).sum := by
  rw [exactCyclomatic_eq, flatMap_constructs, Construct.sum_ways_filter, List.map_map]
  rfl

/-- Exceptions are handled in a unit if one of its constructs handles them. -/
theorem handlesExceptions_eq_constructs (u : SourceUnit) :
    u.handlesExceptions =
      (u.trees.flatMap Stmt.constructs).any Construct.handlesExceptions := by
  rw [handlesExceptions_eq, flatMap_constructs, Construct.any_handlesExceptions_filter,
    List.any_map]
  rfl

end SourceUnit

end CodeRisk
