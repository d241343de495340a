import CodeRisk.Business
import CodeRisk.Proofs.Complexity.Unit

/-!
# Where exceptions are handled

Whether a try or throw statement occurs in a statement tree is found by a search of its own. It
stops at the first one, so it does not visit all nodes; but it finds one if and only if there is one
among the nodes of the outline (`Stmt.anyHandles_eq_any`), and so it is with all code of a unit
(`SourceUnit.handlesExceptions_eq`).
-/
namespace CodeRisk

/-- Whether the construct is a try or throw statement. -/
@[simp] def Construct.handlesExceptions : Construct → Bool
  | tryCatch | throw => true
  | _ => false

open Outline (labels labelsIn)
open Construct (handlesExceptions)

mutual

theorem Stmt.handlesExceptions_eq : (s : Stmt) →
    s.handlesExceptions = (labels s.outline).any handlesExceptions
  | .ifElse c a none => by
    simp [Stmt.handlesExceptions, Expr.handlesExceptions_eq c, Stmt.handlesExceptions_eq a]
  | .ifElse c a (some b) => by
    simp [Stmt.handlesExceptions, Expr.handlesExceptions_eq c, Stmt.handlesExceptions_eq a,
      Stmt.handlesExceptions_eq b, Bool.or_assoc]
  | .whileLoop c b => by
    simp [Stmt.handlesExceptions, Expr.handlesExceptions_eq c, Stmt.handlesExceptions_eq b]
  | .doWhile b c => by
    simp [Stmt.handlesExceptions, Expr.handlesExceptions_eq c, Stmt.handlesExceptions_eq b,
      Bool.or_comm]
  | .forLoop h b => by
    simp [Stmt.handlesExceptions, Expr.anyHandles_eq h, Stmt.handlesExceptions_eq b]
  | .forEach e b => by
    simp [Stmt.handlesExceptions, Expr.handlesExceptions_eq e, Stmt.handlesExceptions_eq b]
  | .switch e cs => by
    simp [Stmt.handlesExceptions, Expr.handlesExceptions_eq e, SwitchCase.anyHandles_eq cs]
  | .tryCatch _ _ _ none => by
    simp [Stmt.handlesExceptions]
  | .tryCatch _ _ _ (some _) => by
    simp [Stmt.handlesExceptions]
  | .throw _ => by
    simp [Stmt.handlesExceptions]
  | .block b => by
    simp [Stmt.handlesExceptions, Stmt.anyHandles_eq b]
  | .synchronized e b => by
    simp [Stmt.handlesExceptions, Expr.handlesExceptions_eq e, Stmt.anyHandles_eq b]
  | .simple es => by
    simp [Stmt.handlesExceptions, Expr.anyHandles_eq es]

theorem Expr.handlesExceptions_eq : (e : Expr) →
    e.handlesExceptions = (labels e.outline).any handlesExceptions
  | .conditional c a b => by
    simp [Expr.handlesExceptions, Expr.handlesExceptions_eq c, Expr.handlesExceptions_eq a,
      Expr.handlesExceptions_eq b, Bool.or_assoc]
  | .lambda s => by
    simp [Expr.handlesExceptions, Stmt.handlesExceptions_eq s]
  | .switch e cs => by
    simp [Expr.handlesExceptions, Expr.handlesExceptions_eq e, SwitchCase.anyHandles_eq cs]
  | .compound es => by
    simp [Expr.handlesExceptions, Expr.anyHandles_eq es]
  | .atom => rfl

theorem Stmt.anyHandles_eq : (ss : List Stmt) →
    Stmt.anyHandles ss = (labelsIn (Stmt.outlines ss)).any handlesExceptions
  | [] => rfl
  | s :: ss => by
    simp [Stmt.anyHandles, Stmt.handlesExceptions_eq s, Stmt.anyHandles_eq ss]

theorem Expr.anyHandles_eq : (es : List Expr) →
    Expr.anyHandles es = (labelsIn (Expr.outlines es)).any handlesExceptions
  | [] => rfl
  | e :: es => by
    simp [Expr.anyHandles, Expr.handlesExceptions_eq e, Expr.anyHandles_eq es]

theorem SwitchCase.anyHandles_eq : (cs : List SwitchCase) →
    SwitchCase.anyHandles cs = (labelsIn (SwitchCase.outlines cs)).any handlesExceptions
  | [] => rfl
  | .mk _ body :: cs => by
    simp [SwitchCase.anyHandles, Stmt.anyHandles_eq body, SwitchCase.anyHandles_eq cs]

end

/-- **A try or throw statement occurs** in some statements if it is one of their nodes. -/
theorem Stmt.anyHandles_eq_any (ss : List Stmt) :
    Stmt.anyHandles ss = (Stmt.occurrences ss).any fun o => o.label.handlesExceptions := by
  rw [Stmt.anyHandles_eq, Stmt.occurrences, ← Outline.map_label_occurrencesIn [], List.any_map]
  rfl

namespace SourceUnit

/-- **Exceptions are handled** in a unit if a try or throw statement is among the nodes of its
code. -/
theorem handlesExceptions_eq (u : SourceUnit) :
    u.handlesExceptions = u.occurrences.any fun o => o.label.handlesExceptions := by
  have hmethods (ms : List MethodDecl) :
      ((ms.filterMap (·.body)).any fun b => Stmt.anyHandles b.block) =
        (ms.flatMap MethodDecl.occurrences).any fun o => o.label.handlesExceptions := by
    induction ms with
    | nil => rfl
    | cons m ms ih =>
      rw [List.flatMap_cons, List.any_append, ← ih, MethodDecl.occurrences, MethodDecl.statements,
        ← Stmt.anyHandles_eq_any, List.filterMap_cons]
      cases m.body <;> rfl
  rw [handlesExceptions, occurrences, List.any_append, hmethods, Stmt.anyHandles_eq_any]

end SourceUnit

end CodeRisk
