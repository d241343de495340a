import CodeRisk.Proofs.Complexity.Construct

/-!
# Marks

Most nodes of an outline say nothing: a block only holds its statements. What an analysis asks of
some code is determined by the nodes that branch, nest or handle exceptions, with the depth of
each, in the order of the text. These are the marks of an outline. They determine its charges
(`Outline.chargesIn_eq`) and the constructs that occur in it (`Outline.filterMap_labelsIn`).

The labels of an outline need not be constructs. It is enough that they tell which construct they
stand for, if any, and count the way it does (`Marked`).
-/
namespace CodeRisk

/-- Whether a construct branches, nests or handles exceptions. -/
@[simp] def Construct.isMarked : Construct → Bool
  | ifElse | whileLoop | forLoop | forEach | switch _ | tryCatch | throw | conditional
  | handler => true
  | _ => false

/-- A construct with its depth. -/
structure Mark where
  construct : Construct
  depth : Nat
  deriving DecidableEq, Repr

/-- Labels that stand for constructs or for nothing, and count as these do. -/
class Marked (α : Type) [Ranked α] where
  /-- The construct that a label stands for. -/
  construct? : α → Option Construct
  ways_eq : ∀ a : α, Ranked.ways a = (construct? a).elim 0 Construct.ways
  nests_eq : ∀ a : α, Ranked.nests a = (construct? a).elim false Construct.nests

instance : Marked Construct where
  construct? c := if c.isMarked then some c else none
  ways_eq c := by cases c <;> rfl
  nests_eq c := by cases c <;> rfl

namespace Outline
variable {α : Type} [Ranked α] [Marked α]

/-- What one node leaves at a depth. -/
def mark (depth : Nat) (a : α) : List Mark :=
  (Marked.construct? a).toList.map (Mark.mk · depth)

mutual

/-- What the nodes of an outline at the given depth leave, each before its parts. -/
def marks (depth : Nat) : Outline α → List Mark
  | node a parts => mark depth a ++ marksIn (inside depth a) parts

/-- What the nodes of some outlines at the given depth leave. -/
def marksIn (depth : Nat) : List (Outline α) → List Mark
  | [] => []
  | o :: os => marks depth o ++ marksIn depth os

end

@[simp] theorem marks_node (d : Nat) (a : α) (parts : List (Outline α)) :
    marks d (node a parts) = mark d a ++ marksIn (inside d a) parts := rfl

@[simp] theorem marksIn_nil (d : Nat) : marksIn d ([] : List (Outline α)) = [] := rfl

@[simp] theorem marksIn_cons (d : Nat) (o : Outline α) (os : List (Outline α)) :
    marksIn d (o :: os) = marks d o ++ marksIn d os := rfl

@[simp] theorem marksIn_append (d : Nat) (os ps : List (Outline α)) :
    marksIn d (os ++ ps) = marksIn d os ++ marksIn d ps := by
  induction os with
  | nil => rfl
  | cons o os ih => simp [ih]

/-! ## What marks determine -/

theorem flatMap_charge_mark (d : Nat) (a : α) :
    ((mark d a).flatMap fun m => charge m.depth m.construct) = charge d a := by
  rw [charge, Marked.ways_eq, Marked.nests_eq, mark]
  cases Marked.construct? a with
  | none => rfl
  | some c => exact List.append_nil _

theorem map_construct_mark (d : Nat) (a : α) :
    (mark d a).map Mark.construct = (Marked.construct? a).toList := by
  rw [mark, List.map_map]
  exact List.map_id _

mutual

theorem charges_eq (d : Nat) : (o : Outline α) →
    charges d o = (marks d o).flatMap fun m => charge m.depth m.construct
  | node a parts => by
    rw [charges, marks, List.flatMap_append, flatMap_charge_mark,
      chargesIn_eq (inside d a) parts]

/-- The charges of some outlines are those of their marks. -/
theorem chargesIn_eq (d : Nat) : (os : List (Outline α)) →
    chargesIn d os = (marksIn d os).flatMap fun m => charge m.depth m.construct
  | [] => rfl
  | o :: os => by
    rw [chargesIn, marksIn, List.flatMap_append, charges_eq d o, chargesIn_eq d os]

end

mutual

theorem filterMap_labels (d : Nat) : (o : Outline α) →
    (labels o).filterMap Marked.construct? = (marks d o).map Mark.construct
  | node a parts => by
    rw [labels, marks, List.map_append, map_construct_mark, List.filterMap_cons,
      filterMap_labelsIn (inside d a) parts]
    cases Marked.construct? a <;> rfl

/-- The constructs that the nodes of some outlines stand for are those of their marks. -/
theorem filterMap_labelsIn (d : Nat) : (os : List (Outline α)) →
    (labelsIn os).filterMap Marked.construct? = (marksIn d os).map Mark.construct
  | [] => rfl
  | o :: os => by
    rw [labelsIn, marksIn, List.map_append, List.filterMap_append, filterMap_labels d o,
      filterMap_labelsIn d os]

end

end Outline

/-! ## The marks of statements and expressions -/

/-- What a statement at the given depth leaves. -/
def Stmt.marks (depth : Nat) (s : Stmt) : List Mark :=
  s.outline.marks depth

/-- What an expression at the given depth leaves. -/
def Expr.marks (depth : Nat) (e : Expr) : List Mark :=
  e.outline.marks depth

/-- What the statements of a case leave. -/
def SwitchCase.marks (depth : Nat) (c : SwitchCase) : List Mark :=
  c.body.flatMap (Stmt.marks depth)

/-- What a handler and its statements leave. -/
def CatchClause.marks (depth : Nat) (c : CatchClause) : List Mark :=
  ⟨.handler, depth⟩ :: c.body.flatMap (Stmt.marks depth)

section Lists
variable (d : Nat)

theorem Stmt.marksIn_outlines (ss : List Stmt) :
    Outline.marksIn d (Stmt.outlines ss) = ss.flatMap (Stmt.marks d) := by
  induction ss with
  | nil => rfl
  | cons s ss ih => rw [Stmt.outlines, Outline.marksIn_cons, ih, List.flatMap_cons, Stmt.marks]

theorem Expr.marksIn_outlines (es : List Expr) :
    Outline.marksIn d (Expr.outlines es) = es.flatMap (Expr.marks d) := by
  induction es with
  | nil => rfl
  | cons e es ih => rw [Expr.outlines, Outline.marksIn_cons, ih, List.flatMap_cons, Expr.marks]

theorem SwitchCase.marksIn_outlines (cs : List SwitchCase) :
    Outline.marksIn d (SwitchCase.outlines cs) = cs.flatMap (SwitchCase.marks d) := by
  induction cs with
  | nil => rfl
  | cons c cs ih =>
    cases c with
    | mk l body =>
      rw [SwitchCase.outlines, Outline.marksIn_cons, ih, List.flatMap_cons, SwitchCase.marks,
        ← Stmt.marksIn_outlines]
      rfl

theorem CatchClause.marksIn_outlines (cs : List CatchClause) :
    Outline.marksIn d (CatchClause.outlines cs) = cs.flatMap (CatchClause.marks d) := by
  induction cs with
  | nil => rfl
  | cons c cs ih =>
    cases c with
    | mk types body =>
      rw [CatchClause.outlines, Outline.marksIn_cons, ih, List.flatMap_cons, CatchClause.marks,
        ← Stmt.marksIn_outlines]
      rfl

end Lists

/-! ### By constructors -/

namespace Stmt
variable (d : Nat)

theorem marks_ifElse (c : Expr) (a : Stmt) (b : Option Stmt) :
    marks d (.ifElse c a b) =
      ⟨.ifElse, d⟩ :: (c.marks (d + 1) ++ a.marks (d + 1) ++
        b.toList.flatMap (marks (d + 1))) := by
  cases b with
  | none => simp [marks, Expr.marks, Outline.mark, Outline.inside, Marked.construct?]
  | some b => simp [marks, Expr.marks, Outline.mark, Outline.inside, Marked.construct?]

theorem marks_whileLoop (c : Expr) (b : Stmt) :
    marks d (.whileLoop c b) = ⟨.whileLoop, d⟩ :: (c.marks (d + 1) ++ b.marks (d + 1)) := by
  simp [marks, Expr.marks, Outline.mark, Outline.inside, Marked.construct?]

theorem marks_doWhile (b : Stmt) (c : Expr) :
    marks d (.doWhile b c) = b.marks d ++ c.marks d := by
  simp [marks, Expr.marks, Outline.mark, Outline.inside, Marked.construct?]

theorem marks_forLoop (h : List Expr) (b : Stmt) :
    marks d (.forLoop h b) =
      ⟨.forLoop, d⟩ :: (h.flatMap (Expr.marks (d + 1)) ++ b.marks (d + 1)) := by
  simp [marks, Outline.mark, Outline.inside, Marked.construct?, Expr.marksIn_outlines]

theorem marks_forEach (e : Expr) (b : Stmt) :
    marks d (.forEach e b) = ⟨.forEach, d⟩ :: (e.marks (d + 1) ++ b.marks (d + 1)) := by
  simp [marks, Expr.marks, Outline.mark, Outline.inside, Marked.construct?]

theorem marks_switch (e : Expr) (cs : List SwitchCase) :
    marks d (.switch e cs) =
      ⟨.switch cs.length, d⟩ ::
        (e.marks (d + 1) ++ cs.flatMap (SwitchCase.marks (d + 1))) := by
  simp [marks, Expr.marks, Outline.mark, Outline.inside, Marked.construct?,
    SwitchCase.marksIn_outlines]

theorem marks_tryCatch (rs : List Expr) (b : List Stmt) (cs : List CatchClause)
    (f : Option (List Stmt)) :
    marks d (.tryCatch rs b cs f) =
      ⟨.tryCatch, d⟩ :: (rs.flatMap (Expr.marks d) ++ b.flatMap (marks d) ++
        cs.flatMap (CatchClause.marks d) ++ (f.getD []).flatMap (marks d)) := by
  cases f with
  | none =>
    simp [marks, Outline.mark, Outline.inside, Marked.construct?, Expr.marksIn_outlines,
      Stmt.marksIn_outlines, CatchClause.marksIn_outlines]
  | some f =>
    simp [marks, Outline.mark, Outline.inside, Marked.construct?, Expr.marksIn_outlines,
      Stmt.marksIn_outlines, CatchClause.marksIn_outlines]

theorem marks_throw (e : Expr) : marks d (.throw e) = ⟨.throw, d⟩ :: e.marks d := by
  simp [marks, Expr.marks, Outline.mark, Outline.inside, Marked.construct?]

theorem marks_block (b : List Stmt) : marks d (.block b) = b.flatMap (marks d) := by
  simp [marks, Outline.mark, Outline.inside, Marked.construct?, Stmt.marksIn_outlines]

theorem marks_synchronized (e : Expr) (b : List Stmt) :
    marks d (.synchronized e b) = e.marks d ++ b.flatMap (marks d) := by
  simp [marks, Expr.marks, Outline.mark, Outline.inside, Marked.construct?, Stmt.marksIn_outlines]

theorem marks_simple (es : List Expr) :
    marks d (.simple es) = es.flatMap (Expr.marks d) := by
  simp [marks, Outline.mark, Outline.inside, Marked.construct?, Expr.marksIn_outlines]

end Stmt

namespace Expr
variable (d : Nat)

theorem marks_conditional (c a b : Expr) :
    marks d (.conditional c a b) =
      ⟨.conditional, d⟩ :: (c.marks d ++ a.marks d ++ b.marks d) := by
  simp [marks, Outline.mark, Outline.inside, Marked.construct?]

theorem marks_lambda (s : Stmt) : marks d (.lambda s) = s.marks d := by
  simp [marks, Stmt.marks, Outline.mark, Outline.inside, Marked.construct?]

theorem marks_switch (e : Expr) (cs : List SwitchCase) :
    marks d (.switch e cs) = e.marks d ++ cs.flatMap (SwitchCase.marks d) := by
  simp [marks, Outline.mark, Outline.inside, Marked.construct?, SwitchCase.marksIn_outlines]

theorem marks_compound (es : List Expr) :
    marks d (.compound es) = es.flatMap (marks d) := by
  simp [marks, Outline.mark, Outline.inside, Marked.construct?, Expr.marksIn_outlines]

@[simp] theorem marks_atom : marks d .atom = [] := by
  simp [marks, Outline.mark, Outline.inside, Marked.construct?]

/-- Expressions with nothing of interest leave nothing. -/
theorem flatMap_marks_filter (es : List Expr) :
    (es.filter fun e => !e.isAtom).flatMap (marks d) = es.flatMap (marks d) :=
  flatMap_filter_isAtom (marks_atom d) es

/-- What is put together from parts leaves what the parts leave. -/
theorem marks_ofParts (es : List Expr) : marks d (ofParts es) = es.flatMap (marks d) :=
  flatMap_ofParts (marks_atom d) (marks_compound d) es

end Expr

end CodeRisk
