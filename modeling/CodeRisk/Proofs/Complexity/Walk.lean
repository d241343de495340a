import CodeRisk.Complexity
import CodeRisk.Proofs.Complexity.Construct
import CodeRisk.Proofs.Counter

/-!
# The walk over a statement tree

The walk changes one shared tally at every node that counts. Here it is shown to be nothing but the
charges of the outline, entered one after the other (`stmt_eq_foldl` and its companions).
-/
namespace CodeRisk
namespace Tally
open Outline (charge inside chargesIn)
open Counter (ofNat_succ)

/-- Enters a charge into a tally. -/
def enter (t : Tally) (c : Charge) : Tally :=
  if c.nests then t.branch (.ofNat c.ways) (.ofNat c.depth)
  else t.bump (.ofNat c.ways) (.ofNat c.ways)

/-! ## One step for each construct

The recursion is that of the walk. At a construct that nests, the depth grows by one on both sides;
elsewhere the parts are walked at the same depth. -/

mutual

/-- **Walking a statement enters the charges of its outline, in order.** -/
theorem stmt_eq_foldl (d : Nat) : (s : Stmt) → (t : Tally) →
    stmt (.ofNat d) s t = (s.outline.charges d).foldl enter t
  | .ifElse c a none, t => by
    rw [stmt, ofNat_succ, expr_eq_foldl, stmt_eq_foldl]
    simp [charge, inside, enter]
  | .ifElse c a (some b), t => by
    rw [stmt, ofNat_succ, expr_eq_foldl, stmt_eq_foldl, stmt_eq_foldl]
    simp [charge, inside, enter]
  | .whileLoop c b, t => by
    rw [stmt, ofNat_succ, expr_eq_foldl, stmt_eq_foldl]
    simp [charge, inside, enter]
  | .forLoop h b, t => by
    rw [stmt, ofNat_succ, exprs_eq_foldl, stmt_eq_foldl]
    simp [charge, inside, enter]
  | .forEach e b, t => by
    rw [stmt, ofNat_succ, expr_eq_foldl, stmt_eq_foldl]
    simp [charge, inside, enter]
  | .switch e cs, t => by
    rw [stmt, ofNat_succ, expr_eq_foldl, cases_eq_foldl]
    simp [charge, inside, enter]
  | .doWhile b c, t => by
    rw [stmt, stmt_eq_foldl, expr_eq_foldl]
    simp [charge, inside]
  | .tryCatch rs b cs none, t => by
    rw [stmt, exprs_eq_foldl, stmts_eq_foldl, catches_eq_foldl]
    simp [charge, inside]
  | .tryCatch rs b cs (some f), t => by
    rw [stmt, exprs_eq_foldl, stmts_eq_foldl, catches_eq_foldl, stmts_eq_foldl]
    simp [charge, inside]
  | .throw e, t => by
    rw [stmt, expr_eq_foldl]
    simp [charge, inside]
  | .block b, t => by
    rw [stmt, stmts_eq_foldl]
    simp [charge, inside]
  | .synchronized e b, t => by
    rw [stmt, expr_eq_foldl, stmts_eq_foldl]
    simp [charge, inside]
  | .simple es, t => by
    rw [stmt, exprs_eq_foldl]
    simp [charge, inside]

/-- Walking an expression enters the charges of its outline, in order. -/
theorem expr_eq_foldl (d : Nat) : (e : Expr) → (t : Tally) →
    expr (.ofNat d) e t = (e.outline.charges d).foldl enter t
  | .conditional c a b, t => by
    rw [expr, expr_eq_foldl, expr_eq_foldl, expr_eq_foldl]
    simp [charge, inside, enter]
  | .lambda s, t => by
    rw [expr, stmt_eq_foldl]
    simp [charge, inside]
  | .switch e cs, t => by
    rw [expr, expr_eq_foldl, cases_eq_foldl]
    simp [charge, inside]
  | .compound es, t => by
    rw [expr, exprs_eq_foldl]
    simp [charge, inside]
  | .atom, t => by
    simp [expr, charge]

theorem stmts_eq_foldl (d : Nat) : (ss : List Stmt) → (t : Tally) →
    stmts (.ofNat d) ss t = (chargesIn d (Stmt.outlines ss)).foldl enter t
  | [], _ => rfl
  | s :: ss, t => by
    rw [stmts, stmt_eq_foldl, stmts_eq_foldl, Stmt.outlines, chargesIn, List.foldl_append]

theorem exprs_eq_foldl (d : Nat) : (es : List Expr) → (t : Tally) →
    exprs (.ofNat d) es t = (chargesIn d (Expr.outlines es)).foldl enter t
  | [], _ => rfl
  | e :: es, t => by
    rw [exprs, expr_eq_foldl, exprs_eq_foldl, Expr.outlines, chargesIn, List.foldl_append]

theorem cases_eq_foldl (d : Nat) : (cs : List SwitchCase) → (t : Tally) →
    cases (.ofNat d) cs t = (chargesIn d (SwitchCase.outlines cs)).foldl enter t
  | [], _ => rfl
  | .mk _ body :: cs, t => by
    rw [cases, stmts_eq_foldl, cases_eq_foldl, SwitchCase.outlines]
    simp [charge, inside]

theorem catches_eq_foldl (d : Nat) : (cs : List CatchClause) → (t : Tally) →
    catches (.ofNat d) cs t = (chargesIn d (CatchClause.outlines cs)).foldl enter t
  | [], _ => rfl
  | .mk _ body :: cs, t => by
    rw [catches, stmts_eq_foldl, catches_eq_foldl, CatchClause.outlines]
    simp [charge, inside, enter]

end

/-! ## Many charges at once -/

/-- The tally with branches and weight added to the counters and a level reached. -/
def grow (t : Tally) (branches cognition : Nat) (level : UInt32) : Tally :=
  { t with
    cyclomatic := t.cyclomatic + .ofNat branches
    maxNesting := max t.maxNesting level
    current := t.current.map fun m =>
      ⟨m.cyclomatic + .ofNat branches, m.cognitive + .ofNat cognition⟩ }

theorem grow_zero (t : Tally) : t.grow 0 0 0 = t := by
  obtain ⟨_, _, _, _, _, _, current⟩ := t
  cases current <;> simp [grow]

theorem grow_grow (t : Tally) (b c b' c' : Nat) (l l' : UInt32) :
    (t.grow b c l).grow b' c' l' = t.grow (b + b') (c + c') (max l l') := by
  obtain ⟨_, _, _, _, _, _, current⟩ := t
  cases current <;> simp [grow, Counter.max_assoc, UInt32.add_assoc]

theorem enter_eq_grow (t : Tally) (c : Charge) :
    t.enter c = t.grow c.ways c.weight (.ofNat c.level) := by
  obtain ⟨ways, nests, depth⟩ := c
  -- a charge that nests enters its weight with the depth and reaches one level more
  cases nests with
  | false => simp [enter, bump, grow, Charge.weight, Charge.level]
  | true => simp [enter, branch, bump, reach, grow, Charge.weight, Charge.level]

/-- The deepest level of some charges, as a counter. -/
def level (cs : List Charge) : UInt32 :=
  Counter.largest (cs.map fun c => .ofNat c.level)

theorem level_append (cs ds : List Charge) : level (cs ++ ds) = max (level cs) (level ds) := by
  rw [level, List.map_append, Counter.largest_append, level, level]

/-- The counter of the deepest level holds that level if it is below the limit. -/
theorem toNat_level {cs : List Charge} (h : Charge.nesting cs < Counter.limit) :
    (level cs).toNat = Charge.nesting cs := by
  induction cs with
  | nil => rfl
  | cons c cs ih =>
    rw [Charge.nesting_cons] at h ⊢
    have hc : c.level < Counter.limit := by omega
    have hcs := ih (by omega)
    show (max (UInt32.ofNat c.level) (level cs)).toNat = _
    rw [Counter.toNat_max, Counter.toNat_ofNat_of_lt hc, hcs]

/-- **Entering charges one after the other adds their figures at once.** -/
theorem foldl_enter (cs : List Charge) (t : Tally) :
    cs.foldl enter t = t.grow (Charge.branches cs) (Charge.cognition cs) (level cs) := by
  induction cs generalizing t with
  | nil => exact (grow_zero t).symm
  | cons c cs ih =>
    rw [List.foldl_cons, ih, enter_eq_grow, grow_grow, Charge.branches_cons, Charge.cognition_cons]
    rfl

end Tally

/-! ## Whole bodies -/

/-- The deepest level inside some statements, as a counter. -/
def Stmt.level (ss : List Stmt) : UInt32 :=
  Tally.level (Outline.chargesIn 0 (Stmt.outlines ss))

/-- The deepest level inside some statements is that of the deepest one. -/
theorem Stmt.level_eq_largest (ss : List Stmt) :
    Stmt.level ss = Counter.largest (ss.map fun s => Stmt.level [s]) := by
  induction ss with
  | nil => rfl
  | cons s ss ih =>
    rw [List.map_cons, Counter.largest_cons, ← ih, Stmt.level, Stmt.level, Stmt.level,
      ← Tally.level_append, ← Outline.chargesIn_append]
    rfl

/-- The counter of the deepest level holds that level if it is below the limit. -/
theorem Stmt.toNat_level {ss : List Stmt}
    (h : Outline.nesting (Stmt.occurrences ss) < Counter.limit) :
    (Stmt.level ss).toNat = Outline.nesting (Stmt.occurrences ss) := by
  have hfig : Outline.nesting (Stmt.occurrences ss) =
      Charge.nesting (Outline.chargesIn 0 (Stmt.outlines ss)) :=
    Outline.nesting_occurrencesIn [] (Stmt.outlines ss)
  rw [hfig] at h ⊢
  exact Tally.toNat_level h

namespace Tally

/-- **Walking statements adds the figures of all nodes in them**, whatever was counted before. -/
theorem stmts_eq_grow (ss : List Stmt) (t : Tally) :
    stmts 0 ss t = t.grow (Outline.branches (Stmt.occurrences ss))
      (Outline.cognition (Stmt.occurrences ss)) (Stmt.level ss) := by
  rw [Stmt.occurrences, Outline.branches_occurrencesIn, Outline.cognition_occurrencesIn,
    show (0 : UInt32) = .ofNat 0 from rfl, stmts_eq_foldl, foldl_enter]
  rfl

theorem body_eq_stmts (m : MethodDecl) (t : Tally) : t.body m.body = stmts 0 m.statements t := by
  cases h : m.body <;> simp [body, MethodDecl.statements, h, stmts]

end Tally
end CodeRisk
