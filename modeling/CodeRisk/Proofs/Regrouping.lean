import CodeRisk.Proofs.Context

/-!
# Code that is grouped in another way

How code is grouped says nothing about it: a compound that is collapsed, a block around a single
statement, the expressions of a statement put together, a loop that is written as its body and its
condition, a try statement without handlers that is written as a block (`Regroups`). No figure of
the complexity changes when a piece of code is grouped in another way, wherever it stands; and
whether exceptions are handled changes only if a try statement is taken away
(`SourceUnit.figures_eq_of_regroups`).
-/
namespace CodeRisk

/-- The second piece is the first one, grouped in another way. The flag `tries` tells whether a try
statement may be taken away; it has no handlers then, and what is left of it are its resources, its
statements and those behind `finally`. -/
inductive Regroups (tries : Bool) : (k : CodeKind) → k.Code → k.Code → Prop where
  | compound (es : List Expr) : Regroups tries .expression (Expr.compound es) (.ofParts es)
  | block (s : Stmt) : Regroups tries .statement (Stmt.block [s]) s
  | simple (es : List Expr) : Regroups tries .statement (Stmt.simple es) (.simple [.ofParts es])
  | doWhile (b : Stmt) (c : Expr) :
      Regroups tries .statement (Stmt.doWhile b c) (.block [b, .simple [c]])
  | tryCatch (htries : tries = true) (rs : List Expr) (b : Block) (f : Option Block) :
      Regroups tries .statement (Stmt.tryCatch rs b [] f) (.block (.simple rs :: b ++ f.getD []))

/-! ## Parts of an expression -/

namespace Tally
variable (d : UInt32) (es : List Expr) (t : Tally)

/-- Nothing is counted in atoms. -/
theorem exprs_filter : exprs d (es.filter fun e => !e.isAtom) t = exprs d es t := by
  induction es generalizing t with
  | nil => rfl
  | cons e es ih =>
    rw [List.filter_cons, exprs]
    cases e with
    | atom => exact ih t
    | _ => exact ih _

theorem expr_ofParts : expr d (.ofParts es) t = exprs d es t := by
  rw [← exprs_filter, Expr.ofParts]
  split
  next h => rw [h, expr, exprs]
  next e h => rw [h, exprs, exprs]
  next => rw [expr]

end Tally

/-- No exceptions are handled in atoms. -/
theorem Expr.any_handlesExceptions_filter (es : List Expr) :
    (es.filter fun e => !e.isAtom).any Expr.handlesExceptions =
      es.any Expr.handlesExceptions := by
  rw [List.any_filter]
  refine congrArg es.any (funext fun e => ?_)
  cases e with
  | atom => rfl
  | _ => exact Bool.true_and _

theorem Expr.handlesExceptions_ofParts (es : List Expr) :
    (ofParts es).handlesExceptions = Expr.anyHandles es := by
  rw [Expr.anyHandles_eq_any, ← Expr.any_handlesExceptions_filter, ofParts]
  split
  next h => rw [h, Expr.handlesExceptions, List.any_nil]
  next e h => rw [h, List.any_cons, List.any_nil, Bool.or_false]
  next => rw [Expr.handlesExceptions, Expr.anyHandles_eq_any]

/-! ## Pieces -/

namespace Regroups
variable {tries : Bool} {k : CodeKind} {x y : k.Code}

/-- **The walk counts the same** in a piece that is grouped in another way. -/
theorem sameWalk (h : Regroups tries k x y) : SameWalk k x y := by
  cases h with
  | compound es =>
    intro d t
    rw [Tally.expr_ofParts, Tally.expr]
  | block s =>
    intro d t
    rw [Tally.stmt, Tally.stmts, Tally.stmts]
  | simple es =>
    intro d t
    rw [Tally.stmt, Tally.stmt, Tally.exprs, Tally.exprs, Tally.expr_ofParts]
  | doWhile b c =>
    intro d t
    simp only [Tally.stmt, Tally.stmts, Tally.exprs]
  | tryCatch _ rs b f =>
    intro d t
    cases f with
    | none => simp only [Tally.stmt, Tally.stmts, Tally.catches, List.cons_append,
        Tally.stmts_append, Option.getD_none]
    | some f => simp only [Tally.stmt, Tally.stmts, Tally.catches, List.cons_append,
        Tally.stmts_append, Option.getD_some]

/-- Exceptions are handled as before unless a try statement is taken away. -/
theorem sameHandling (h : Regroups false k x y) : SameHandling k x y := by
  cases h with
  | compound es =>
    show Expr.handlesExceptions _ = Expr.handlesExceptions _
    rw [Expr.handlesExceptions_ofParts, Expr.handlesExceptions]
  | block s =>
    show Stmt.handlesExceptions _ = Stmt.handlesExceptions _
    rw [Stmt.handlesExceptions, Stmt.anyHandles, Stmt.anyHandles, Bool.or_false]
  | simple es =>
    show Stmt.handlesExceptions _ = Stmt.handlesExceptions _
    rw [Stmt.handlesExceptions, Stmt.handlesExceptions, Expr.anyHandles, Expr.anyHandles,
      Expr.handlesExceptions_ofParts, Bool.or_false]
  | doWhile b c =>
    show Stmt.handlesExceptions _ = Stmt.handlesExceptions _
    simp only [Stmt.handlesExceptions, Stmt.anyHandles, Expr.anyHandles, Bool.or_false]
    exact Bool.or_comm ..
  | tryCatch htries => cases htries

end Regroups

/-! ## Units -/

namespace SourceUnit

/-- **How code is grouped shows in no figure.** -/
theorem figures_eq_of_regroups {ν : Type} [Scale ν] {tries : Bool} {k : CodeKind}
    (c : SourceUnit.Context k) {x y : k.Code} (h : Regroups tries k x y) :
    ((c.fill y).complexity : CodeComplexity ν) = (c.fill x).complexity ∧
      (c.fill y).methods.map MethodDecl.complexity =
        (c.fill x).methods.map MethodDecl.complexity ∧
      (tries = false → ((c.fill y).business : BusinessComplexity ν).exceptionHandling =
        ((c.fill x).business : BusinessComplexity ν).exceptionHandling) := by
  refine ⟨?_, (c.map_complexity_congr h.sameWalk).symm, ?_⟩
  · exact congrArg Tally.figures (c.tally_congr h.sameWalk).symm
  · rintro rfl
    exact (c.handlesExceptions_congr h.sameHandling).symm

/-- A method with a lambda in a loop that lacks its body. -/
def Context.sampleLambda : SourceUnit.Context .statement :=
  .method empty ⟨[], []⟩ ⟨"run", [], [], [], none, ⟨1, 9⟩⟩ "\x7b...\x7d" ⟨[], [.simple []]⟩
    (.inside (.forBody [.atom]) (.inside (.simple ⟨[.atom], []⟩) (.inside .lambda .here)))

/-- In a lambda in a loop, a try statement with a condition in it counts as much as the block in its
place, and so does a loop that ends with its condition. Without the try statement no exceptions are
handled. -/
theorem figures_eq_of_regroups_sample :
    let tried : Stmt := .tryCatch [.conditional .atom .atom .atom] [.ifElse .atom (.block []) none]
      [] (some [.simple []])
    let untried : Stmt := .block [.simple [.conditional .atom .atom .atom],
      .ifElse .atom (.block []) none, .simple []]
    let looped : Stmt := .doWhile tried (.lambda untried)
    let unlooped : Stmt := .block [tried, .simple [.lambda untried]]
    let unit := Context.sampleLambda.fill
    (Regroups true .statement tried untried ∧
      ((unit untried).complexity : CodeComplexity Float) = (unit tried).complexity ∧
      (unit untried).methods.map MethodDecl.complexity = [⟨"run", 4, 4, 9⟩] ∧
      ((unit tried).business : BusinessComplexity Float).exceptionHandling = true ∧
      ((unit untried).business : BusinessComplexity Float).exceptionHandling = false) ∧
    Regroups false .statement looped unlooped ∧
      ((unit unlooped).complexity : CodeComplexity Float) = (unit looped).complexity ∧
      ((unit unlooped).business : BusinessComplexity Float).exceptionHandling = true := by
  intro tried untried looped unlooped unit
  have htry : Regroups true .statement tried untried := .tryCatch rfl _ _ _
  have hloop : Regroups false .statement looped unlooped := .doWhile _ _
  obtain ⟨hfigures, hmethods, -⟩ := figures_eq_of_regroups (ν := Float) Context.sampleLambda htry
  obtain ⟨hloops, -, hflag⟩ := figures_eq_of_regroups (ν := Float) Context.sampleLambda hloop
  refine ⟨⟨htry, hfigures, hmethods.trans ?_, rfl, rfl⟩, hloop, hloops, ?_⟩
  · decide +kernel
  · exact (hflag rfl).trans rfl

end SourceUnit

end CodeRisk
