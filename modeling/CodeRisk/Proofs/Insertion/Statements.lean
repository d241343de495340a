import CodeRisk.Proofs.Complexity.Construct
import CodeRisk.Proofs.Insertion.Outline

/-!
# Statements put into statements

`Stmt.Insertion` puts one statement at any place of any list of statements in a statement: a block,
the body of a try statement, of a handler or of a case, or the block of a lambda in an expression,
however deep. It has a constructor for each way down from a statement to one of its parts, and on
each of them the outline of the old statement lies within that of the new one
(`Stmt.Insertion.within`).
-/
namespace CodeRisk

mutual

/-- The second statement is the first with one statement put into a list of statements in it. -/
inductive Stmt.Insertion : Stmt → Stmt → Prop where
  | ifCondition {c c' : Expr} {a : Stmt} {b : Option Stmt} (h : Expr.Insertion c c') :
      Stmt.Insertion (.ifElse c a b) (.ifElse c' a b)
  | ifThen {c : Expr} {a a' : Stmt} {b : Option Stmt} (h : Stmt.Insertion a a') :
      Stmt.Insertion (.ifElse c a b) (.ifElse c a' b)
  | ifElse {c : Expr} {a b b' : Stmt} (h : Stmt.Insertion b b') :
      Stmt.Insertion (.ifElse c a (some b)) (.ifElse c a (some b'))
  | whileCondition {c c' : Expr} {b : Stmt} (h : Expr.Insertion c c') :
      Stmt.Insertion (.whileLoop c b) (.whileLoop c' b)
  | whileBody {c : Expr} {b b' : Stmt} (h : Stmt.Insertion b b') :
      Stmt.Insertion (.whileLoop c b) (.whileLoop c b')
  | doBody {b b' : Stmt} {c : Expr} (h : Stmt.Insertion b b') :
      Stmt.Insertion (.doWhile b c) (.doWhile b' c)
  | doCondition {b : Stmt} {c c' : Expr} (h : Expr.Insertion c c') :
      Stmt.Insertion (.doWhile b c) (.doWhile b c')
  | forHeader {es es' : List Expr} {b : Stmt} (h : Expr.InsertionIn es es') :
      Stmt.Insertion (.forLoop es b) (.forLoop es' b)
  | forBody {es : List Expr} {b b' : Stmt} (h : Stmt.Insertion b b') :
      Stmt.Insertion (.forLoop es b) (.forLoop es b')
  | forEachIterable {e e' : Expr} {b : Stmt} (h : Expr.Insertion e e') :
      Stmt.Insertion (.forEach e b) (.forEach e' b)
  | forEachBody {e : Expr} {b b' : Stmt} (h : Stmt.Insertion b b') :
      Stmt.Insertion (.forEach e b) (.forEach e b')
  | switchSelector {e e' : Expr} {cs : List SwitchCase} (h : Expr.Insertion e e') :
      Stmt.Insertion (.switch e cs) (.switch e' cs)
  | switchCase {e : Expr} {cs cs' : List SwitchCase} (h : SwitchCase.InsertionIn cs cs') :
      Stmt.Insertion (.switch e cs) (.switch e cs')
  | tryResource {rs rs' : List Expr} {b : Block} {cs : List CatchClause} {f : Option Block}
      (h : Expr.InsertionIn rs rs') : Stmt.Insertion (.tryCatch rs b cs f) (.tryCatch rs' b cs f)
  | tryBody {rs : List Expr} {b b' : Block} {cs : List CatchClause} {f : Option Block}
      (h : Stmt.InsertionIn b b') : Stmt.Insertion (.tryCatch rs b cs f) (.tryCatch rs b' cs f)
  | tryCatch {rs : List Expr} {b : Block} {cs cs' : List CatchClause} {f : Option Block}
      (h : CatchClause.InsertionIn cs cs') :
      Stmt.Insertion (.tryCatch rs b cs f) (.tryCatch rs b cs' f)
  | tryFinally {rs : List Expr} {b : Block} {cs : List CatchClause} {f f' : Block}
      (h : Stmt.InsertionIn f f') :
      Stmt.Insertion (.tryCatch rs b cs (some f)) (.tryCatch rs b cs (some f'))
  | throw {e e' : Expr} (h : Expr.Insertion e e') : Stmt.Insertion (.throw e) (.throw e')
  | block {b b' : Block} (h : Stmt.InsertionIn b b') : Stmt.Insertion (.block b) (.block b')
  | synchronizedLock {e e' : Expr} {b : Block} (h : Expr.Insertion e e') :
      Stmt.Insertion (.synchronized e b) (.synchronized e' b)
  | synchronizedBody {e : Expr} {b b' : Block} (h : Stmt.InsertionIn b b') :
      Stmt.Insertion (.synchronized e b) (.synchronized e b')
  | simple {es es' : List Expr} (h : Expr.InsertionIn es es') :
      Stmt.Insertion (.simple es) (.simple es')

/-- The second expression is the first with one statement put into a list of statements in it. -/
inductive Expr.Insertion : Expr → Expr → Prop where
  | condition {c c' a b : Expr} (h : Expr.Insertion c c') :
      Expr.Insertion (.conditional c a b) (.conditional c' a b)
  | whenTrue {c a a' b : Expr} (h : Expr.Insertion a a') :
      Expr.Insertion (.conditional c a b) (.conditional c a' b)
  | whenFalse {c a b b' : Expr} (h : Expr.Insertion b b') :
      Expr.Insertion (.conditional c a b) (.conditional c a b')
  | lambda {s s' : Stmt} (h : Stmt.Insertion s s') : Expr.Insertion (.lambda s) (.lambda s')
  | switchSelector {e e' : Expr} {cs : List SwitchCase} (h : Expr.Insertion e e') :
      Expr.Insertion (.switch e cs) (.switch e' cs)
  | switchCase {e : Expr} {cs cs' : List SwitchCase} (h : SwitchCase.InsertionIn cs cs') :
      Expr.Insertion (.switch e cs) (.switch e cs')
  | compound {es es' : List Expr} (h : Expr.InsertionIn es es') :
      Expr.Insertion (.compound es) (.compound es')

/-- The second statements are the first with one more at some place, or with one statement put into
one of them. -/
inductive Stmt.InsertionIn : List Stmt → List Stmt → Prop where
  | here {s : Stmt} {ss : List Stmt} : Stmt.InsertionIn ss (s :: ss)
  | inside {s s' : Stmt} {ss : List Stmt} (h : Stmt.Insertion s s') :
      Stmt.InsertionIn (s :: ss) (s' :: ss)
  | behind {s : Stmt} {ss ss' : List Stmt} (h : Stmt.InsertionIn ss ss') :
      Stmt.InsertionIn (s :: ss) (s :: ss')

/-- One statement is put into one of the expressions. -/
inductive Expr.InsertionIn : List Expr → List Expr → Prop where
  | inside {e e' : Expr} {es : List Expr} (h : Expr.Insertion e e') :
      Expr.InsertionIn (e :: es) (e' :: es)
  | behind {e : Expr} {es es' : List Expr} (h : Expr.InsertionIn es es') :
      Expr.InsertionIn (e :: es) (e :: es')

/-- One statement is put into one of the cases. -/
inductive SwitchCase.InsertionIn : List SwitchCase → List SwitchCase → Prop where
  | inside {label : String} {b b' : List Stmt} {cs : List SwitchCase} (h : Stmt.InsertionIn b b') :
      SwitchCase.InsertionIn (.mk label b :: cs) (.mk label b' :: cs)
  | behind {c : SwitchCase} {cs cs' : List SwitchCase} (h : SwitchCase.InsertionIn cs cs') :
      SwitchCase.InsertionIn (c :: cs) (c :: cs')

/-- One statement is put into one of the handlers. -/
inductive CatchClause.InsertionIn : List CatchClause → List CatchClause → Prop where
  | inside {types : List String} {b b' : Block} {cs : List CatchClause}
      (h : Stmt.InsertionIn b b') :
      CatchClause.InsertionIn (.mk types b :: cs) (.mk types b' :: cs)
  | behind {c : CatchClause} {cs cs' : List CatchClause} (h : CatchClause.InsertionIn cs cs') :
      CatchClause.InsertionIn (c :: cs) (c :: cs')

end

/-- A statement put into a case adds no case. -/
theorem SwitchCase.InsertionIn.length_eq {cs cs' : List SwitchCase} (h : InsertionIn cs cs') :
    cs.length = cs'.length := by
  match h with
  | .inside _ => rfl
  | .behind h => exact congrArg (· + 1) h.length_eq

/-! ## Outlines -/

section Within
open Outline (Within WithinAll)

mutual

/-- **A statement put in leaves the outline within the new one.** -/
theorem Stmt.Insertion.within {s s' : Stmt} : Stmt.Insertion s s' → Within s.outline s'.outline
  | .ifCondition (b := none) h => .node _ (.cons h.within (.refl _))
  | .ifCondition (b := some _) h => .node _ (.cons h.within (.refl _))
  | .ifThen (b := none) h => .node _ (.cons (.refl _) (.cons h.within (.refl _)))
  | .ifThen (b := some _) h => .node _ (.cons (.refl _) (.cons h.within (.refl _)))
  | .ifElse h => .node _ (.cons (.refl _) (.cons (.refl _) (.cons h.within .nil)))
  | .whileCondition h | .forEachIterable h => .node _ (.cons h.within (.refl _))
  | .whileBody h | .forEachBody h => .node _ (.cons (.refl _) (.cons h.within .nil))
  | .doBody h => .node _ (.cons h.within (.refl _))
  | .doCondition h => .node _ (.cons (.refl _) (.cons h.within .nil))
  | .forHeader h => .node _ (h.within.append_right _)
  | .forBody h => .node _ (WithinAll.append_left _ (.cons h.within .nil))
  | .switchSelector h => .node _ (.cons h.within (.refl _))
  | .switchCase h => by
    rw [Stmt.outline, Stmt.outline, h.length_eq]
    exact .node _ (.cons (.refl _) h.within)
  | .tryResource (f := none) h => .node _ ((h.within.append_right _).append_right _)
  | .tryResource (f := some _) h =>
    .node _ (((h.within.append_right _).append_right _).append_right _)
  | .tryBody (f := none) h => .node _ (h.within.frame _ _)
  | .tryBody (f := some _) h => .node _ ((h.within.frame _ _).append_right _)
  | .tryCatch (f := none) h => .node _ (h.within.append_left _)
  | .tryCatch (f := some _) h => .node _ (h.within.frame _ _)
  | .tryFinally h => .node _ (h.within.append_left _)
  | .throw h => .node _ (.cons h.within .nil)
  | .block h => .node _ h.within
  | .synchronizedLock h => .node _ (.cons h.within (.refl _))
  | .synchronizedBody h => .node _ (.cons (.refl _) h.within)
  | .simple h => .node _ h.within

theorem Expr.Insertion.within {e e' : Expr} : Expr.Insertion e e' → Within e.outline e'.outline
  | .condition h => .node _ (.cons h.within (.refl _))
  | .whenTrue h => .node _ (.cons (.refl _) (.cons h.within (.refl _)))
  | .whenFalse h => .node _ (.cons (.refl _) (.cons (.refl _) (.cons h.within .nil)))
  | .lambda h => .node _ (.cons h.within .nil)
  | .switchSelector h => .node _ (.cons h.within (.refl _))
  | .switchCase h => .node _ (.cons (.refl _) h.within)
  | .compound h => .node _ h.within

theorem Stmt.InsertionIn.within {ss ss' : List Stmt} :
    Stmt.InsertionIn ss ss' → WithinAll (Stmt.outlines ss) (Stmt.outlines ss')
  | .here => .insert _ (.refl _)
  | .inside h => .cons h.within (.refl _)
  | .behind h => .cons (.refl _) h.within

theorem Expr.InsertionIn.within {es es' : List Expr} :
    Expr.InsertionIn es es' → WithinAll (Expr.outlines es) (Expr.outlines es')
  | .inside h => .cons h.within (.refl _)
  | .behind h => .cons (.refl _) h.within

theorem SwitchCase.InsertionIn.within {cs cs' : List SwitchCase} :
    SwitchCase.InsertionIn cs cs' → WithinAll (SwitchCase.outlines cs) (SwitchCase.outlines cs')
  | .inside h => .cons (.node _ h.within) (.refl _)
  | .behind (c := .mk _ _) h => .cons (.refl _) h.within

theorem CatchClause.InsertionIn.within {cs cs' : List CatchClause} :
    CatchClause.InsertionIn cs cs' → WithinAll (CatchClause.outlines cs) (CatchClause.outlines cs')
  | .inside h => .cons (.node _ h.within) (.refl _)
  | .behind (c := .mk _ _) h => .cons (.refl _) h.within

end

/-- All nodes of the old statements are found among those of the new ones. -/
theorem Stmt.InsertionIn.occurrences_sublist {ss ss' : List Stmt} (h : Stmt.InsertionIn ss ss') :
    (Stmt.occurrences ss).Sublist (Stmt.occurrences ss') :=
  h.within.occurrencesIn_sublist []

end Within

end CodeRisk
