import CodeRisk.Metadata.Basic
import CodeRisk.Scale
import CodeRisk.SourceUnit.Basic

/-!
# Cyclomatic and cognitive complexity

One walk over all statement trees yields the figures of the file and of each method.

| construct                   | cyclomatic | nesting | cognitive, inside a method |
|-----------------------------|------------|---------|----------------------------|
| if, while, for, for each    | 1          | 1       | 1 and the depth around it  |
| switch as a statement       | cases      | 1       | cases and the depth around it |
| handler of a try statement  | 1          | 0       | 1                          |
| conditional expression      | 1          | 0       | 1                          |

A do loop, a try statement and a switch as a value count nothing themselves. Code outside methods
adds to the cyclomatic complexity and the nesting of the file only.
-/
namespace CodeRisk

/-- The counters of one method. -/
structure MethodCounters where
  cyclomatic : UInt32 := 1
  cognitive : UInt32 := 0
  deriving DecidableEq, Repr

/-- What a walk has counted so far. -/
structure Tally where
  cyclomatic : UInt32 := 1
  cognitive : UInt32 := 0
  maxNesting : UInt32 := 0
  methodCount : UInt32 := 0
  methodLines : Nat := 0
  complexMethods : List MethodComplexity := []
  /-- The counters of the method at hand; there are none outside methods. -/
  current : Option MethodCounters := none
  deriving DecidableEq, Repr

namespace Tally

/-- Counts a branching construct. -/
def bump (cyclomatic cognitive : UInt32) (t : Tally) : Tally :=
  { t with
    cyclomatic := t.cyclomatic + cyclomatic
    current := t.current.map fun m => ⟨m.cyclomatic + cyclomatic, m.cognitive + cognitive⟩ }

/-- Notes that a depth has been reached. -/
def reach (depth : UInt32) (t : Tally) : Tally :=
  { t with maxNesting := max t.maxNesting depth }

/-- Enters a construct that branches `ways` times at the given depth. -/
def branch (ways depth : UInt32) (t : Tally) : Tally :=
  (t.bump ways (ways + depth)).reach (depth + 1)

mutual

/-- Counts what is in a statement at the given depth. -/
def stmt (depth : UInt32) : Stmt → Tally → Tally
  | .ifElse c a none, t =>
    stmt (depth + 1) a (expr (depth + 1) c (t.branch 1 depth))
  | .ifElse c a (some b), t =>
    stmt (depth + 1) b (stmt (depth + 1) a (expr (depth + 1) c (t.branch 1 depth)))
  | .whileLoop c b, t => stmt (depth + 1) b (expr (depth + 1) c (t.branch 1 depth))
  | .forLoop h b, t => stmt (depth + 1) b (exprs (depth + 1) h (t.branch 1 depth))
  | .forEach e b, t => stmt (depth + 1) b (expr (depth + 1) e (t.branch 1 depth))
  | .switch e cs, t =>
    cases (depth + 1) cs (expr (depth + 1) e (t.branch (UInt32.ofNat cs.length) depth))
  | .doWhile b c, t => expr depth c (stmt depth b t)
  | .tryCatch rs b cs none, t => catches depth cs (stmts depth b (exprs depth rs t))
  | .tryCatch rs b cs (some f), t =>
    stmts depth f (catches depth cs (stmts depth b (exprs depth rs t)))
  | .throw e, t => expr depth e t
  | .block b, t => stmts depth b t
  | .synchronized e b, t => stmts depth b (expr depth e t)
  | .simple es, t => exprs depth es t

/-- Counts what is in an expression at the given depth. -/
def expr (depth : UInt32) : Expr → Tally → Tally
  | .conditional c a b, t => expr depth b (expr depth a (expr depth c (t.bump 1 1)))
  | .lambda s, t => stmt depth s t
  | .switch e cs, t => cases depth cs (expr depth e t)
  | .compound es, t => exprs depth es t
  | .atom, t => t

/-- Counts what is in some statements. -/
def stmts (depth : UInt32) : List Stmt → Tally → Tally
  | [], t => t
  | s :: ss, t => stmts depth ss (stmt depth s t)

/-- Counts what is in some expressions. -/
def exprs (depth : UInt32) : List Expr → Tally → Tally
  | [], t => t
  | e :: es, t => exprs depth es (expr depth e t)

/-- Counts what is in the bodies of some cases. -/
def cases (depth : UInt32) : List SwitchCase → Tally → Tally
  | [], t => t
  | .mk _ body :: cs, t => cases depth cs (stmts depth body t)

/-- Counts some handlers and what is in them. -/
def catches (depth : UInt32) : List CatchClause → Tally → Tally
  | [], t => t
  | .mk _ body :: cs, t => catches depth cs (stmts depth body (t.bump 1 1))

end

/-- Starts a method. -/
def enterMethod (lines : Nat) (t : Tally) : Tally :=
  { t with
    methodCount := t.methodCount + 1
    methodLines := t.methodLines + lines
    current := some {} }

/-- Counts what is in the body of a method. -/
def body (b : Option MethodBody) (t : Tally) : Tally :=
  match b with
  | some b => stmts 0 b.block t
  | none => t

/-- The counters of the method at hand. -/
def counters (t : Tally) : MethodCounters :=
  t.current.getD {}

end Tally

/-- Above this cyclomatic complexity a method is complex. -/
def complexCyclomatic : UInt32 := 10

/-- Above this cognitive complexity a method is complex. -/
def complexCognitive : UInt32 := 15

/-- Whether a method is over one of the thresholds. -/
def MethodComplexity.isComplex (m : MethodComplexity) : Bool :=
  complexCyclomatic < m.cyclomatic || complexCognitive < m.cognitive

/-- The figures of a method from its counters. -/
def MethodCounters.figures (c : MethodCounters) (m : MethodDecl) : MethodComplexity :=
  ⟨m.name, c.cyclomatic, c.cognitive, m.span.lineCount⟩

/-- Leaves a method: its cognitive complexity goes to the file, and the method itself is listed if it
is complex. -/
def Tally.leaveMethod (m : MethodDecl) (t : Tally) : Tally :=
  let figures := t.counters.figures m
  { t with
    cognitive := t.cognitive + figures.cognitive
    complexMethods :=
      if figures.isComplex then t.complexMethods ++ [figures] else t.complexMethods
    current := none }

/-- Counts a method. -/
def Tally.method (t : Tally) (m : MethodDecl) : Tally :=
  ((t.enterMethod m.span.lineCount).body m.body).leaveMethod m

/-- The complexity of a method by itself. -/
def MethodDecl.complexity (m : MethodDecl) : MethodComplexity :=
  ((({} : Tally).enterMethod m.span.lineCount).body m.body).counters.figures m

/-- The tally of a whole unit: all methods, then the code outside them. -/
def SourceUnit.tally (u : SourceUnit) : Tally :=
  Tally.stmts 0 u.otherCode (u.methods.foldl Tally.method {})

/-- The figures of a tally. -/
def Tally.figures {ν : Type} [Scale ν] (t : Tally) : CodeComplexity ν where
  cyclomatic := t.cyclomatic
  cognitive := t.cognitive
  totalMethods := t.methodCount
  averageMethodLength :=
    if t.methodCount = 0 then Scale.ofNat 0
    else Scale.ofNat t.methodLines / Scale.ofNat t.methodCount.toNat
  maxNestingDepth := t.maxNesting
  complexMethods := t.complexMethods

/-- The complexity of a unit. -/
def SourceUnit.complexity {ν : Type} [Scale ν] (u : SourceUnit) : CodeComplexity ν :=
  u.tally.figures

end CodeRisk
