import CodeRisk.Proofs.Outline
import CodeRisk.SourceUnit.Basic

/-!
# Constructs

The outline of a statement tree: each statement, expression, case and handler is a node, and its
parts are all statements and expressions directly in it, in the order of the text. Nothing is left
out, whatever the construct, so "anywhere in a body" is "at some occurrence of its outline".

The ranks of the constructs are the table of the increments: loops and conditions add one branch and
nest, a switch in the place of a statement adds a branch for each case and nests, handlers and
conditional expressions add one branch, and nothing else counts.
-/
namespace CodeRisk

/-- What a node of a statement tree is. -/
inductive Construct where
  | ifElse
  | whileLoop
  | doWhile
  | forLoop
  | forEach
  /-- A switch in the place of a statement, with the number of its cases. -/
  | switch (cases : Nat)
  | tryCatch
  | throw
  | block
  | synchronized
  | simple
  | conditional
  | lambda
  /-- A switch in the place of a value. -/
  | valueSwitch
  | compound
  | atom
  | case
  | handler
  deriving DecidableEq, Repr

namespace Construct

/-- The number of branches that a construct adds. -/
@[simp] def ways : Construct → Nat
  | ifElse | whileLoop | forLoop | forEach | conditional | handler => 1
  | switch n => n
  | _ => 0

/-- Whether a construct puts what is inside it one level deeper. -/
@[simp] def nests : Construct → Bool
  | ifElse | whileLoop | forLoop | forEach | switch _ => true
  | _ => false

instance : Ranked Construct where
  ways := ways
  nests := nests

@[simp] theorem ranked_ways (c : Construct) : Ranked.ways c = c.ways := rfl

@[simp] theorem ranked_nests (c : Construct) : Ranked.nests c = c.nests := rfl

end Construct

/-! ## Outlines of statements and expressions -/

mutual

/-- The outline of a statement. -/
@[simp] def Stmt.outline : Stmt → Outline Construct
  | .ifElse c a none => .node .ifElse [c.outline, a.outline]
  | .ifElse c a (some b) => .node .ifElse [c.outline, a.outline, b.outline]
  | .whileLoop c b => .node .whileLoop [c.outline, b.outline]
  | .doWhile b c => .node .doWhile [b.outline, c.outline]
  | .forLoop h b => .node .forLoop (Expr.outlines h ++ [b.outline])
  | .forEach e b => .node .forEach [e.outline, b.outline]
  | .switch e cs => .node (.switch cs.length) (e.outline :: SwitchCase.outlines cs)
  | .tryCatch rs b cs none =>
    .node .tryCatch (Expr.outlines rs ++ Stmt.outlines b ++ CatchClause.outlines cs)
  | .tryCatch rs b cs (some f) =>
    .node .tryCatch
      (Expr.outlines rs ++ Stmt.outlines b ++ CatchClause.outlines cs ++ Stmt.outlines f)
  | .throw e => .node .throw [e.outline]
  | .block b => .node .block (Stmt.outlines b)
  | .synchronized e b => .node .synchronized (e.outline :: Stmt.outlines b)
  | .simple es => .node .simple (Expr.outlines es)

/-- The outline of an expression. -/
@[simp] def Expr.outline : Expr → Outline Construct
  | .conditional c a b => .node .conditional [c.outline, a.outline, b.outline]
  | .lambda s => .node .lambda [s.outline]
  | .switch e cs => .node .valueSwitch (e.outline :: SwitchCase.outlines cs)
  | .compound es => .node .compound (Expr.outlines es)
  | .atom => .node .atom []

/-- The outlines of some statements. -/
@[simp] def Stmt.outlines : List Stmt → List (Outline Construct)
  | [] => []
  | s :: ss => s.outline :: Stmt.outlines ss

/-- The outlines of some expressions. -/
@[simp] def Expr.outlines : List Expr → List (Outline Construct)
  | [] => []
  | e :: es => e.outline :: Expr.outlines es

/-- The outlines of some cases. -/
@[simp] def SwitchCase.outlines : List SwitchCase → List (Outline Construct)
  | [] => []
  | .mk _ body :: cs => .node .case (Stmt.outlines body) :: SwitchCase.outlines cs

/-- The outlines of some handlers. -/
@[simp] def CatchClause.outlines : List CatchClause → List (Outline Construct)
  | [] => []
  | .mk _ body :: cs => .node .handler (Stmt.outlines body) :: CatchClause.outlines cs

end

/-- The statements of a method; none if it has no body. -/
def MethodDecl.statements (m : MethodDecl) : List Stmt :=
  match m.body with
  | some b => b.block
  | none => []

/-- All nodes of some statements, with the nodes around each. -/
def Stmt.occurrences (ss : List Stmt) : List (Occurrence Construct) :=
  Outline.occurrencesIn [] (Stmt.outlines ss)

/-- All nodes of the body of a method, with the nodes around each. -/
def MethodDecl.occurrences (m : MethodDecl) : List (Occurrence Construct) :=
  Stmt.occurrences m.statements

end CodeRisk
