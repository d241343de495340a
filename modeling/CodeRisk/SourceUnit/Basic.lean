/-!
# Source units

What the analyses see of one Java file: its types, its methods with their statement trees, and the
code that stands outside methods. A statement tree keeps what the analyses look at, the constructs
that branch or raise and the blocks and expressions that can hold such constructs. All else is an
`Expr.atom`.
-/
namespace CodeRisk

/-- A range of lines, both ends included, counted from 1. -/
structure LineSpan where
  first : Nat
  last : Nat
  deriving DecidableEq, Repr

/-- The number of lines covered; a range that ends before it starts may count as empty. -/
def LineSpan.lineCount (s : LineSpan) : Nat :=
  s.last + 1 - s.first

/-- The two kinds of types that count as types of a unit. -/
inductive TypeKind where
  | ofClass
  | ofInterface
  deriving DecidableEq, Repr

/-- A class or interface. The annotations are names as written, without the at-sign. -/
structure TypeDecl where
  name : String
  kind : TypeKind
  annotations : List String
  span : LineSpan
  deriving DecidableEq, Repr

mutual

/-- A statement. -/
inductive Stmt where
  | ifElse (condition : Expr) (thenBranch : Stmt) (elseBranch : Option Stmt)
  | whileLoop (condition : Expr) (body : Stmt)
  | doWhile (body : Stmt) (condition : Expr)
  /-- The header holds the start, the condition and the updates. -/
  | forLoop (header : List Expr) (body : Stmt)
  | forEach (iterable : Expr) (body : Stmt)
  /-- A switch in the place of a statement, with a case for each label. -/
  | switch (selector : Expr) (cases : List SwitchCase)
  | tryCatch (resources : List Expr) (body : List Stmt) (catches : List CatchClause)
      (finish : Option (List Stmt))
  | throw (thrown : Expr)
  | block (statements : List Stmt)
  | synchronized (lock : Expr) (body : List Stmt)
  /-- Any other statement, with the expressions of interest in it. -/
  | simple (exprs : List Expr)

/-- An expression, reduced to what the analyses look at. -/
inductive Expr where
  | conditional (condition whenTrue whenFalse : Expr)
  | lambda (body : Stmt)
  /-- A switch in the place of a value. -/
  | switch (selector : Expr) (cases : List SwitchCase)
  /-- Any other expression that holds something of interest. -/
  | compound (parts : List Expr)
  /-- An expression with nothing of interest in it. -/
  | atom

/-- A label of a switch with the statements attached to it. -/
inductive SwitchCase where
  | mk (label : String) (body : List Stmt)

/-- A handler with the exception types it takes. -/
inductive CatchClause where
  | mk (types : List String) (body : List Stmt)

end

/-- The statements of a block. -/
abbrev Block := List Stmt

namespace SwitchCase

/-- The text of the label, such as `case 1` or `default`. -/
def label : SwitchCase → String
  | mk l _ => l

/-- The statements attached to the label. -/
def body : SwitchCase → List Stmt
  | mk _ b => b

end SwitchCase

namespace CatchClause

/-- The exception types as written. -/
def types : CatchClause → List String
  | mk ts _ => ts

/-- The statements of the handler. -/
def body : CatchClause → Block
  | mk _ b => b

end CatchClause

namespace Expr

/-- Whether there is nothing of interest in the expression. -/
def isAtom : Expr → Bool
  | atom => true
  | _ => false

/-- The expression made of the given parts: atoms are left out, and a single part stands for
itself. -/
def ofParts (parts : List Expr) : Expr :=
  match parts.filter fun e => !e.isAtom with
  | [] => atom
  | [e] => e
  | es => compound es

/-- Without parts of interest there is an atom, a single one stands for itself, and two or more make
a compound. -/
theorem ofParts_cases (parts : List Expr) :
    (parts.filter fun e => !e.isAtom) = [] ∧ ofParts parts = atom ∨
      (∃ e, (parts.filter fun e => !e.isAtom) = [e] ∧ ofParts parts = e) ∨
      2 ≤ (parts.filter fun e => !e.isAtom).length ∧
        ofParts parts = compound (parts.filter fun e => !e.isAtom) := by
  unfold ofParts
  generalize (parts.filter fun e => !e.isAtom) = kept
  match kept with
  | [] => exact .inl ⟨rfl, rfl⟩
  | [e] => exact .inr (.inl ⟨e, rfl, rfl⟩)
  | _ :: _ :: es => exact .inr (.inr ⟨Nat.le_add_left 2 es.length, rfl⟩)

/-- What finds nothing in an atom finds the same in a list without its atoms. -/
theorem flatMap_filter_isAtom {α : Type} {f : Expr → List α} (hatom : f atom = [])
    (es : List Expr) : (es.filter fun e => !e.isAtom).flatMap f = es.flatMap f := by
  induction es with
  | nil => rfl
  | cons e es ih =>
    cases e with
    | atom =>
      rw [List.flatMap_cons, hatom]
      exact ih
    | _ => exact congrArg (_ ++ ·) ih

/-- What is found in the parts is found in what they make. -/
theorem flatMap_ofParts {α : Type} {f : Expr → List α} (hatom : f atom = [])
    (hcompound : ∀ es, f (compound es) = es.flatMap f) (es : List Expr) :
    f (ofParts es) = es.flatMap f := by
  rw [← flatMap_filter_isAtom hatom]
  rcases ofParts_cases es with ⟨hnone, hes⟩ | ⟨e, hone, hes⟩ | ⟨-, hes⟩
  · rw [hes, hnone, hatom, List.flatMap_nil]
  · rw [hes, hone, List.flatMap_singleton]
  · rw [hes, hcompound]

end Expr

/-- The body of a method: its text and its statements. -/
structure MethodBody where
  text : String
  block : Block

/-- A method. Abstract methods and most interface methods have no body; the span takes in modifiers
and annotations. -/
structure MethodDecl where
  name : String
  parameters : List String
  /-- The exception types of the throws clause. -/
  throws : List String
  annotations : List String
  body : Option MethodBody
  span : LineSpan

/-- One source file. -/
structure SourceUnit where
  /-- The declared package. -/
  package : Option String
  /-- Classes and interfaces in the order in which they begin; the first is the primary one. -/
  types : List TypeDecl
  /-- All methods, wherever they are nested. -/
  methods : List MethodDecl
  /-- Bodies of constructors, initializer blocks and initial values of fields. -/
  otherCode : List Stmt
  /-- Imported names as written; of a wildcard the package. -/
  imports : List String
  lineCount : Nat

namespace SourceUnit

/-- A unit with nothing in it. -/
def empty : SourceUnit :=
  ⟨none, [], [], [], [], 0⟩

/-- The primary class or interface. -/
def primaryType? (u : SourceUnit) : Option TypeDecl :=
  u.types.head?

/-- The name of the package; the unnamed package is called `default`. -/
def packageName (u : SourceUnit) : String :=
  u.package.getD "default"

end SourceUnit

end CodeRisk
