import CodeRisk.Metadata.Basic
import CodeRisk.Scale
import CodeRisk.SourceUnit.Basic
import CodeRisk.Text.Infix
import CodeRisk.Text.LowerCase

/-!
# Signs of business code

Cheap checks of annotations, method names and method texts. Each sign adds its weight to the
criticality of the file, which is cut at ten.
-/
namespace CodeRisk

/-- Annotations that mark a type as business code. -/
def businessAnnotations : List String := [
  "Service", "Controller", "Component", "Repository", "Transactional", "RestController",
  "RequestMapping", "PostMapping", "GetMapping"]

/-- Parts of method names that suggest business logic. -/
def businessKeywords : List String := [
  "process", "calculate", "validate", "approve", "reject", "create", "update", "delete", "save",
  "find", "search", "payment", "order", "customer", "account", "transaction", "service",
  "repository", "controller"]

/-- Whether an annotation marks a type as business code. -/
def marksBusiness (name : String) : Bool :=
  businessAnnotations.contains name

/-- Whether a method name, in lower case, holds one of the keywords. -/
def isBusinessMethodName (name : String) : Bool :=
  let lower := Text.lower name
  businessKeywords.any fun keyword => Text.contains keyword lower

/-- Whether the text of a method has a condition, a way to refuse, and a word about validity. -/
def validates (text : String) : Bool :=
  Text.contains "if" text &&
    (Text.contains "throw" text || Text.contains "return false" text) &&
    (Text.contains "null" text || Text.contains "empty" text || Text.contains "invalid" text ||
      Text.contains "validate" text)

/-- Whether a method seems to check its input. -/
def MethodDecl.hasValidation (m : MethodDecl) : Bool :=
  match m.body with
  | some b => validates b.text
  | none => false

/-- Whether an annotation asks for a transaction. -/
def isTransactional (name : String) : Bool :=
  Text.contains "Transactional" name

/-! ## Exceptions -/

mutual

/-- Whether a try or throw statement occurs in a statement. -/
def Stmt.handlesExceptions : Stmt → Bool
  | .tryCatch .. | .throw _ => true
  | .ifElse c a none => c.handlesExceptions || a.handlesExceptions
  | .ifElse c a (some b) =>
    c.handlesExceptions || a.handlesExceptions || b.handlesExceptions
  | .whileLoop c b => c.handlesExceptions || b.handlesExceptions
  | .doWhile b c => c.handlesExceptions || b.handlesExceptions
  | .forLoop h b => Expr.anyHandles h || b.handlesExceptions
  | .forEach e b => e.handlesExceptions || b.handlesExceptions
  | .switch e cs => e.handlesExceptions || SwitchCase.anyHandles cs
  | .block b => Stmt.anyHandles b
  | .synchronized e b => e.handlesExceptions || Stmt.anyHandles b
  | .simple es => Expr.anyHandles es

/-- Whether a try or throw statement occurs in an expression. -/
def Expr.handlesExceptions : Expr → Bool
  | .lambda s => s.handlesExceptions
  | .switch e cs => e.handlesExceptions || SwitchCase.anyHandles cs
  | .conditional c a b => c.handlesExceptions || a.handlesExceptions || b.handlesExceptions
  | .compound es => Expr.anyHandles es
  | .atom => false

/-- Whether a try or throw statement occurs in one of the statements. -/
def Stmt.anyHandles : List Stmt → Bool
  | [] => false
  | s :: ss => s.handlesExceptions || Stmt.anyHandles ss

/-- Whether a try or throw statement occurs in one of the expressions. -/
def Expr.anyHandles : List Expr → Bool
  | [] => false
  | e :: es => e.handlesExceptions || Expr.anyHandles es

/-- Whether a try or throw statement occurs in the body of one of the cases. -/
def SwitchCase.anyHandles : List SwitchCase → Bool
  | [] => false
  | .mk _ body :: cs => Stmt.anyHandles body || SwitchCase.anyHandles cs

end

/-- Whether a try or throw statement occurs in a method or outside methods. -/
def SourceUnit.handlesExceptions (u : SourceUnit) : Bool :=
  (u.methods.filterMap (·.body)).any (fun b => Stmt.anyHandles b.block) ||
    Stmt.anyHandles u.otherCode

/-! ## Signs and their weights -/

/-- A sign that a file matters to the business. -/
inductive BusinessSign where
  /-- A type carries a business annotation. -/
  | annotated (name : String)
  /-- A method has the name of business logic. -/
  | businessMethod (name : String)
  /-- A method checks its input. -/
  | validation
  /-- A method carries an annotation for transactions. -/
  | transaction
  deriving DecidableEq, Repr

namespace BusinessSign

/-- What a sign adds to the criticality. -/
def weight {ν : Type} [Scale ν] : BusinessSign → ν
  | annotated _ => 2.0
  | businessMethod _ => 1.0
  | validation => 0.5
  | transaction => 1.5

/-- The signs on a type. -/
def ofType (t : TypeDecl) : List BusinessSign :=
  (t.annotations.filter marksBusiness).map annotated

/-- The signs on a method. -/
def ofMethod (m : MethodDecl) : List BusinessSign :=
  (if isBusinessMethodName m.name then [businessMethod m.name] else []) ++
    (if m.hasValidation then [validation] else []) ++
    (m.annotations.filter isTransactional).map fun _ => transaction

/-- The method name that a sign is about. -/
def methodName? : BusinessSign → Option String
  | businessMethod name => some name
  | _ => none

/-- Whether the sign is an annotation of a type. -/
def isAnnotated : BusinessSign → Bool
  | annotated _ => true
  | _ => false

end BusinessSign

/-- All signs of a unit: those on its types, then those on its methods. -/
def SourceUnit.businessSigns (u : SourceUnit) : List BusinessSign :=
  u.types.flatMap BusinessSign.ofType ++ u.methods.flatMap BusinessSign.ofMethod

/-- The highest criticality. -/
def maxCriticality {ν : Type} [Scale ν] : ν := 10.0

/-- A criticality cut to the range from zero to the highest. -/
def clampCriticality {ν : Type} [Scale ν] (raw : ν) : ν :=
  Scale.clamp 0.0 maxCriticality raw

/-- The signs of business code in a unit. -/
def SourceUnit.business {ν : Type} [Scale ν] (u : SourceUnit) : BusinessComplexity ν :=
  let signs := u.businessSigns
  let names := signs.filterMap BusinessSign.methodName?
  { criticality := clampCriticality (Scale.sum (signs.map BusinessSign.weight))
    hasBusinessAnnotations := signs.any BusinessSign.isAnnotated
    businessMethodCount := UInt32.ofNat names.length
    validationComplexity := UInt32.ofNat (signs.count .validation)
    transactionHandling := signs.contains .transaction
    exceptionHandling := u.handlesExceptions
    businessMethods := names }

end CodeRisk
