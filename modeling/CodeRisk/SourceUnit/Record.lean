import CodeRisk.Record.Schema
import CodeRisk.SourceUnit.Basic

/-!
# Source units as records

The JSON form of source units. `SourceUnit.toJson` writes a unit, `SourceUnit.read` reads one back
and says what does not fit.
-/
namespace CodeRisk
open Record (Schema Misfit)

/-! ## Writing -/

mutual

/-- The record of a statement. -/
def Stmt.toJson : Stmt → Json
  | .ifElse c a b => .object [("If", .object [("condition", c.toJson),
      ("then_branch", a.toJson), ("else_branch", Stmt.optionToJson b)])]
  | .whileLoop c b => .object [("While", .object [("condition", c.toJson), ("body", b.toJson)])]
  | .doWhile b c => .object [("DoWhile", .object [("body", b.toJson), ("condition", c.toJson)])]
  | .forLoop h b => .object [("For", .object [("header", .array (Expr.listToJson h)),
      ("body", b.toJson)])]
  | .forEach e b => .object [("ForEach", .object [("iterable", e.toJson), ("body", b.toJson)])]
  | .switch e cs => .object [("Switch", .object [("selector", e.toJson),
      ("cases", .array (SwitchCase.listToJson cs))])]
  | .tryCatch rs b cs f => .object [("Try", .object [("resources", .array (Expr.listToJson rs)),
      ("body", .object [("statements", .array (Stmt.listToJson b))]),
      ("catches", .array (CatchClause.listToJson cs)), ("finally", Stmt.finishToJson f)])]
  | .throw e => .object [("Throw", e.toJson)]
  | .block b => .object [("Block", .object [("statements", .array (Stmt.listToJson b))])]
  | .synchronized e b => .object [("Synchronized", .object [("lock", e.toJson),
      ("body", .object [("statements", .array (Stmt.listToJson b))])])]
  | .simple es => .object [("Simple", .array (Expr.listToJson es))]

/-- The record of an expression. -/
def Expr.toJson : Expr → Json
  | .conditional c a b => .object [("Conditional", .object [("condition", c.toJson),
      ("when_true", a.toJson), ("when_false", b.toJson)])]
  | .lambda s => .object [("Lambda", s.toJson)]
  | .switch e cs => .object [("Switch", .object [("selector", e.toJson),
      ("cases", .array (SwitchCase.listToJson cs))])]
  | .compound es => .object [("Compound", .array (Expr.listToJson es))]
  | .atom => .string "Atom"

/-- The record of a statement that may be absent. -/
def Stmt.optionToJson : Option Stmt → Json
  | none => .null
  | some s => s.toJson

/-- The record of a block that may be absent. -/
def Stmt.finishToJson : Option (List Stmt) → Json
  | none => .null
  | some ss => .object [("statements", .array (Stmt.listToJson ss))]

/-- The records of statements. -/
def Stmt.listToJson : List Stmt → List Json
  | [] => []
  | s :: ss => s.toJson :: Stmt.listToJson ss

/-- The records of expressions. -/
def Expr.listToJson : List Expr → List Json
  | [] => []
  | e :: es => e.toJson :: Expr.listToJson es

/-- The records of cases. -/
def SwitchCase.listToJson : List SwitchCase → List Json
  | [] => []
  | .mk label body :: cs =>
    .object [("label", .string label), ("body", .array (Stmt.listToJson body))] ::
      SwitchCase.listToJson cs

/-- The records of handlers. -/
def CatchClause.listToJson : List CatchClause → List Json
  | [] => []
  | .mk types body :: cs =>
    .object [("types", .strings types),
      ("body", .object [("statements", .array (Stmt.listToJson body))])] ::
      CatchClause.listToJson cs

end

/-- The record of a block. -/
def Block.toJson (b : Block) : Json :=
  .object [("statements", .array (Stmt.listToJson b))]

def LineSpan.toJson (s : LineSpan) : Json :=
  .object [("start", .nat s.first), ("end", .nat s.last)]

/-- The name of a kind of type. -/
def TypeKind.word : TypeKind → String
  | ofClass => "class"
  | ofInterface => "interface"

def TypeDecl.toJson (t : TypeDecl) : Json :=
  .object [("name", .string t.name), ("kind", .string t.kind.word),
    ("annotations", .strings t.annotations), ("span", t.span.toJson)]

def MethodBody.toJson (b : MethodBody) : Json :=
  .object [("text", .string b.text), ("block", Block.toJson b.block)]

def MethodDecl.toJson (m : MethodDecl) : Json :=
  .object [("name", .string m.name), ("parameters", .strings m.parameters),
    ("throws", .strings m.throws), ("annotations", .strings m.annotations),
    ("body", .optional (m.body.map MethodBody.toJson)), ("span", m.span.toJson)]

/-- The record of a unit. -/
def SourceUnit.toJson (u : SourceUnit) : Json :=
  .object [("package", .optional (u.package.map .string)),
    ("types", .array (u.types.map TypeDecl.toJson)),
    ("methods", .array (u.methods.map MethodDecl.toJson)),
    ("other_code", .array (Stmt.listToJson u.otherCode)),
    ("imports", .strings u.imports),
    ("line_count", .nat u.lineCount)]

/-! ## Schemas -/

namespace Record

/-- Counts and line numbers. -/
def size : Schema := .whole "usize" (Nat.pow 2 64 - 1)

/-- Counters. -/
def counter : Schema := .whole "u32" (Nat.pow 2 32 - 1)

def stmt : Schema := .named "Stmt"

def expr : Schema := .named "Expr"

def stmts : Schema := .list stmt

def exprs : Schema := .list expr

def block : Schema := .fields "struct Block" [("statements", stmts)]

def switchCase : Schema := .fields "struct SwitchCase" [("label", .text), ("body", stmts)]

def catchClause : Schema :=
  .fields "struct CatchClause" [("types", .list .text), ("body", block)]

def stmtChoice : Schema :=
  .choice [] [("Throw", expr), ("Block", block), ("Simple", exprs)]
    [("If", [("condition", expr), ("then_branch", stmt), ("else_branch", .option stmt)]),
     ("While", [("condition", expr), ("body", stmt)]),
     ("DoWhile", [("body", stmt), ("condition", expr)]),
     ("For", [("header", exprs), ("body", stmt)]),
     ("ForEach", [("iterable", expr), ("body", stmt)]),
     ("Switch", [("selector", expr), ("cases", .list switchCase)]),
     ("Try", [("resources", exprs), ("body", block), ("catches", .list catchClause),
       ("finally", .option block)]),
     ("Synchronized", [("lock", expr), ("body", block)])]
    ["If", "While", "DoWhile", "For", "ForEach", "Switch", "Try", "Throw", "Block",
      "Synchronized", "Simple"]

def exprChoice : Schema :=
  .choice ["Atom"] [("Lambda", stmt), ("Compound", exprs)]
    [("Conditional", [("condition", expr), ("when_true", expr), ("when_false", expr)]),
     ("Switch", [("selector", expr), ("cases", .list switchCase)])]
    ["Conditional", "Lambda", "Switch", "Compound", "Atom"]

/-- The types that refer to one another. -/
def definitions : Definitions := fun type =>
  if type == "Stmt" then stmtChoice else exprChoice

def lineSpan : Schema := .fields "struct LineSpan" [("start", size), ("end", size)]

def typeDecl : Schema :=
  .fields "struct TypeDecl"
    [("name", .text), ("kind", .choice ["class", "interface"] [] [] ["class", "interface"]),
     ("annotations", .list .text), ("span", lineSpan)]

def methodBody : Schema := .fields "struct MethodBody" [("text", .text), ("block", block)]

def methodDecl : Schema :=
  .fields "struct MethodDecl"
    [("name", .text), ("parameters", .list .text), ("throws", .list .text),
     ("annotations", .list .text), ("body", .option methodBody), ("span", lineSpan)]

def sourceUnit : Schema :=
  .fields "struct SourceUnit"
    [("package", .option .text), ("types", .list typeDecl), ("methods", .list methodDecl),
     ("other_code", stmts), ("imports", .list .text), ("line_count", size)]

end Record

/-! ## Reading canonical records -/

/-- The string that a value is. -/
def Json.asString? : Json → Option String
  | .string s => some s
  | _ => none

/-- The natural number that a value is. -/
def Json.asNat? : Json → Option Nat
  | .integer (.ofNat n) => some n
  | _ => none

/-- The strings that a value lists. -/
def Json.asStrings? : Json → Option (List String)
  | .array xs => xs.mapM asString?
  | _ => none

mutual

/-- The statement of a canonical record. -/
def Stmt.ofJson? : Json → Option Stmt
  | .object [("If", .object [(_, c), (_, a), (_, .null)])] => do
    return .ifElse (← Expr.ofJson? c) (← Stmt.ofJson? a) none
  | .object [("If", .object [(_, c), (_, a), (_, b)])] => do
    return .ifElse (← Expr.ofJson? c) (← Stmt.ofJson? a) (some (← Stmt.ofJson? b))
  | .object [("While", .object [(_, c), (_, b)])] => do
    return .whileLoop (← Expr.ofJson? c) (← Stmt.ofJson? b)
  | .object [("DoWhile", .object [(_, b), (_, c)])] => do
    return .doWhile (← Stmt.ofJson? b) (← Expr.ofJson? c)
  | .object [("For", .object [(_, .array h), (_, b)])] => do
    return .forLoop (← Expr.listOfJson? h) (← Stmt.ofJson? b)
  | .object [("ForEach", .object [(_, e), (_, b)])] => do
    return .forEach (← Expr.ofJson? e) (← Stmt.ofJson? b)
  | .object [("Switch", .object [(_, e), (_, .array cs)])] => do
    return .switch (← Expr.ofJson? e) (← SwitchCase.listOfJson? cs)
  | .object [("Try", .object [(_, .array rs),
      (_, .object [(_, .array b)]), (_, .array cs), (_, .null)])] => do
    return .tryCatch (← Expr.listOfJson? rs) (← Stmt.listOfJson? b)
      (← CatchClause.listOfJson? cs) none
  | .object [("Try", .object [(_, .array rs),
      (_, .object [(_, .array b)]), (_, .array cs), (_, .object [(_, .array f)])])] => do
    return .tryCatch (← Expr.listOfJson? rs) (← Stmt.listOfJson? b)
      (← CatchClause.listOfJson? cs) (some (← Stmt.listOfJson? f))
  | .object [("Throw", e)] => do return .throw (← Expr.ofJson? e)
  | .object [("Block", .object [(_, .array b)])] => do
    return .block (← Stmt.listOfJson? b)
  | .object [("Synchronized", .object [(_, e), (_, .object [(_, .array b)])])] =>
    do return .synchronized (← Expr.ofJson? e) (← Stmt.listOfJson? b)
  | .object [("Simple", .array es)] => do return .simple (← Expr.listOfJson? es)
  | _ => none

/-- The expression of a canonical record. -/
def Expr.ofJson? : Json → Option Expr
  | .object [("Conditional", .object [(_, c), (_, a), (_, b)])] => do
    return .conditional (← Expr.ofJson? c) (← Expr.ofJson? a) (← Expr.ofJson? b)
  | .object [("Lambda", s)] => do return .lambda (← Stmt.ofJson? s)
  | .object [("Switch", .object [(_, e), (_, .array cs)])] => do
    return .switch (← Expr.ofJson? e) (← SwitchCase.listOfJson? cs)
  | .object [("Compound", .array es)] => do return .compound (← Expr.listOfJson? es)
  | .string "Atom" => some .atom
  | _ => none

/-- The statements of a list of records. -/
def Stmt.listOfJson? : List Json → Option (List Stmt)
  | [] => some []
  | x :: xs => do return (← Stmt.ofJson? x) :: (← Stmt.listOfJson? xs)

/-- The expressions of a list of records. -/
def Expr.listOfJson? : List Json → Option (List Expr)
  | [] => some []
  | x :: xs => do return (← Expr.ofJson? x) :: (← Expr.listOfJson? xs)

/-- The cases of a list of records. -/
def SwitchCase.listOfJson? : List Json → Option (List SwitchCase)
  | [] => some []
  | .object [(_, .string label), (_, .array b)] :: xs => do
    return .mk label (← Stmt.listOfJson? b) :: (← SwitchCase.listOfJson? xs)
  | _ => none

/-- The handlers of a list of records. -/
def CatchClause.listOfJson? : List Json → Option (List CatchClause)
  | [] => some []
  | .object [(_, ts), (_, .object [(_, .array b)])] :: xs => do
    return .mk (← ts.asStrings?) (← Stmt.listOfJson? b) :: (← CatchClause.listOfJson? xs)
  | _ => none

end

def LineSpan.ofJson? : Json → Option LineSpan
  | .object [(_, first), (_, last)] => do return ⟨← first.asNat?, ← last.asNat?⟩
  | _ => none

def TypeKind.ofJson? : Json → Option TypeKind
  | .string "class" => some .ofClass
  | .string "interface" => some .ofInterface
  | _ => none

def TypeDecl.ofJson? : Json → Option TypeDecl
  | .object [(_, .string name), (_, kind), (_, annotations), (_, span)] => do
    return ⟨name, ← TypeKind.ofJson? kind, ← annotations.asStrings?, ← LineSpan.ofJson? span⟩
  | _ => none

def MethodBody.ofJson? : Json → Option MethodBody
  | .object [(_, .string text), (_, .object [(_, .array b)])] => do
    return ⟨text, ← Stmt.listOfJson? b⟩
  | _ => none

/-- What a value holds, unless it is `null`. -/
def Json.asOption? {α : Type} (read : Json → Option α) : Json → Option (Option α)
  | .null => some none
  | j => (read j).map some

/-- What the items of a value hold. -/
def Json.asList? {α : Type} (read : Json → Option α) : Json → Option (List α)
  | .array xs => xs.mapM read
  | _ => none

def MethodDecl.ofJson? : Json → Option MethodDecl
  | .object [(_, .string name), (_, parameters), (_, throws), (_, annotations), (_, body),
      (_, span)] => do
    return ⟨name, ← parameters.asStrings?, ← throws.asStrings?, ← annotations.asStrings?,
      ← body.asOption? MethodBody.ofJson?, ← LineSpan.ofJson? span⟩
  | _ => none

/-- The unit of a canonical record. -/
def SourceUnit.ofJson? : Json → Option SourceUnit
  | .object [(_, package), (_, types), (_, methods), (_, .array code), (_, imports), (_, lines)] =>
    do
    return ⟨← package.asOption? Json.asString?, ← types.asList? TypeDecl.ofJson?,
      ← methods.asList? MethodDecl.ofJson?, ← Stmt.listOfJson? code, ← imports.asStrings?,
      ← lines.asNat?⟩
  | _ => none

/-! ## Reading any record -/

namespace Record

/-- Reads a value that fits the schema. -/
def read {α : Type} (s : Schema) (ofJson? : Json → Option α) (j : Json) : Except Misfit α := do
  let canonical ← s.check definitions j
  match ofJson? canonical with
  | some x => return x
  | none => throw (.unreadable "value out of range")

end Record

/-- Reads a unit from its record. -/
def SourceUnit.read (j : Json) : Except Misfit SourceUnit :=
  Record.read Record.sourceUnit SourceUnit.ofJson? j

/-- Reads a method from its record. -/
def MethodDecl.read (j : Json) : Except Misfit MethodDecl :=
  Record.read Record.methodDecl MethodDecl.ofJson? j

/-- Reads an expression from its record. -/
def Expr.read (j : Json) : Except Misfit Expr :=
  Record.read Record.expr Expr.ofJson? j

/-- Reads a range of lines from its record. -/
def LineSpan.read (j : Json) : Except Misfit LineSpan :=
  Record.read Record.lineSpan LineSpan.ofJson? j

end CodeRisk
