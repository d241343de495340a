import CodeRisk.Java.Tree
import CodeRisk.SourceUnit.Basic

/-!
# From syntax trees to source units

A syntax tree is boiled down to the statements and expressions that the analyses look at. Bodies of
classes inside a method do not belong to the method: they yield an atom, and types declared as
statements yield an empty statement. Their own methods are collected as entries of their own.
-/
namespace CodeRisk
open Java (Tree Field)

/-- The texts of the alternatives of the type that a handler takes. -/
def caughtTypes (handler : Tree) : List String :=
  match handler.childOfKind? .catchFormalParameter >>= fun p => p.childOfKind? .catchType with
  | some types => types.namedChildren.map Tree.text
  | none => []

/-! ## Statements and expressions -/

mutual

/-- The expression that a node stands for. -/
def Expr.ofTree : Tree → Expr
  | .leaf .. => .atom
  | .branch k _ cs =>
    match k with
    | .ternary =>
      .conditional (Expr.inRole .condition cs) (Expr.inRole .consequence cs)
        (Expr.inRole .alternative cs)
    | .lambda => .lambda (Stmt.ofLambdaBody cs)
    | .switch => .switch (Expr.inRole .condition cs) (SwitchCase.inBody cs)
    | .classBody => .atom
    | _ => .ofParts (Expr.ofNamed cs)

/-- The expressions of all named nodes. -/
def Expr.ofNamed : List Tree → List Expr
  | [] => []
  | t :: ts => if t.isNamed then Expr.ofTree t :: Expr.ofNamed ts else Expr.ofNamed ts

/-- The expression of the first node in the role `f`. -/
def Expr.inRole (f : Field) : List Tree → Expr
  | [] => .atom
  | t :: ts => if t.field == some f then Expr.ofTree t else Expr.inRole f ts

/-- The expression of the first named node that is no comment. -/
def Expr.ofFirst : List Tree → Expr
  | [] => .atom
  | t :: ts => if t.isNamed && !t.isComment then Expr.ofTree t else Expr.ofFirst ts

/-- The expression of the first node in parentheses. -/
def Expr.ofParenthesized : List Tree → Expr
  | [] => .atom
  | t :: ts => if t.isNode .parenthesized then Expr.ofTree t else Expr.ofParenthesized ts

/-- The expressions in the header of a loop: all named nodes but the body. -/
def Expr.ofHeader : List Tree → List Expr
  | [] => []
  | t :: ts =>
    if t.isNamed && t.field != some .body then Expr.ofTree t :: Expr.ofHeader ts
    else Expr.ofHeader ts

/-- The expressions of the resources of a try statement. -/
def Expr.ofResources : List Tree → List Expr
  | [] => []
  | .branch _ (some .resources) cs :: _ => Expr.ofNamed cs
  | _ :: ts => Expr.ofResources ts

/-- The statement that a node stands for. -/
def Stmt.ofTree : Tree → Stmt
  | .leaf .. => .simple []
  | .branch k _ cs =>
    match k with
    | .block | .constructorBody => .block (Stmt.ofBlock cs)
    | .ifStatement =>
      .ifElse (Expr.inRole .condition cs) (Stmt.inRole .consequence cs)
        (Stmt.inRole? .alternative cs)
    | .whileStatement => .whileLoop (Expr.inRole .condition cs) (Stmt.inRole .body cs)
    | .doStatement => .doWhile (Stmt.inRole .body cs) (Expr.inRole .condition cs)
    | .forStatement => .forLoop (Expr.ofHeader cs) (Stmt.inRole .body cs)
    | .enhancedForStatement => .forEach (Expr.inRole .value cs) (Stmt.inRole .body cs)
    | .switch => .switch (Expr.inRole .condition cs) (SwitchCase.inBody cs)
    | .tryStatement | .tryWithResources =>
      .tryCatch (Expr.ofResources cs) (Stmt.inBody cs) (CatchClause.ofNamed cs)
        (Stmt.inFinally? cs)
    | .throwStatement => .throw (Expr.ofFirst cs)
    | .synchronizedStatement => .synchronized (Expr.ofParenthesized cs) (Stmt.inBody cs)
    | .labeledStatement => (Stmt.ofLast? cs).getD (.simple [])
    | .classDeclaration | .interfaceDeclaration | .enumDeclaration | .recordDeclaration =>
      .simple []
    | _ => .simple ((Expr.ofNamed cs).filter fun e => !e.isAtom)

/-- The statements of a block: all named nodes but comments. -/
def Stmt.ofBlock : List Tree → List Stmt
  | [] => []
  | t :: ts =>
    if t.isNamed && !t.isComment then Stmt.ofTree t :: Stmt.ofBlock ts else Stmt.ofBlock ts

/-- The statement of the first node in the role `f`. -/
def Stmt.inRole (f : Field) : List Tree → Stmt
  | [] => .simple []
  | t :: ts => if t.field == some f then Stmt.ofTree t else Stmt.inRole f ts

/-- The statement of the first node in the role `f`, if there is one. -/
def Stmt.inRole? (f : Field) : List Tree → Option Stmt
  | [] => none
  | t :: ts => if t.field == some f then some (Stmt.ofTree t) else Stmt.inRole? f ts

/-- The statements of the block in the role of a body. -/
def Stmt.inBody : List Tree → List Stmt
  | [] => []
  | .branch _ (some .body) cs :: _ => Stmt.ofBlock cs
  | _ :: ts => Stmt.inBody ts

/-- The statements of the block behind `finally`. -/
def Stmt.inFinally? : List Tree → Option (List Stmt)
  | [] => none
  | .branch .finallyClause _ cs :: _ => Stmt.inFirstBlock? cs
  | _ :: ts => Stmt.inFinally? ts

/-- The statements of the first block. -/
def Stmt.inFirstBlock? : List Tree → Option (List Stmt)
  | [] => none
  | .branch .block _ cs :: _ => some (Stmt.ofBlock cs)
  | _ :: ts => Stmt.inFirstBlock? ts

/-- The statement of the last named node that is neither an identifier nor a comment. -/
def Stmt.ofLast? : List Tree → Option Stmt
  | [] => none
  | t :: ts =>
    match Stmt.ofLast? ts with
    | some s => some s
    | none =>
      if t.isNamed && !t.isToken .identifier && !t.isComment then some (Stmt.ofTree t) else none

/-- What a lambda does: the statements of its block, or its expression. -/
def Stmt.ofLambdaBody : List Tree → Stmt
  | [] => .simple []
  | t :: ts =>
    if t.field == some .body then
      if t.isNode .block then Stmt.ofTree t else .simple [Expr.ofTree t]
    else Stmt.ofLambdaBody ts

/-- The cases of the switch block in the role of a body. -/
def SwitchCase.inBody : List Tree → List SwitchCase
  | [] => []
  | .branch _ (some .body) cs :: _ => SwitchCase.ofEntries cs
  | _ :: ts => SwitchCase.inBody ts

/-- The cases of the groups and rules of a switch block. -/
def SwitchCase.ofEntries : List Tree → List SwitchCase
  | [] => []
  | .branch .switchGroup _ cs :: ts => (SwitchCase.ofGroup cs).2 ++ SwitchCase.ofEntries ts
  | .branch .switchRule _ cs :: ts => SwitchCase.ofRule cs :: SwitchCase.ofEntries ts
  | _ :: ts => SwitchCase.ofEntries ts

/-- The parts of a group: the statements before its first label, and a case for each label with the
statements up to the next one. -/
def SwitchCase.ofGroup : List Tree → List Stmt × List SwitchCase
  | [] => ([], [])
  | t :: ts =>
    let (statements, cases) := SwitchCase.ofGroup ts
    if t.isNode .switchLabel then ([], .mk t.text statements :: cases)
    else if t.isNamed && !t.isComment then (Stmt.ofTree t :: statements, cases)
    else (statements, cases)

/-- The case of a rule with an arrow. -/
def SwitchCase.ofRule : List Tree → SwitchCase
  | [] => .mk "" []
  | t :: ts =>
    let rest := SwitchCase.ofRule ts
    if t.isNode .switchLabel then .mk t.text rest.body
    else if t.isNamed && !t.isComment then .mk rest.label (Stmt.ofTree t :: rest.body)
    else rest

/-- The handlers among the nodes. -/
def CatchClause.ofNamed : List Tree → List CatchClause
  | [] => []
  | .branch .catchClause f cs :: ts =>
    .mk (caughtTypes (.branch .catchClause f cs)) (Stmt.inBody cs) :: CatchClause.ofNamed ts
  | _ :: ts => CatchClause.ofNamed ts

end

/-! ## Declarations -/

/-- The lines that a node covers. -/
def LineSpan.ofTree (t : Tree) : LineSpan :=
  ⟨t.startRow + 1, t.endRow + 1⟩

/-- The text of the child that names a node. -/
def nameOf (t : Tree) : String :=
  ((t.child? .name).map Tree.text).getD ""

/-- The names of the annotations among the modifiers of a declaration. -/
def annotationNames (t : Tree) : List String :=
  match t.childOfKind? .modifiers with
  | none => []
  | some modifiers =>
    (modifiers.namedChildren.filter fun c =>
      c.isNode .annotationMarker || c.isNode .annotationForm).filterMap fun a =>
        (a.child? .name).map Tree.text

/-- The type that a declaration introduces. -/
def TypeDecl.ofTree (kind : TypeKind) (t : Tree) : TypeDecl :=
  ⟨nameOf t, kind, annotationNames t, .ofTree t⟩

/-- The name of a parameter; receivers have none. -/
def parameterName? (t : Tree) : Option String :=
  if t.isNode .formalParameter then (t.child? .name).map Tree.text
  else if t.isNode .spreadParameter then
    (t.childOfKind? .variableDeclarator >>= fun d => d.child? .name).map Tree.text
  else none

/-- The method that a declaration introduces. -/
def MethodDecl.ofTree (t : Tree) : MethodDecl where
  name := nameOf t
  parameters :=
    match t.child? .parameters with
    | some ps => ps.namedChildren.filterMap parameterName?
    | none => []
  throws :=
    match t.childOfKind? .throws with
    | some clause => clause.namedChildren.map Tree.text
    | none => []
  annotations := annotationNames t
  body := (t.child? .body).map fun b => ⟨b.text, Stmt.ofBlock b.children⟩
  span := .ofTree t

/-- The code of one member outside methods: initializer blocks, and initial values of fields unless
there is nothing of interest in them. -/
def memberCode (t : Tree) : List Stmt :=
  if t.isNode .block then [.block (Stmt.ofBlock t.children)]
  else if t.isNode .staticInitializer then
    match t.childOfKind? .block with
    | some b => [.block (Stmt.ofBlock b.children)]
    | none => []
  else if t.isNode .fieldDeclaration || t.isNode .constantDeclaration then
    let values := (t.namedChildren.filter (Tree.isNode .variableDeclarator)).filterMap fun d =>
      d.child? .value
    let e := Expr.ofParts (values.map Expr.ofTree)
    if e.isAtom then [] else [.simple [e]]
  else []

/-- What has been found in a part of a tree, in the order in which the nodes begin. -/
structure Findings where
  types : List TypeDecl := []
  methods : List MethodDecl := []
  otherCode : List Stmt := []

namespace Findings

/-- The findings of `a` before those of `b`. -/
def append (a b : Findings) : Findings :=
  ⟨a.types ++ b.types, a.methods ++ b.methods, a.otherCode ++ b.otherCode⟩

/-- What a node contributes by itself. -/
def ofNode (t : Tree) : Findings :=
  match t with
  | .leaf .. => {}
  | .branch k _ cs =>
    match k with
    | .classDeclaration => { types := [.ofTree .ofClass t] }
    | .interfaceDeclaration => { types := [.ofTree .ofInterface t] }
    | .methodDeclaration => { methods := [.ofTree t] }
    | .constructorDeclaration | .compactConstructorDeclaration =>
      { otherCode := ((t.child? .body).map fun b => .block (Stmt.ofBlock b.children)).toList }
    | .classBody | .interfaceBody | .enumBodyDeclarations =>
      { otherCode := (cs.filter Tree.isNamed).flatMap memberCode }
    | _ => {}

mutual

/-- What a node and all nodes below it contribute. -/
def ofTree : Tree → Findings
  | .leaf .. => {}
  | .branch k f cs => (ofNode (.branch k f cs)).append (ofForest cs)

/-- What the trees of a list contribute. -/
def ofForest : List Tree → Findings
  | [] => {}
  | t :: ts => (ofTree t).append (ofForest ts)

end

end Findings

/-! ## Package and imports -/

/-- The name in a package or import declaration, without a wildcard. -/
def qualifiedName? (t : Tree) : Option String :=
  (t.namedChildren.find? fun c => c.isNode .scopedIdentifier || c.isToken .identifier).map Tree.text

/-- The declared package of a file. -/
def packageOf (root : Tree) : Option String :=
  root.namedChildren.find? (Tree.isNode .packageDeclaration) >>= qualifiedName?

/-- The imported names of a file. -/
def importsOf (root : Tree) : List String :=
  (root.namedChildren.filter (Tree.isNode .importDeclaration)).filterMap qualifiedName?

/-- The unit that the tree of a file of `lineCount` lines stands for. -/
def SourceUnit.ofTree (lineCount : Nat) (root : Tree) : SourceUnit :=
  let found := Findings.ofTree root
  { package := packageOf root
    types := found.types
    methods := found.methods
    otherCode := found.otherCode
    imports := importsOf root
    lineCount }

end CodeRisk
