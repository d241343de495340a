import CodeRisk.Proofs.Java.Conform

/-!
# Kinds of nodes

The groups of kinds that the grammar keeps apart, and the bounds that the rules of each group stay
within. One look at the whole grammar settles that bounds are closed: a phrase without a node of its
own leads to no kind outside them. So the kinds that can come up among the children of a node follow
from its rule alone.
-/
namespace CodeRisk.Java
open Grammar

/-! ## Kinds -/

namespace NodeKind

/-- Whether the node is neither a statement with other statements in it nor a declaration with
members, and neither a lambda nor a conditional expression nor a switch. -/
def isPlain : NodeKind → Bool
  | error | program | lambda | ternary | switch | switchBlock | switchGroup | switchRule
  | switchLabel
  | block | labeledStatement | doStatement | synchronizedStatement | throwStatement | tryStatement
  | tryWithResources | catchClause | catchFormalParameter | finallyClause | ifStatement
  | whileStatement | forStatement | enhancedForStatement | classDeclaration | classBody
  | staticInitializer | constructorDeclaration | constructorBody | compactConstructorDeclaration
  | methodDeclaration | recordDeclaration | interfaceDeclaration | interfaceBody
  | annotationTypeDeclaration | annotationTypeBody | enumDeclaration | enumBody
  | enumBodyDeclarations | enumConstant => false
  | _ => true

/-- Whether the node can stand below a plain one. -/
def isExpressive : NodeKind → Bool
  | lambda | ternary | switch | classBody => true
  | k => k.isPlain

/-- Whether the node is a statement. -/
def isStatement : NodeKind → Bool
  | expressionStatement | labeledStatement | ifStatement | whileStatement | forStatement
  | enhancedForStatement | block | assertStatement | doStatement | breakStatement
  | continueStatement | returnStatement | yieldStatement | switch | synchronizedStatement
  | localVariableDeclaration | throwStatement | tryStatement | tryWithResources
  | moduleDeclaration | packageDeclaration | importDeclaration | classDeclaration
  | recordDeclaration | interfaceDeclaration | annotationTypeDeclaration | enumDeclaration
  | explicitConstructorInvocation => true
  | _ => false

/-- Whether the node holds statements between braces. -/
def isBlock : NodeKind → Bool
  | block | constructorBody => true
  | _ => false

/-- Whether the node declares a method or a constructor. -/
def isCallable : NodeKind → Bool
  | methodDeclaration | constructorDeclaration | compactConstructorDeclaration => true
  | _ => false

/-- Whether the node belongs to a declaration, be it as a whole, as its body or as a part of its
header. -/
def isDeclarative : NodeKind → Bool
  | modifiers | annotationMarker | annotationForm | annotationArguments | scopedIdentifier
  | integralType | floatingPointType | scopedTypeIdentifier | genericType | arrayType
  | annotatedType | typeArguments | wildcard | dimensions | catchFormalParameter | catchType
  | superclass | superInterfaces | extendsInterfaces | permits | typeList | typeParameters
  | typeParameter | typeBound | formalParameters | inferredParameters | formalParameter
  | receiverParameter | spreadParameter | throws | methodDeclaration | constructorDeclaration
  | compactConstructorDeclaration | classDeclaration | classBody | recordDeclaration
  | interfaceDeclaration | interfaceBody | annotationTypeDeclaration | enumDeclaration | enumBody
  | enumBodyDeclarations | enumConstant => true
  | _ => false

end NodeKind

namespace Tree

/-- A token, or a node that can stand below a plain one. -/
def isExpressive : Tree → Bool
  | leaf .. => true
  | branch k _ _ => k.isExpressive

/-- A token, or a statement. -/
def isStatement : Tree → Bool
  | leaf .. => true
  | branch k _ _ => k.isStatement

/-- An expression in the role. -/
structure IsExpression (f : Option Field) (t : Tree) : Prop where
  field : t.field = f
  expressive : t.isExpressive

/-- A statement in the role. The empty statement is a semicolon. -/
structure IsStatement (f : Option Field) (t : Tree) : Prop where
  field : t.field = f
  statement : t.isStatement

/-- A keyword, an operator or a bracket. -/
def mark (l : Lexeme) : Tree :=
  leaf .fixed none l

@[simp] theorem field_branch (k : NodeKind) (f : Option Field) (cs : List Tree) :
    (branch k f cs).field = f := rfl

@[simp] theorem field_mark (l : Lexeme) : (mark l).field = none := rfl

@[simp] theorem isNode_branch (k j : NodeKind) (f : Option Field) (cs : List Tree) :
    (branch k f cs).isNode j = (k == j) := rfl

@[simp] theorem isNode_mark (l : Lexeme) (k : NodeKind) : (mark l).isNode k = false := rfl

@[simp] theorem isExpressive_inRole {f : Field} {t : Tree} :
    (t.inRole f).isExpressive = t.isExpressive := by
  cases t <;> rfl

@[simp] theorem isStatement_inRole {f : Field} {t : Tree} :
    (t.inRole f).isStatement = t.isStatement := by
  cases t <;> rfl

theorem field_inRole {f : Field} {t : Tree} (h : t.field = none) : (t.inRole f).field = some f := by
  cases t with
  | leaf k g l => cases h; rfl
  | branch k g cs => cases h; rfl

theorem IsExpression.inRole {f : Field} {t : Tree} (h : t.IsExpression none) :
    (t.inRole f).IsExpression (some f) :=
  ⟨field_inRole h.field, isExpressive_inRole.trans h.expressive⟩

theorem IsStatement.inRole {f : Field} {t : Tree} (h : t.IsStatement none) :
    (t.inRole f).IsStatement (some f) :=
  ⟨field_inRole h.field, isStatement_inRole.trans h.statement⟩

end Tree

/-- Whether the phrase yields a node of one of the kinds. -/
def Phrase.hasKind (kinds : NodeKind → Bool) : Phrase → Bool
  | .node k => kinds k
  | _ => false

/-! ## Checks of the whole grammar -/

namespace Bounds

/-- What can come up below a plain node. -/
def plain : Bounds where
  phrase
    | .node k => k.isExpressive
    | .topLevel | .switchGroups | .switchRules | .switchLabels | .statement | .statements
    | .catchClauses | .declaration | .enumConstants | .classMembers | .interfaceMembers
    | .annotationMembers => false
    | _ => true
  role _ := true

/-- What an expression can be, or the expressions of a list. -/
def expression : Bounds where
  phrase
    | .node k => k.isExpressive
    | .expression | .primary | .literal | .reservedIdentifier | .expressions => true
    | _ => false
  role _ := false

/-- What a statement can be. -/
def statement : Bounds where
  phrase
    | .node k => k.isStatement
    | .statement | .declaration => true
    | _ => false
  role _ := false

variable {b : Bounds} {t : Tree}

theorem Holds.field_eq_none (h : b.Holds t) (hroles : ∀ f, b.role f = false) : t.field = none := by
  cases hf : t.field with
  | none => rfl
  | some f =>
    have hrole := h.role f hf
    rw [hroles] at hrole
    cases hrole

theorem Holds.field_ne (h : b.Holds t) {f : Field} (hf : b.role f = false) : t.field ≠ some f := by
  intro hfield
  rw [h.role f hfield] at hf
  cases hf

theorem Holds.isExpressive (h : b.Holds t)
    (hkinds : ∀ k, b.phrase (.node k) → k.isExpressive) : t.isExpressive := by
  cases t with
  | leaf k f l => rfl
  | branch k f cs => exact hkinds k (h.kind k f cs rfl)

theorem Holds.isStatement (h : b.Holds t)
    (hkinds : ∀ k, b.phrase (.node k) → k.isStatement) : t.isStatement := by
  cases t with
  | leaf k f l => rfl
  | branch k f cs => exact hkinds k (h.kind k f cs rfl)

/-- What stands in the header of a loop with a condition. -/
def header : Bounds where
  phrase := expression.phrase
  role f := f == .condition

/-- What a declaration is made of, apart from the code in it. -/
def declaration : Bounds where
  phrase
    | .node k => k.isDeclarative
    | .modifierItems | .annotationItem | .annotations | .type | .plainType | .types
    | .typeArgumentList | .wildcardBounds | .emptyDimensions | .catchTypes | .typeParameterList
    | .boundTypes | .methodHeader | .methodDeclarator | .constructorDeclarator | .parameterList
    | .receiverPath | .declaratorName | .reservedIdentifier | .inferredNames
    | .enumConstants => true
    | _ => false
  role _ := true

/-- What stands before the body of a method or before the value of a variable. -/
def signature : Bounds where
  phrase := declaration.phrase
  role f := f == .name || f == .parameters

/-- All bounds that are used here are closed. One look at the grammar settles it. -/
private theorem closed :
    ∀ b ∈ [header, declaration, signature, plain, expression, statement], b.Closed := by
  decide +kernel

theorem header_closed : header.Closed := closed _ (by simp)

theorem declaration_closed : declaration.Closed := closed _ (by simp)

theorem signature_closed : signature.Closed := closed _ (by simp)

theorem plain_closed : plain.Closed := closed _ (by simp)

theorem expression_closed : expression.Closed := closed _ (by simp)

theorem statement_closed : statement.Closed := closed _ (by simp)

/-- The rules of plain nodes stay within the bounds. -/
theorem plain_admits : ∀ x ∈ grammar.rules, x.1.hasKind NodeKind.isPlain → plain.admits x.2 := by
  decide +kernel

end Bounds

/-! ## Children of one node -/

namespace Tree
variable {k : NodeKind} {f : Option Field} {cs : List Tree}

/-- A token, or a node of one of the kinds. -/
def fits (kinds : NodeKind → Bool) : Tree → Bool
  | leaf .. => true
  | branch k _ _ => kinds k

/-- The children of a node are within bounds that its rule stays within. -/
theorem Conforms.within {b : Bounds} (hb : b.Closed) {kinds : NodeKind → Bool}
    (hadmits : ∀ x ∈ grammar.rules, x.1.hasKind kinds → b.admits x.2)
    (h : (Tree.branch k f cs).Conforms) (hk : kinds k) (hprogram : k ≠ .program) :
    ∀ c ∈ cs, c.fits fun j => b.phrase (.node j) := by
  intro c hc
  cases h with
  | @branch _ _ _ r hr hyields _ _ =>
    have hmem : (.node k, r) ∈ grammar.rules := by
      refine mem_rules_of_ruleOf? ?_
      cases k with
      | program => exact absurd rfl hprogram
      | _ => exact hr
    cases c with
    | leaf => rfl
    | branch j g ds =>
      exact (hyields.within hb (hadmits _ hmem hk) _
        (List.mem_filter.mpr ⟨hc, rfl⟩)).kind j g ds rfl

end Tree

end CodeRisk.Java
