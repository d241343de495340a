import CodeRisk.Proofs.Java.Conform
import CodeRisk.SourceUnit.OfTree
import Mathlib.Data.List.Basic

/-!
# What is collected from a tree

The findings of a tree are gathered in one walk that fills three lists and hands the members of each
body to a second collector. Here each list is read off the nodes of the tree in the order in which
they begin: the methods are the method declarations, the types are the declarations of classes and
interfaces, and the code outside methods is put together from the parts that the nodes bring in
(`SourceUnit.ofTree_eq_nodes`). A part is the block of a constructor or of an initializer, or the
initial values of one declaration of fields.
-/
namespace CodeRisk
open Java (Tree NodeKind)

/-! ## Parts of the code outside methods -/

/-- A part of the code outside methods, as it stands in a tree. -/
inductive CodePart where
  /-- The body of a constructor, or the block of an initializer. -/
  | block (b : Tree)
  /-- The initial values of the fields that are declared together. -/
  | values (vs : List Tree)

namespace CodePart

/-- The statement that a part becomes. Values with nothing of interest in any of them become
none. -/
def statement? : CodePart → Option Stmt
  | block b => some (.block (Stmt.ofBlock b.children))
  | values vs =>
    if (vs.map Expr.ofTree).all Expr.isAtom then none
    else some (.simple [.ofParts (vs.map Expr.ofTree)])

end CodePart

/-- Whether the node is a constructor, with parameters or compact. -/
def isConstructor (t : Tree) : Bool :=
  t.isNode .constructorDeclaration || t.isNode .compactConstructorDeclaration

/-- Whether the node is a body whose members can be initializers and fields. -/
def hasMembers (t : Tree) : Bool :=
  t.isNode .classBody || t.isNode .interfaceBody || t.isNode .enumBodyDeclarations

/-- Whether the node declares fields, be it in a class or in an interface. -/
def isFields (t : Tree) : Bool :=
  t.isNode .fieldDeclaration || t.isNode .constantDeclaration

/-- The block of an initializer, of an instance or static. -/
def initializerBlock? (t : Tree) : Option Tree :=
  if t.isNode .block then some t
  else if t.isNode .staticInitializer then t.childOfKind? .block
  else none

/-- The values that the declarators of a declaration give. -/
def initialValues (t : Tree) : List Tree :=
  (t.namedChildren.filter (Tree.isNode .variableDeclarator)).filterMap fun d => d.child? .value

/-- The parts that a member of a body brings in. -/
def memberParts (t : Tree) : List CodePart :=
  (initializerBlock? t).toList.map .block ++ if isFields t then [.values (initialValues t)] else []

/-- The parts that a node brings in: a constructor its body, and a body with members what each of
them brings in. -/
def codeParts (t : Tree) : List CodePart :=
  (if isConstructor t then (t.child? .body).toList.map .block else []) ++
    if hasMembers t then t.namedChildren.flatMap memberParts else []

/-- The kind of type that a node declares, if it declares a class or an interface. -/
def typeKind? (t : Tree) : Option TypeKind :=
  if t.isNode .classDeclaration then some .ofClass
  else if t.isNode .interfaceDeclaration then some .ofInterface
  else none

/-- The type that a node declares, if it declares a class or an interface. -/
def typeDecl? (t : Tree) : Option TypeDecl :=
  (typeKind? t).map fun k => .ofTree k t

/-! ## The contribution of one node -/

namespace Expr

/-- What is put together from parts has nothing of interest only if no part has. -/
theorem isAtom_ofParts (es : List Expr) : (ofParts es).isAtom = es.all isAtom := by
  rw [ofParts]
  cases h : es.filter fun e => !e.isAtom with
  | nil =>
    have hatoms : ∀ e ∈ es, e.isAtom := by simpa using h
    exact (List.all_eq_true.mpr hatoms).symm
  | cons e rest =>
    have hmem : e ∈ es.filter fun e => !e.isAtom := h ▸ List.mem_cons_self ..
    obtain ⟨he, hatom⟩ := List.mem_filter.mp hmem
    rw [Bool.not_eq_true'] at hatom
    have hall : es.all isAtom = false := List.all_eq_false.mpr ⟨e, he, by simp [hatom]⟩
    rw [hall]
    cases rest with
    | nil => exact hatom
    | cons => rfl

end Expr

theorem Java.Tree.isNode_eq_false {t : Tree} {j k : NodeKind} (h : t.isNode j) (hne : j ≠ k) :
    t.isNode k = false := by
  cases t with
  | leaf => rfl
  | branch i f cs =>
    rw [Tree.isNode, beq_iff_eq] at h
    exact beq_false_of_ne (h ▸ hne)

/-- The code of a member is what its parts become. -/
theorem memberCode_eq (t : Tree) :
    memberCode t = (memberParts t).filterMap CodePart.statement? := by
  unfold memberCode memberParts initializerBlock? isFields
  by_cases hblock : t.isNode .block
  · have hfield := Tree.isNode_eq_false (k := .fieldDeclaration) hblock (by decide)
    have hconstant := Tree.isNode_eq_false (k := .constantDeclaration) hblock (by decide)
    simp [hblock, hfield, hconstant, CodePart.statement?]
  by_cases hstatic : t.isNode .staticInitializer
  · have hfield := Tree.isNode_eq_false (k := .fieldDeclaration) hstatic (by decide)
    have hconstant := Tree.isNode_eq_false (k := .constantDeclaration) hstatic (by decide)
    cases t.childOfKind? .block with
    | none => simp [hblock, hstatic, hfield, hconstant]
    | some b => simp [hblock, hstatic, hfield, hconstant, CodePart.statement?]
  simp only [hblock, hstatic, Expr.isAtom_ofParts, ← initialValues.eq_1]
  by_cases hfields : t.isNode .fieldDeclaration || t.isNode .constantDeclaration
  · simp only [hfields]
    by_cases hatoms : ((initialValues t).map Expr.ofTree).all Expr.isAtom
    · simp [CodePart.statement?, hatoms]
    · simp [CodePart.statement?, hatoms]
  · simp [hfields]

namespace Findings

theorem types_ofNode (t : Tree) : (ofNode t).types = (typeDecl? t).toList := by
  unfold ofNode
  split
  next => rfl
  next k f cs =>
    split
    all_goals first | rfl | simp_all [typeDecl?, typeKind?, Tree.isNode]

theorem methods_ofNode (t : Tree) :
    (ofNode t).methods = if t.isNode .methodDeclaration then [.ofTree t] else [] := by
  unfold ofNode
  split
  next => rfl
  next k f cs =>
    split
    all_goals first | rfl | simp_all [Tree.isNode]

theorem otherCode_ofNode (t : Tree) :
    (ofNode t).otherCode = (codeParts t).filterMap CodePart.statement? := by
  have hbody : ((t.child? .body).map fun b => Stmt.block (Stmt.ofBlock b.children)).toList =
      ((t.child? .body).toList.map .block).filterMap CodePart.statement? := by
    cases t.child? .body <;> rfl
  have hmembers (ms : List Tree) : ms.flatMap memberCode =
      (ms.flatMap memberParts).filterMap CodePart.statement? := by
    rw [List.filterMap_flatMap]
    exact List.flatMap_congr fun c _ => memberCode_eq c
  unfold ofNode
  split
  next => rfl
  next k f cs =>
    split
    case h_4 | h_5 => simpa [codeParts, isConstructor, hasMembers, Tree.isNode] using hbody
    case h_6 | h_7 | h_8 =>
      simpa [codeParts, isConstructor, hasMembers, Tree.isNode, Tree.namedChildren, Tree.children]
        using hmembers (cs.filter Tree.isNamed)
    all_goals simp_all [codeParts, isConstructor, hasMembers, Tree.isNode]

/-! ## The walk -/

section Walk
variable {α : Type} (part : Findings → List α) (hnil : part {} = [])
  (happend : ∀ a b, part (a.append b) = part a ++ part b)
include hnil happend

mutual

/-- Each list of findings takes what the nodes contribute to it, in the order in which they
begin. -/
theorem part_ofTree : (t : Tree) → part (ofTree t) = t.nodes.flatMap fun n => part (ofNode n)
  | .leaf k f l => by
    simp [ofTree, Tree.nodes, ofNode, hnil]
  | .branch k f cs => by
    rw [ofTree, happend, part_ofForest cs, Tree.nodes, List.flatMap_cons]

/-- The same for the trees of a list. -/
theorem part_ofForest : (ts : List Tree) →
    part (ofForest ts) = (Tree.forestNodes ts).flatMap fun n => part (ofNode n)
  | [] => hnil
  | t :: ts => by
    rw [ofForest, happend, part_ofTree t, part_ofForest ts, Tree.forestNodes, List.flatMap_append]

end

end Walk

theorem types_ofTree (t : Tree) : (ofTree t).types = t.nodes.filterMap typeDecl? := by
  rw [part_ofTree types rfl (fun _ _ => rfl), List.filterMap_eq_flatMap_toList]
  exact List.flatMap_congr fun n _ => types_ofNode n

theorem methods_ofTree (t : Tree) :
    (ofTree t).methods = (t.nodes.filter (Tree.isNode .methodDeclaration)).map .ofTree := by
  rw [part_ofTree methods rfl (fun _ _ => rfl)]
  induction t.nodes with
  | nil => rfl
  | cons n ns ih =>
    rw [List.flatMap_cons, ih, methods_ofNode, List.filter_cons]
    split <;> rfl

theorem otherCode_ofTree (t : Tree) :
    (ofTree t).otherCode = (t.nodes.flatMap codeParts).filterMap CodePart.statement? := by
  rw [part_ofTree otherCode rfl (fun _ _ => rfl), List.filterMap_flatMap]
  exact List.flatMap_congr fun n _ => otherCode_ofNode n

end Findings

/-- Whether the node declares a class or an interface. -/
def declaresType (t : Tree) : Bool :=
  t.isNode .classDeclaration || t.isNode .interfaceDeclaration

theorem typeDecl?_isSome (t : Tree) : (typeDecl? t).isSome = declaresType t := by
  rw [typeDecl?, typeKind?, declaresType]
  cases t.isNode .classDeclaration <;> cases t.isNode .interfaceDeclaration <;> rfl

namespace SourceUnit

/-- The primary type is the first class or interface of the tree. -/
theorem primaryType?_ofTree (n : Nat) (root : Tree) :
    (ofTree n root).primaryType? = root.nodes.find? declaresType >>= typeDecl? := by
  rw [primaryType?, ofTree, Findings.types_ofTree]
  induction root.nodes with
  | nil => rfl
  | cons t ts ih =>
    rw [List.filterMap_cons, List.find?_cons, ← typeDecl?_isSome t]
    cases h : typeDecl? t with
    | none => exact ih
    | some d => exact h.symm

/-- **Completeness of the collection.** The methods of a unit are all method declarations of its
tree, its types all declarations of classes and interfaces, the first of which is the primary type,
and its code outside methods is what all parts become: the body of each constructor and, for each
body with members, the block of each initializer and a statement for each declaration of fields with
something of interest in an initial value. Each list is in the order in which the nodes begin. -/
theorem ofTree_eq_nodes (n : Nat) (root : Tree) :
    let u := ofTree n root
    u.methods = (root.nodes.filter (Tree.isNode .methodDeclaration)).map .ofTree ∧
      u.types = root.nodes.filterMap typeDecl? ∧
      u.primaryType? = (root.nodes.find? declaresType >>= typeDecl?) ∧
      (u.primaryType? = none ↔ ∀ t ∈ root.nodes, declaresType t = false) ∧
      u.otherCode = (root.nodes.flatMap codeParts).filterMap CodePart.statement? := by
  refine ⟨Findings.methods_ofTree root, Findings.types_ofTree root, primaryType?_ofTree n root, ?_,
    Findings.otherCode_ofTree root⟩
  rw [primaryType?, List.head?_eq_none_iff, ofTree, Findings.types_ofTree,
    List.filterMap_eq_nil_iff]
  refine forall₂_congr fun t _ => ?_
  rw [← typeDecl?_isSome, Option.isSome_eq_false_iff, Option.isNone_iff_eq_none]

end SourceUnit

end CodeRisk
