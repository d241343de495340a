import CodeRisk.Proofs.Complexity.Method
import CodeRisk.Proofs.Lowering.Statements

/-!
# The complexity of a method in a syntax tree

The body of a method that stands in a conforming tree is a block, and lowering is faithful to it.
So the figures of the lowered method can be read off the syntax tree, from the sites in the body
that count.
-/
namespace CodeRisk
open Java

variable {t b : Tree}

/-- The statements of a method in a conforming tree leave what the sites in its body leave. -/
theorem MethodDecl.marksIn_ofTree (h : t.Conforms) (hmethod : t.isNode .methodDeclaration)
    (hbody : t.child? .body = some b) (hplain : ∀ n ∈ b.nodes, n.declaresAnnotationType = false)
    (d : Nat) :
    Outline.marksIn d (Stmt.outlines (MethodDecl.ofTree t).statements) =
      Outline.marksIn d b.outlines := by
  have hstatements : (MethodDecl.ofTree t).statements = Stmt.ofBlock b.children := by
    rw [MethodDecl.statements, MethodDecl.ofTree, hbody]
    rfl
  cases t with
  | leaf => cases hmethod
  | branch j f cs =>
    obtain rfl : j = .methodDeclaration := eq_of_beq hmethod
    obtain ⟨hmem, -, k, bs, rfl, hk⟩ := Tree.of_child? (h.callable rfl) hbody
    have hconforms : (Tree.branch k (some .body) bs).Conforms :=
      h.of_mem_nodes (Tree.mem_nodes_of_mem_children hmem (Tree.self_mem_nodes _))
    rw [hstatements, Stmt.marksIn_outlines, Tree.outlines, Tree.marksIn_forestOutlines]
    exact (hconforms.faithful hplain).block rfl hk d

/-- Where no annotation type is declared at all, none is declared as a statement. -/
theorem Java.Tree.declaresAnnotationType_eq_false
    (h : ∀ n ∈ b.nodes, n.isNode .annotationTypeDeclaration = false) :
    ∀ n ∈ b.nodes, n.declaresAnnotationType = false := by
  intro n hn
  have hchildren : n.children.any (Tree.isNode .annotationTypeDeclaration) = false := by
    rw [List.any_eq_false]
    intro c hc
    rw [h c (Tree.mem_nodes_of_child hn hc)]
    exact Bool.false_ne_true
  rw [Tree.declaresAnnotationType, hchildren, Bool.and_false]

/-- The statements of a method in a conforming tree add what the sites in its body add. -/
theorem MethodDecl.chargesIn_ofTree (h : t.Conforms) (hmethod : t.isNode .methodDeclaration)
    (hbody : t.child? .body = some b)
    (hplain : ∀ n ∈ b.nodes, n.isNode .annotationTypeDeclaration = false) (d : Nat) :
    Outline.chargesIn d (Stmt.outlines (MethodDecl.ofTree t).statements) =
      Outline.chargesIn d b.outlines := by
  rw [Outline.chargesIn_eq, Outline.chargesIn_eq,
    marksIn_ofTree h hmethod hbody (Tree.declaresAnnotationType_eq_false hplain)]

/-- **Lowering preserves complexity.** -/
theorem MethodDecl.complexity_ofTree (root t b : Tree) (hroot : root.Conforms)
    (ht : t ∈ root.nodes) (hmethod : t.isNode .methodDeclaration)
    (hbody : t.child? .body = some b)
    (hplain : ∀ n ∈ b.nodes, n.isNode .annotationTypeDeclaration = false) :
    let counted := b.occurrences
    let branches := counted.countP (fun o => o.label.isBranching) +
      ((counted.filter fun o => o.label.isSwitch).map fun o => o.label.tree.labelCount).sum
    (MethodDecl.ofTree t).complexity.cyclomatic = .ofNat (1 + branches) ∧
    (MethodDecl.ofTree t).complexity.cognitive =
      .ofNat (branches + ((counted.filter Occurrence.nests).map Occurrence.depth).sum) := by
  have hcharges := MethodDecl.chargesIn_ofTree (hroot.of_mem_nodes ht) hmethod hbody hplain 0
  have hbranches : Outline.branches (MethodDecl.ofTree t).occurrences =
      Outline.branches b.occurrences := by
    rw [MethodDecl.occurrences, Stmt.occurrences, Tree.occurrences,
      Outline.branches_occurrencesIn, Outline.branches_occurrencesIn]
    exact congrArg Charge.branches hcharges
  have hcognition : Outline.cognition (MethodDecl.ofTree t).occurrences =
      Outline.cognition b.occurrences := by
    rw [MethodDecl.occurrences, Stmt.occurrences, Tree.occurrences,
      Outline.cognition_occurrencesIn, Outline.cognition_occurrencesIn]
    exact congrArg Charge.cognition hcharges
  intro counted branches
  constructor
  · rw [MethodDecl.cyclomatic_eq, hbranches, Site.branches_eq]
    exact (UInt32.ofNat_add 1 branches).symm
  · rw [MethodDecl.cognitive_eq, hcognition, Outline.cognition_eq_branches_add, Site.branches_eq]

namespace Java.Tree

/-- A keyword, an operator or a bracket of the sample. -/
def sampleMark (text : String) : Tree :=
  mark ⟨" ", text, 0, false⟩

/-- An identifier of the sample. -/
def sampleName (f : Option Field) (text : String) : Tree :=
  leaf .identifier f ⟨" ", text, 0, false⟩

/-- An identifier in parentheses. -/
def sampleCondition (text : String) : Tree :=
  branch .parenthesized (some .condition) [sampleMark "(", sampleName none text, sampleMark ")"]

/-- A loop around a switch with two labels and a condition behind them; a class with a conditional
expression in a field; and a call with a lambda that loops. -/
def sampleBody : Tree :=
  branch .block (some .body) [
    sampleMark "\x7b",
    branch .whileStatement none [
      sampleMark "while",
      sampleCondition "x",
      branch .switch (some .body) [
        sampleMark "switch",
        sampleCondition "y",
        branch .switchBlock (some .body) [
          sampleMark "\x7b",
          branch .switchGroup none [
            branch .switchLabel none [
              sampleMark "case", leaf .decimalIntegerLiteral none ⟨" ", "1", 0, false⟩],
            sampleMark ":",
            branch .switchLabel none [sampleMark "default"],
            sampleMark ":",
            leaf .lineComment none ⟨" ", "// both", 0, false⟩,
            branch .ifStatement none [
              sampleMark "if", sampleCondition "z",
              leaf .fixed (some .consequence) ⟨" ", ";", 0, false⟩]],
          sampleMark "\x7d"]]],
    branch .classDeclaration none [
      sampleMark "class",
      sampleName (some .name) "Local",
      branch .classBody (some .body) [
        sampleMark "\x7b",
        branch .fieldDeclaration none [
          branch .integralType none [sampleMark "int"],
          branch .variableDeclarator none [
            sampleName (some .name) "g",
            sampleMark "=",
            branch .ternary (some .value) [
              sampleName (some .condition) "a", sampleMark "?",
              sampleName (some .consequence) "b", sampleMark ":",
              sampleName (some .alternative) "c"]],
          sampleMark ";"],
        sampleMark "\x7d"]],
    branch .expressionStatement none [
      branch .methodInvocation none [
        sampleName (some .name) "submit",
        branch .argumentList none [
          sampleMark "(",
          branch .lambda none [
            sampleName (some .parameters) "job",
            sampleMark "->",
            branch .block (some .body) [
              sampleMark "\x7b",
              branch .forStatement none [
                sampleMark "for", sampleMark "(", sampleMark ";", sampleMark ";", sampleMark ")",
                leaf .fixed (some .body) ⟨" ", ";", 0, false⟩],
              sampleMark "\x7d"]],
          sampleMark ")"]],
      sampleMark ";"],
    sampleMark "\x7d"]

def sampleMethod : Tree :=
  branch .methodDeclaration none [
    leaf .voidType none ⟨"", "void", 0, false⟩,
    sampleName (some .name) "run",
    branch .formalParameters (some .parameters) [sampleMark "(", sampleMark ")"],
    sampleBody]

def sampleFile : Tree :=
  branch .program none [sampleMethod]

end Java.Tree

theorem MethodDecl.complexity_ofTree_sample :
    Tree.sampleFile.Conforms ∧ Tree.sampleMethod ∈ Tree.sampleFile.nodes ∧
    Tree.sampleMethod.child? .body = some Tree.sampleBody ∧
    (∀ n ∈ Tree.sampleBody.nodes, n.isNode .annotationTypeDeclaration = false) ∧
    (MethodDecl.ofTree Tree.sampleMethod).complexity.cyclomatic = 6 ∧
    (MethodDecl.ofTree Tree.sampleMethod).complexity.cognitive = 8 := by
  have hroot : Tree.sampleFile.Conforms := Tree.conforms_of_check 8 _ (by decide +kernel)
  have hmem : Tree.sampleMethod ∈ Tree.sampleFile.nodes :=
    List.mem_cons_of_mem _ (List.mem_cons_self ..)
  have hplain : ∀ n ∈ Tree.sampleBody.nodes, n.isNode .annotationTypeDeclaration = false := by
    decide +kernel
  obtain ⟨hcyclomatic, hcognitive⟩ :=
    MethodDecl.complexity_ofTree Tree.sampleFile Tree.sampleMethod Tree.sampleBody hroot hmem rfl
      rfl hplain
  exact ⟨hroot, hmem, rfl, hplain, hcyclomatic.trans (by decide +kernel),
    hcognitive.trans (by decide +kernel)⟩

end CodeRisk
