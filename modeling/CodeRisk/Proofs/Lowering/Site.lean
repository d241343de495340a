import CodeRisk.Java.Tree
import CodeRisk.Proofs.Complexity.Mark

/-!
# Sites in a syntax tree

Which nodes of a syntax tree count for the complexity of a method, read off the tree itself. A
site is a node with the kind of the node above it. This is all one has to know of the context:
whether a switch stands as a statement depends on what it is a part of (`Site.isStatement`), and
the parts of a method that are not counted with it are recognized by their own kind or by their
role (`Site.isApart`).

The outline of a tree holds the sites below its root and leaves out those that are apart, with all
that is below them. Its ranks are those of the nodes: conditions and loops add a branch and nest,
handlers and conditional expressions add a branch, and a switch that stands as a statement adds a
branch for each label and nests.
-/
namespace CodeRisk.Java

namespace NodeKind

/-- Whether a child that can be a statement is one. -/
def isSequence : NodeKind → Bool
  | block | constructorBody | switchGroup | switchRule | labeledStatement => true
  | _ => false

/-- Whether a child in the role of a body or of an alternative is a statement. -/
def isControl : NodeKind → Bool
  | ifStatement | whileStatement | doStatement | forStatement | enhancedForStatement => true
  | _ => false

/-- Whether a child can be a statement that is told apart from an expression. -/
def holdsStatements (k : NodeKind) : Bool :=
  k.isSequence || k.isControl

/-- Whether the node is a condition or a loop with the condition before its body. -/
def isNesting : NodeKind → Bool
  | ifStatement | whileStatement | forStatement | enhancedForStatement => true
  | _ => false

/-- Whether the node adds one branch wherever it stands. -/
def isBranching : NodeKind → Bool
  | catchClause | ternary => true
  | k => k.isNesting

/-- Whether the node is a body of a class or a declaration of a type, a label of a switch or the
parameter of a handler. -/
def isApart : NodeKind → Bool
  | classBody | classDeclaration | interfaceDeclaration | enumDeclaration | recordDeclaration
  | switchLabel | catchFormalParameter => true
  | _ => false

/-- Whether some children of the node do not count because of their role. -/
def hasAside : NodeKind → Bool
  | lambda | enhancedForStatement => true
  | _ => false

/-- The construct that the node stands for wherever it stands. -/
def construct? : NodeKind → Option Construct
  | ifStatement => some .ifElse
  | whileStatement => some .whileLoop
  | forStatement => some .forLoop
  | enhancedForStatement => some .forEach
  | tryStatement | tryWithResources => some .tryCatch
  | throwStatement => some .throw
  | catchClause => some .handler
  | ternary => some .conditional
  | _ => none

/-- Whether the node leaves what its children leave, wherever it stands. -/
def isTransparent (k : NodeKind) : Bool :=
  !k.isApart && k.construct?.isNone && k != .switch

end NodeKind

namespace Tree

/-- Whether the tree is a branch of one of the kinds. -/
def hasKind (kinds : NodeKind → Bool) : Tree → Bool
  | leaf .. => false
  | branch k _ _ => kinds k

theorem hasKind_of_isNode {kinds : NodeKind → Bool} {k : NodeKind} {t : Tree} (h : t.isNode k)
    (hk : kinds k) : t.hasKind kinds := by
  cases t with
  | leaf => cases h
  | branch j f cs => exact eq_of_beq h ▸ hk

/-- Whether an annotation type is declared in the place of a statement. -/
def declaresAnnotationType (t : Tree) : Bool :=
  t.hasKind NodeKind.holdsStatements && t.children.any (isNode .annotationTypeDeclaration)

/-- The number of labels of a group, and one for a rule with an arrow. -/
def entryLabels (t : Tree) : Nat :=
  if t.isNode .switchGroup then t.children.countP (isNode .switchLabel)
  else if t.isNode .switchRule then 1
  else 0

/-- The number of labels or rules of a switch. -/
def labelCount (t : Tree) : Nat :=
  (((t.children.filter (isNode .switchBlock)).flatMap children).map entryLabels).sum

end Tree

/-- A node with the kind of the node above it. -/
structure Site where
  parent : NodeKind
  tree : Tree

namespace Site

/-- Whether a node that can be a statement or an expression is a statement here. -/
def isStatement (p : Site) : Bool :=
  p.parent.isSequence ||
    p.parent.isControl && (p.tree.field == some .consequence || p.tree.field == some .alternative ||
      p.tree.field == some .body)

/-- Whether the node belongs to the parameters of a lambda or to the variable of a loop over
values. -/
def isAside (p : Site) : Bool :=
  p.parent == .lambda && p.tree.field == some .parameters ||
    p.parent == .enhancedForStatement && p.tree.field != some .value && p.tree.field != some .body

/-- Whether the node and all below it do not count. -/
def isApart (p : Site) : Bool :=
  p.tree.hasKind NodeKind.isApart || p.isAside

/-- Whether the node adds one branch. -/
def isBranching (p : Site) : Bool :=
  p.tree.hasKind NodeKind.isBranching

/-- Whether the node is a switch that stands as a statement. -/
def isSwitch (p : Site) : Bool :=
  p.tree.isNode .switch && p.isStatement

variable {p : NodeKind} {t : Tree}

theorem isAside_eq_false (h : p.hasAside = false) : isAside ⟨p, t⟩ = false := by
  cases p with
  | lambda | enhancedForStatement => cases h
  | _ => rfl

theorem isStatement_eq_false (hs : p.isSequence = false) (hc : p.isControl = false) :
    isStatement ⟨p, t⟩ = false := by
  simp [isStatement, hs, hc]

theorem isStatement_of_isSequence (h : p.isSequence) : isStatement ⟨p, t⟩ = true := by
  simp [isStatement, h]

theorem isStatement_of_isControl (hp : p.isControl)
    (ht : t.field = some .consequence ∨ t.field = some .alternative ∨ t.field = some .body) :
    isStatement ⟨p, t⟩ = true := by
  rcases ht with ht | ht | ht <;> simp [isStatement, hp, ht]

theorem holdsStatements_of_isStatement (h : isStatement ⟨p, t⟩) : p.holdsStatements := by
  rw [isStatement, Bool.or_eq_true, Bool.and_eq_true] at h
  rw [NodeKind.holdsStatements, Bool.or_eq_true]
  exact h.imp_right And.left

instance : Ranked Site where
  ways p := (if p.isBranching then 1 else 0) + if p.isSwitch then p.tree.labelCount else 0
  nests p := p.tree.hasKind NodeKind.isNesting || p.isSwitch

/-- The construct that the node stands for: by its kind, or a switch with its labels. -/
def construct? (s : Site) : Option Construct :=
  match s.tree with
  | .leaf .. => none
  | .branch k _ _ => if s.isSwitch then some (.switch s.tree.labelCount) else k.construct?

theorem construct?_switch {f : Option Field} {cs : List Tree} :
    construct? ⟨p, .branch .switch f cs⟩ =
      if isStatement ⟨p, .branch .switch f cs⟩ then
        some (.switch (Tree.branch .switch f cs).labelCount)
      else none := rfl

theorem construct?_branch {k : NodeKind} {f : Option Field} {cs : List Tree} (h : k ≠ .switch) :
    construct? ⟨p, .branch k f cs⟩ = k.construct? := by
  have hswitch : isSwitch ⟨p, .branch k f cs⟩ = false := by
    rw [isSwitch, Tree.isNode, beq_false_of_ne h, Bool.false_and]
  rw [construct?, hswitch]
  rfl

instance : Marked Site where
  construct? := construct?
  ways_eq s := by
    obtain ⟨p, _ | ⟨k, f, cs⟩⟩ := s
    · rfl
    · by_cases hk : k = .switch
      · subst hk
        rw [construct?_switch]
        show 0 + (if isStatement _ then _ else 0) = _
        split <;> simp
      · rw [construct?_branch hk]
        cases k <;> first | rfl | exact absurd rfl hk
  nests_eq s := by
    obtain ⟨p, _ | ⟨k, f, cs⟩⟩ := s
    · rfl
    · by_cases hk : k = .switch
      · subst hk
        rw [construct?_switch]
        show isStatement _ = _
        split <;> simp_all
      · rw [construct?_branch hk]
        cases k <;> first | rfl | exact absurd rfl hk

@[simp] theorem marked_construct? (s : Site) : Marked.construct? s = s.construct? := rfl

end Site

namespace Tree

mutual

/-- The outline of what counts below a tree. -/
def outlines : Tree → List (Outline Site)
  | leaf .. => []
  | branch k _ cs => forestOutlines k cs

/-- The outlines of those of the trees below a node of kind `k` that count. -/
def forestOutlines (k : NodeKind) : List Tree → List (Outline Site)
  | [] => []
  | t :: ts =>
    if Site.isApart ⟨k, t⟩ then forestOutlines k ts
    else .node ⟨k, t⟩ t.outlines :: forestOutlines k ts

end

/-- The sites below a tree that count, with the sites around each. -/
def occurrences (t : Tree) : List (Occurrence Site) :=
  Outline.occurrencesIn [] t.outlines

end Tree

/-! ## Figures -/

namespace Site

/-- The branches of some sites are counted by kinds of nodes. -/
theorem sum_ways (ss : List Site) :
    (ss.map Ranked.ways).sum =
      ss.countP isBranching + ((ss.filter isSwitch).map fun s => s.tree.labelCount).sum := by
  induction ss with
  | nil => rfl
  | cons s ss ih =>
    have hways : Ranked.ways s =
        (if s.isBranching then 1 else 0) + if s.isSwitch then s.tree.labelCount else 0 := rfl
    rw [List.map_cons, List.sum_cons, ih, hways, List.countP_cons, List.filter_cons]
    split <;> split <;> simp <;> omega

theorem branches_eq (os : List (Occurrence Site)) :
    Outline.branches os =
      os.countP (fun o => o.label.isBranching) +
        ((os.filter fun o => o.label.isSwitch).map fun o => o.label.tree.labelCount).sum := by
  have hsum := sum_ways (os.map Occurrence.label)
  rw [List.map_map, List.countP_map, List.filter_map, List.map_map] at hsum
  exact hsum

end Site

/-! ## Marks -/

namespace Tree

/-- What a tree below a node of kind `p` leaves at the given depth. -/
def marks (depth : Nat) (p : NodeKind) (t : Tree) : List Mark :=
  if Site.isApart ⟨p, t⟩ then [] else Outline.marks depth (.node ⟨p, t⟩ t.outlines)

variable (d : Nat) (p : NodeKind)

theorem marksIn_forestOutlines (ts : List Tree) :
    Outline.marksIn d (forestOutlines p ts) = ts.flatMap (marks d p) := by
  induction ts with
  | nil => rfl
  | cons t ts ih =>
    rw [forestOutlines, List.flatMap_cons, marks, ← ih]
    split
    · rfl
    · rfl

@[simp] theorem marks_leaf (k : TokenKind) (f : Option Field) (l : Lexeme) :
    (leaf k f l).marks d p = [] := by
  unfold marks
  split
  · rfl
  · rfl

section Branches
variable {d p}
variable {k : NodeKind} {f : Option Field} {cs : List Tree}

theorem marks_of_isApart (h : k.isApart) : (branch k f cs).marks d p = [] := by
  have hapart : Site.isApart ⟨p, branch k f cs⟩ = true := by
    rw [Site.isApart, hasKind, h, Bool.true_or]
  exact if_pos hapart

theorem marks_of_isAside {t : Tree} (h : Site.isAside ⟨p, t⟩) : t.marks d p = [] := by
  have hapart : Site.isApart ⟨p, t⟩ = true := by
    rw [Site.isApart, h, Bool.or_true]
  exact if_pos hapart

private theorem marks_branch (ha : Site.isAside ⟨p, branch k f cs⟩ = false)
    (hk : k.isApart = false) :
    (branch k f cs).marks d p =
      Outline.mark d (Site.mk p (branch k f cs)) ++
        cs.flatMap (marks (Outline.inside d (Site.mk p (branch k f cs))) k) := by
  have hapart : Site.isApart ⟨p, branch k f cs⟩ = false := by
    rw [Site.isApart, hasKind, hk, ha, Bool.or_false]
  rw [marks, if_neg (by rw [hapart]; exact Bool.false_ne_true), Outline.marks_node, outlines,
    marksIn_forestOutlines]

/-- A node that stands for a construct leaves that construct before what its children leave. -/
theorem marks_of_construct {c : Construct} (ha : Site.isAside ⟨p, branch k f cs⟩ = false)
    (hk : k.isApart = false) (hc : Site.construct? ⟨p, branch k f cs⟩ = some c) :
    (branch k f cs).marks d p =
      ⟨c, d⟩ :: cs.flatMap (marks (if c.nests then d + 1 else d) k) := by
  rw [marks_branch ha hk, Outline.mark, Outline.inside, Marked.nests_eq, Site.marked_construct?, hc]
  rfl

/-- A node that stands for nothing leaves what its children leave. -/
theorem marks_of_construct?_eq_none (ha : Site.isAside ⟨p, branch k f cs⟩ = false)
    (hk : k.isApart = false) (hc : Site.construct? ⟨p, branch k f cs⟩ = none) :
    (branch k f cs).marks d p = cs.flatMap (marks d k) := by
  rw [marks_branch ha hk, Outline.mark, Outline.inside, Marked.nests_eq, Site.marked_construct?, hc]
  rfl

theorem marks_of_kind {c : Construct} (ha : Site.isAside ⟨p, branch k f cs⟩ = false)
    (hc : k.construct? = some c) :
    (branch k f cs).marks d p =
      ⟨c, d⟩ :: cs.flatMap (marks (if c.nests then d + 1 else d) k) := by
  have hapart : k.isApart = false := by
    cases k <;> first | rfl | cases hc
  have hswitch : k ≠ .switch := by
    rintro rfl
    cases hc
  exact marks_of_construct ha hapart ((Site.construct?_branch hswitch).trans hc)

theorem marks_of_isTransparent (ha : Site.isAside ⟨p, branch k f cs⟩ = false)
    (hk : k.isTransparent) : (branch k f cs).marks d p = cs.flatMap (marks d k) := by
  rw [NodeKind.isTransparent, Bool.and_eq_true, Bool.and_eq_true, Bool.not_eq_true',
    Option.isNone_iff_eq_none, bne_iff_ne] at hk
  obtain ⟨⟨hapart, hconstruct⟩, hswitch⟩ := hk
  exact marks_of_construct?_eq_none ha hapart ((Site.construct?_branch hswitch).trans hconstruct)

/-- A switch that stands as a statement. -/
theorem marks_switch (ha : Site.isAside ⟨p, branch .switch f cs⟩ = false)
    (hs : Site.isStatement ⟨p, branch .switch f cs⟩) :
    (branch .switch f cs).marks d p =
      ⟨.switch (branch .switch f cs).labelCount, d⟩ :: cs.flatMap (marks (d + 1) .switch) :=
  marks_of_construct ha rfl (by rw [Site.construct?_switch, if_pos hs])

end Branches

end Tree

end CodeRisk.Java
