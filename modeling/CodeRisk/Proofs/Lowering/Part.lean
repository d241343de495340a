import CodeRisk.Proofs.Constructs
import CodeRisk.Proofs.Lowering.Collected
import CodeRisk.Proofs.Lowering.Method

/-!
# The parts of a file that are analysed

Each statement tree of a unit has been lowered from one part of the file: the trees of the methods
from their bodies, the trees of the other code from the bodies of constructors, the blocks of
initializers and the initial values of fields. What a part holds is read off the syntax tree: the
sites in it that stand for constructs, down to the next body of a class
(`Java.Tree.sites`). In a conforming file the constructs of each tree are those sites, one by one
and in the order of the text (`SourceUnit.constructs_trees`).
-/
namespace CodeRisk
open Java (Tree Site NodeKind Field)

/-! ## Marked sites -/

namespace Java

/-- Whether the node stands for a construct. -/
def Site.isMarked (s : Site) : Bool :=
  s.construct?.isSome

namespace Tree

/-- The marked sites of the code below a tree, in the order of the text. -/
def sitesBelow (t : Tree) : List Site :=
  (Outline.labelsIn t.outlines).filter Site.isMarked

/-- The marked sites of the code that a tree below a node of kind `p` is. -/
def sites (p : NodeKind) (t : Tree) : List Site :=
  if Site.isApart ⟨p, t⟩ then []
  else (Outline.labels (.node ⟨p, t⟩ t.outlines)).filter Site.isMarked

variable {p k : NodeKind} {f : Option Field} {cs : List Tree} {t : Tree}

theorem sites_of_isApart (h : Site.isApart ⟨p, t⟩) : t.sites p = [] :=
  if_pos h

theorem sites_of_not_isApart (h : Site.isApart ⟨p, t⟩ = false) :
    t.sites p = [Site.mk p t].filter Site.isMarked ++ t.sitesBelow := by
  rw [sites, h, if_neg Bool.false_ne_true, Outline.labels_node, sitesBelow, ← List.filter_append]
  rfl

@[simp] theorem sites_leaf (k : TokenKind) (f : Option Field) (l : Lexeme) :
    (leaf k f l).sites p = [] := by
  unfold sites
  split
  · rfl
  · rfl

theorem sitesBelow_branch : (branch k f cs).sitesBelow = cs.flatMap (sites k) := by
  rw [sitesBelow, outlines]
  induction cs with
  | nil => rfl
  | cons c cs ih =>
    rw [forestOutlines, List.flatMap_cons, sites, ← ih]
    split
    · rfl
    · rw [Outline.labelsIn_cons, List.filter_append]

private theorem filterMap_filter_isMarked (ss : List Site) :
    (ss.filter Site.isMarked).filterMap Site.construct? = ss.filterMap Site.construct? := by
  rw [List.filterMap_filter]
  refine List.filterMap_congr fun s _ => ?_
  rw [Site.isMarked]
  cases s.construct? <;> rfl

/-- The sites in the code below a tree stand for what its marks are of. -/
theorem filterMap_sitesBelow (d : Nat) (t : Tree) :
    t.sitesBelow.filterMap Site.construct? =
      (Outline.marksIn d t.outlines).map Mark.construct := by
  rw [sitesBelow, filterMap_filter_isMarked]
  exact Outline.filterMap_labelsIn d _

theorem filterMap_sites (d : Nat) (p : NodeKind) (t : Tree) :
    (t.sites p).filterMap Site.construct? = (t.marks d p).map Mark.construct := by
  rw [sites, marks]
  split
  · rfl
  · rw [filterMap_filter_isMarked]
    exact Outline.filterMap_labels d _

end Tree

end Java

/-! ## Trees and their parts -/

namespace CodePart

/-- The marked sites of a part. -/
def sites : CodePart → List Site
  | block b => b.sitesBelow
  | values vs => vs.flatMap (Tree.sites .variableDeclarator)

/-- Lowering keeps what is in the part. -/
def IsFaithful : CodePart → Prop
  | block b => ∃ k f bs, b = .branch k f bs ∧ k.isBlock ∧ Tree.Faithful b
  | values vs => ∀ v ∈ vs, v.isExpressive ∧ Tree.Faithful v

/-- The statement of a part has the constructs of the sites of the part. A part without a statement
has no such sites. -/
theorem constructs_statement? {part : CodePart} (h : part.IsFaithful) :
    part.statement?.elim [] (fun s => Stmt.constructs [s]) =
      part.sites.filterMap Site.construct? := by
  cases part with
  | block b =>
    obtain ⟨k, f, bs, rfl, hk, hfaithful⟩ := h
    show Stmt.constructs [.block (Stmt.ofBlock bs)] = (Tree.branch k f bs).sitesBelow.filterMap _
    rw [Stmt.constructs_eq 0, Tree.filterMap_sitesBelow 0, Stmt.marksIn_outlines,
      List.flatMap_singleton, Stmt.marks_block, hfaithful.block rfl hk, Tree.outlines,
      Tree.marksIn_forestOutlines]
  | values vs =>
    have hsites : ((vs.map Expr.ofTree).flatMap (Expr.marks 0)).map Mark.construct =
        (sites (.values vs)).filterMap Site.construct? := by
      rw [sites, List.filterMap_flatMap, List.flatMap_map, List.map_flatMap]
      refine List.flatMap_congr fun v hv => ?_
      obtain ⟨hexpressive, hfaithful⟩ := h v hv
      rw [Tree.filterMap_sites 0]
      exact congrArg _ (hfaithful.expression 0 _ hexpressive rfl fun _ => rfl)
    rw [statement?, ← hsites]
    split
    next hatoms =>
      have hnone : (vs.map Expr.ofTree).filter (fun e => !e.isAtom) = [] := by
        rw [List.filter_eq_nil_iff]
        intro e he
        rw [List.all_eq_true.mp hatoms e he]
        exact Bool.false_ne_true
      rw [← Expr.flatMap_marks_filter, hnone]
      rfl
    next =>
      rw [Option.elim_some, Stmt.constructs_eq 0, Stmt.marksIn_outlines, List.flatMap_singleton,
        Stmt.marks_simple, List.flatMap_singleton, Expr.marks_ofParts]

theorem isMarked_of_mem_sites {part : CodePart} {s : Site} (h : s ∈ part.sites) : s.isMarked := by
  cases part with
  | block b => exact (List.mem_filter.mp h).2
  | values vs =>
    obtain ⟨v, -, h⟩ := List.mem_flatMap.mp h
    rw [Tree.sites] at h
    split at h
    · cases h
    · exact (List.mem_filter.mp h).2

/-- A part without a statement holds nothing. -/
theorem sites_eq_nil {part : CodePart} (h : part.IsFaithful) (hstatement : part.statement? = none) :
    part.sites = [] := by
  have hconstructs := constructs_statement? h
  rw [hstatement, Option.elim_none] at hconstructs
  rw [List.eq_nil_iff_forall_not_mem]
  intro s hs
  have hnone := List.filterMap_eq_nil_iff.mp hconstructs.symm s hs
  have hmarked := isMarked_of_mem_sites hs
  rw [Site.isMarked, hnone] at hmarked
  cases hmarked

/-- Parts without a statement are left out. -/
theorem map_constructs_statements {parts : List CodePart} (h : ∀ part ∈ parts, part.IsFaithful) :
    (parts.filterMap statement?).map (fun s => Stmt.constructs [s]) =
      (parts.filter fun part => part.statement?.isSome).map
        fun part => part.sites.filterMap Site.construct? := by
  induction parts with
  | nil => rfl
  | cons part parts ih =>
    have hpart := constructs_statement? (h part (List.mem_cons_self ..))
    have ih := ih fun q hq => h q (List.mem_cons_of_mem _ hq)
    rw [List.filterMap_cons, List.filter_cons]
    cases hstatement : part.statement? with
    | none => exact ih
    | some s =>
      rw [hstatement, Option.elim_some] at hpart
      rw [Option.isSome_some, if_pos rfl, List.map_cons, List.map_cons, ih, hpart]

end CodePart

/-! ## The parts of a file -/

section File
variable {root t : Tree}

theorem isCallable_of_isConstructor (h : isConstructor t) : t.hasKind NodeKind.isCallable := by
  rw [isConstructor, Bool.or_eq_true] at h
  exact h.elim (Tree.hasKind_of_isNode · rfl) (Tree.hasKind_of_isNode · rfl)

/-- The block of an initializer is the initializer itself or a child of it. -/
theorem initializerBlock?_eq_some {b : Tree} (h : initializerBlock? t = some b) :
    b.isNode .block ∧ (b = t ∨ b ∈ t.children) := by
  rw [initializerBlock?] at h
  split at h
  next hblock =>
    obtain rfl : t = b := Option.some.inj h
    exact ⟨hblock, .inl rfl⟩
  next =>
    split at h
    · exact ⟨List.find?_some h, .inr (List.mem_of_find?_eq_some h)⟩
    · cases h

theorem mem_initialValues {v : Tree} (h : v ∈ initialValues t) :
    ∃ d ∈ t.children, d.isNode .variableDeclarator ∧ d.child? .value = some v := by
  obtain ⟨d, hd, hv⟩ := List.mem_filterMap.mp h
  obtain ⟨hd, hdeclarator⟩ := List.mem_filter.mp hd
  exact ⟨d, (List.mem_filter.mp hd).1, hdeclarator, hv⟩

section Parts
variable (hroot : root.Conforms) (hplain : ∀ n ∈ root.nodes, n.declaresAnnotationType = false)
include hroot hplain

theorem Java.Tree.faithful_of_mem (ht : t ∈ root.nodes) : t.Faithful :=
  (hroot.of_mem_nodes ht).faithful fun n hn => hplain n (Tree.mem_nodes_trans hn root ht)

/-- The block in the body of a method or of a constructor is faithful. -/
theorem isFaithful_body {b : Tree} (ht : t ∈ root.nodes) (hk : t.hasKind NodeKind.isCallable)
    (hb : t.child? .body = some b) : (CodePart.block b).IsFaithful := by
  cases t with
  | leaf => cases hk
  | branch k f cs =>
    obtain ⟨hmem, -, j, bs, rfl, hj⟩ := Tree.of_child? ((hroot.of_mem_nodes ht).callable hk) hb
    exact ⟨j, _, bs, rfl, hj, Tree.faithful_of_mem hroot hplain (Tree.mem_nodes_of_child ht hmem)⟩

/-- The parts of a member are faithful. -/
theorem isFaithful_memberParts (ht : t ∈ root.nodes) {part : CodePart}
    (hpart : part ∈ memberParts t) : part.IsFaithful := by
  rcases List.mem_append.mp hpart with hpart | hpart
  · obtain ⟨b, hb, rfl⟩ := List.mem_map.mp hpart
    obtain ⟨hblock, hb⟩ := initializerBlock?_eq_some (Option.mem_toList.mp hb)
    have hmem : b ∈ root.nodes := by
      rcases hb with rfl | hb
      · exact ht
      · exact Tree.mem_nodes_of_child ht hb
    cases b with
    | leaf => cases hblock
    | branch k f bs =>
      obtain rfl : k = .block := eq_of_beq hblock
      exact ⟨_, f, bs, rfl, rfl, Tree.faithful_of_mem hroot hplain hmem⟩
  · obtain ⟨-, rfl⟩ : isFields t ∧ part = .values (initialValues t) := by simpa using hpart
    intro v hv
    obtain ⟨d, hd, hdeclarator, hv⟩ := mem_initialValues hv
    have hd := Tree.mem_nodes_of_child ht hd
    cases d with
    | leaf => cases hdeclarator
    | branch k f cs =>
      obtain rfl : k = .variableDeclarator := eq_of_beq hdeclarator
      obtain ⟨hmem, -, hexpressive⟩ :=
        Tree.of_child? (hroot.of_mem_nodes hd).variableDeclarator hv
      exact ⟨hexpressive, Tree.faithful_of_mem hroot hplain (Tree.mem_nodes_of_child hd hmem)⟩

/-- The parts of a node are faithful. -/
theorem isFaithful_codeParts (ht : t ∈ root.nodes) {part : CodePart}
    (hpart : part ∈ codeParts t) : part.IsFaithful := by
  rcases List.mem_append.mp hpart with hpart | hpart
  · obtain ⟨hconstructor, hpart⟩ := List.mem_ite_nil_right.mp hpart
    obtain ⟨b, hb, rfl⟩ := List.mem_map.mp hpart
    exact isFaithful_body hroot hplain ht (isCallable_of_isConstructor hconstructor)
      (Option.mem_toList.mp hb)
  · obtain ⟨-, hpart⟩ := List.mem_ite_nil_right.mp hpart
    obtain ⟨m, hm, hpart⟩ := List.mem_flatMap.mp hpart
    exact isFaithful_memberParts hroot hplain
      (Tree.mem_nodes_of_child ht (List.mem_filter.mp hm).1) hpart

end Parts

/-- The sites that are analysed, tree by tree: those in the body of each method, and those in each
part that becomes a statement. -/
def Java.Tree.analysedSites (root : Tree) : List (List Site) :=
  ((root.nodes.filter (Tree.isNode .methodDeclaration)).map fun m =>
      (m.child? .body).elim [] Tree.sitesBelow) ++
    ((root.nodes.flatMap codeParts).filter fun part => part.statement?.isSome).map CodePart.sites

/-- **Each tree of a unit** holds the constructs of the sites it has been lowered from. -/
theorem SourceUnit.constructs_trees (n : Nat) (hroot : root.Conforms)
    (hplain : ∀ t ∈ root.nodes, t.declaresAnnotationType = false) :
    (ofTree n root).trees.map Stmt.constructs =
      root.analysedSites.map (List.filterMap Site.construct?) := by
  have hmethods : ∀ m ∈ root.nodes.filter (Tree.isNode .methodDeclaration),
      Stmt.constructs (MethodDecl.ofTree m).statements =
        ((m.child? .body).elim [] Tree.sitesBelow).filterMap Site.construct? := by
    intro m hm
    obtain ⟨hm, hmethod⟩ := List.mem_filter.mp hm
    cases hbody : m.child? .body with
    | none =>
      rw [MethodDecl.statements, MethodDecl.ofTree, hbody]
      rfl
    | some b =>
      have hb : b ∈ root.nodes := Tree.mem_nodes_of_child hm (List.mem_of_find?_eq_some hbody)
      rw [Option.elim_some, Tree.filterMap_sitesBelow 0, Stmt.constructs_eq 0,
        MethodDecl.marksIn_ofTree (hroot.of_mem_nodes hm) hmethod hbody fun n hn =>
          hplain n (Tree.mem_nodes_trans hn root hb)]
  have hparts : ∀ part ∈ root.nodes.flatMap codeParts, part.IsFaithful := by
    intro part hpart
    obtain ⟨t, ht, hpart⟩ := List.mem_flatMap.mp hpart
    exact isFaithful_codeParts hroot hplain ht hpart
  show ((Findings.ofTree root).methods.map MethodDecl.statements ++
    (Findings.ofTree root).otherCode.map fun s => [s]).map Stmt.constructs = _
  rw [Tree.analysedSites, Findings.methods_ofTree, Findings.otherCode_ofTree]
  simp only [List.map_append, List.map_map]
  exact congrArg₂ (· ++ ·) (List.map_congr_left hmethods)
    (CodePart.map_constructs_statements hparts)

end File

end CodeRisk
