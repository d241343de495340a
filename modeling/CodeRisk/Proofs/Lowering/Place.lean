import CodeRisk.Proofs.Lowering.Part
import Mathlib.Data.List.Perm.Basic

/-!
# Code and what surrounds it

Parts begin at many nodes of a file, one inside the other: the body of a method holds a class, the
class has fields and methods of its own. Whether a node is in a part is nevertheless clear on the
way down from the root, from the place where the node above it stands (`CodePlace`). Code begins at
a body, at the block of an initializer or at an initial value. It ends at a node that is apart, and
below that node it may begin again.

So the marked sites in code, gathered in one walk (`Java.Tree.codeSites`), are those of all parts:
no part reaches into another one and none is left out (`Java.Tree.codeSites_perm`).
-/
namespace CodeRisk
open Java (Tree Site NodeKind Field)

/-! ## Kinds of nodes in code -/

namespace Java

namespace NodeKind

/-- Whether the node is a body whose members can be initializers and fields. -/
def holdsMembers : NodeKind → Bool
  | classBody | interfaceBody | enumBodyDeclarations => true
  | _ => false

/-- Whether the node can stand in code. Unless it is apart, no part begins at it. -/
def isInert : NodeKind → Bool
  | error | program | methodDeclaration | constructorDeclaration | compactConstructorDeclaration
  | interfaceBody | enumBody | enumBodyDeclarations => false
  | _ => true

theorem isInert_of_isExpressive {k : NodeKind} (h : k.isExpressive) : k.isInert := by
  cases k <;> first | rfl | cases h

theorem isInert_of_isBlock {k : NodeKind} (h : k.isBlock) : k.isInert := by
  cases k <;> first | rfl | cases h

end NodeKind

namespace Bounds

/-- What can come up below a node in code. -/
def inert : Bounds where
  phrase
    | .node k => k.isInert
    | .topLevel | .classMembers | .interfaceMembers => false
    | _ => true
  role _ := true

theorem inert_closed : inert.Closed := by decide +kernel

theorem inert_admits : ∀ x ∈ grammar.rules,
    x.1.hasKind (fun k => k.isInert && (!k.isApart || k == .switchLabel)) → inert.admits x.2 := by
  decide +kernel

end Bounds

/-! ## Places -/

/-- Where a node stands with respect to code. -/
inductive CodePlace where
  /-- Outside all code. -/
  | outside
  /-- A declaration of fields that is the member of a body. -/
  | fields
  /-- The declaration of one of these fields. -/
  | declarator
  /-- A static initializer. -/
  | initializer
  /-- In code. -/
  | code
  deriving DecidableEq

namespace CodePlace

def isCode : CodePlace → Bool
  | code => true
  | _ => false

/-- The place of a member of a body. -/
def ofMember (t : Tree) : CodePlace :=
  if t.isNode .block then code
  else if t.isNode .staticInitializer then initializer
  else if isFields t then fields
  else outside

/-- The place of a node that is not apart, from the place of the node above it. -/
def below (m : CodePlace) (s : Site) : CodePlace :=
  match m with
  | code => code
  | initializer => if s.tree.isNode .block then code else outside
  | fields => if s.tree.isNode .variableDeclarator then declarator else outside
  | declarator => if s.tree.field == some .value then code else outside
  | outside =>
    if s.parent.isCallable then if s.tree.field == some .body then code else outside
    else if s.parent.holdsMembers then ofMember s.tree
    else outside

/-- The place of a node from the place of the node above it. Code ends at nodes that are apart. -/
def next (m : CodePlace) (s : Site) : CodePlace :=
  if s.isApart then outside else m.below s

theorem next_of_isApart {m : CodePlace} {s : Site} (h : s.isApart) : m.next s = outside :=
  if_pos h

theorem next_of_not_isApart {m : CodePlace} {s : Site} (h : s.isApart = false) :
    m.next s = m.below s :=
  if_neg (by rw [h]; exact Bool.false_ne_true)

/-- Whether the node can stand in the place. -/
def Admits : CodePlace → Site → Prop
  | outside, _ => True
  | fields, s => isFields s.tree
  | declarator, s => s.tree.isNode .variableDeclarator
  | initializer, s => s.tree.isNode .staticInitializer
  | code, s => s.tree.fits NodeKind.isInert ∧ s.isApart = false

end CodePlace

/-! ## Walks -/

namespace Tree

section Walk
variable {α : Type} (next : α → Site → α) (shows : α → Bool)

mutual

/-- The marked sites at and below a tree in the order of the text, as far as they are shown. The
walk carries a state from each node to its children, and the state says whether a site is shown. -/
def visibleSites (a : α) (p : NodeKind) : Tree → List Site
  | leaf .. => []
  | t@(branch k _ cs) =>
    (if shows a then [Site.mk p t].filter Site.isMarked else []) ++ forestVisibleSites a k cs

/-- The visible sites at and below the children of a node of kind `k`. -/
def forestVisibleSites (a : α) (k : NodeKind) : List Tree → List Site
  | [] => []
  | c :: cs => c.visibleSites (next a ⟨k, c⟩) k ++ forestVisibleSites a k cs

end

variable {next shows} {a : α} {p k : NodeKind} {f : Option Field} {cs : List Tree}

theorem visibleSites_branch :
    (branch k f cs).visibleSites next shows a p =
      (if shows a then [Site.mk p (branch k f cs)].filter Site.isMarked else []) ++
        cs.flatMap fun c => c.visibleSites next shows (next a ⟨k, c⟩) k := by
  rw [visibleSites]
  congr 1
  induction cs with
  | nil => rfl
  | cons c cs ih => rw [forestVisibleSites, ih, List.flatMap_cons]

end Walk

/-- The marked sites that are in code. -/
def codeSites (m : CodePlace) (p : NodeKind) (t : Tree) : List Site :=
  t.visibleSites CodePlace.next CodePlace.isCode m p

variable {m : CodePlace} {p k : NodeKind} {f : Option Field} {cs : List Tree}

theorem codeSites_branch :
    (branch k f cs).codeSites m p =
      (if m.isCode then [Site.mk p (branch k f cs)].filter Site.isMarked else []) ++
        cs.flatMap fun c => c.codeSites (m.next ⟨k, c⟩) k :=
  visibleSites_branch

/-! ## Where parts begin -/

/-- The sites of the parts that begin at a node because of the place where the node stands. -/
def ahead (m : CodePlace) (p : NodeKind) (t : Tree) : List Site :=
  match m with
  | .outside => []
  | .fields => (CodePart.values (initialValues t)).sites
  | .declarator => (t.child? .value).elim [] (sites .variableDeclarator)
  | .initializer => (t.childOfKind? .block).elim [] sitesBelow
  | .code => t.sites p

/-- The sites of the parts that a node brings in by itself. -/
def ownSites (t : Tree) : List Site :=
  (if t.isNode .methodDeclaration then (t.child? .body).elim [] sitesBelow else []) ++
    (codeParts t).flatMap CodePart.sites

theorem ownSites_branch :
    (branch k f cs).ownSites =
      if k.isCallable then ((branch k f cs).child? .body).elim [] sitesBelow
      else if k.holdsMembers then
        (cs.filter isNamed).flatMap fun c => (memberParts c).flatMap CodePart.sites
      else [] := by
  have hbody (o : Option Tree) : (o.toList.map .block).flatMap CodePart.sites =
      o.elim [] sitesBelow := by
    cases o with
    | none => rfl
    | some b => exact List.append_nil _
  cases k with
  | methodDeclaration => exact List.append_nil _
  | constructorDeclaration | compactConstructorDeclaration =>
    exact (congrArg (List.flatMap _) (List.append_nil _)).trans (hbody _)
  | classBody | interfaceBody | enumBodyDeclarations => exact List.flatMap_assoc
  | _ => rfl

/-! ## One node -/

/-- A block is not apart where no roles put nodes aside. -/
theorem isApart_of_isBlock (hp : p.hasAside = false) (hk : k.isBlock) :
    Site.isApart ⟨p, branch k f cs⟩ = false := by
  have hkind : k.isApart = false := by
    cases k <;> first | rfl | cases hk
  rw [Site.isApart, hasKind, hkind, Site.isAside_eq_false hp, Bool.or_false]

/-- A block is not marked itself. -/
theorem sites_of_isBlock (hp : p.hasAside = false) (hk : k.isBlock) :
    (branch k f cs).sites p = (branch k f cs).sitesBelow := by
  have hconstruct : Site.construct? ⟨p, branch k f cs⟩ = none := by
    cases k <;> first | rfl | cases hk
  rw [sites_of_not_isApart (isApart_of_isBlock hp hk), List.filter_cons, Site.isMarked, hconstruct]
  rfl

theorem filter_isNode_eq (k : NodeKind) (cs : List Tree) :
    cs.filter (isNode k) = (withoutComments cs).filter (isNode k) := by
  rw [withoutComments, List.filter_filter]
  refine List.filter_congr fun c _ => ?_
  cases c with
  | leaf => rfl
  | branch => exact (Bool.and_true _).symm

/-- What the only chosen tree of a list yields. -/
theorem flatMap_ite_of_one {α : Type} {q : Tree → Bool} (h : (cs.filter q).length ≤ 1)
    (g : Tree → List α) : (cs.flatMap fun c => if q c then g c else []) =
      (cs.find? q).elim [] g := by
  have hall : (cs.flatMap fun c => if q c then g c else []) = (cs.filter q).flatMap g := by
    clear h
    induction cs with
    | nil => rfl
    | cons c cs ih =>
      rw [List.flatMap_cons, ih, List.filter_cons]
      split <;> rfl
  rw [hall, ← List.head?_filter]
  match cs.filter q, h with
  | [], _ => rfl
  | [c], _ => exact List.flatMap_singleton ..
  | c :: d :: rest, h => exact absurd h (by simp)

/-- A method or a constructor: code begins at its body. -/
theorem flatMap_ahead_callable (h : (branch k f cs).Conforms) (hk : k.isCallable) :
    (cs.flatMap fun c => c.ahead (CodePlace.outside.next ⟨k, c⟩) k) = (branch k f cs).ownSites := by
  have hheaded := h.callable hk
  have haside : k.hasAside = false := by
    cases k <;> first | rfl | cases hk
  rw [ownSites_branch, if_pos hk]
  refine (List.flatMap_congr fun c hc => ?_).trans (flatMap_ite_of_one hheaded.one sitesBelow)
  by_cases hrole : c.field = some .body
  · obtain ⟨j, bs, rfl, hj⟩ := hheaded.role c hc hrole
    rw [CodePlace.next_of_not_isApart (isApart_of_isBlock haside hj), CodePlace.below, if_pos hk]
    exact sites_of_isBlock haside hj
  · rw [if_neg (by simpa using hrole)]
    cases hapart : Site.isApart ⟨k, c⟩ with
    | true => rw [CodePlace.next_of_isApart hapart]; rfl
    | false =>
      rw [CodePlace.next_of_not_isApart hapart, CodePlace.below, if_pos hk,
        if_neg (by simpa using hrole)]
      rfl

/-- A node that is apart, and not because of its role, is of one of few kinds. -/
theorem isNode_eq_false_of_isApart {j : NodeKind} {c : Tree} (hk : k.hasAside = false)
    (h : Site.isApart ⟨k, c⟩) (hj : j.isApart = false) : c.isNode j = false := by
  rw [Site.isApart, Site.isAside_eq_false hk, Bool.or_false] at h
  cases c with
  | leaf => rfl
  | branch i g ds =>
    refine beq_false_of_ne ?_
    rintro rfl
    exact Bool.false_ne_true (hj.symm.trans h)

/-- A member that is apart is neither an initializer nor a declaration of fields. -/
theorem next_member (c : Tree) (hk : k.holdsMembers) :
    CodePlace.outside.next ⟨k, c⟩ = CodePlace.ofMember c := by
  have hkind : k.isCallable = false ∧ k.hasAside = false := by
    cases k <;> first | exact ⟨rfl, rfl⟩ | cases hk
  have hbelow : CodePlace.outside.below ⟨k, c⟩ = CodePlace.ofMember c := by
    rw [CodePlace.below, if_neg (by rw [hkind.1]; exact Bool.false_ne_true), if_pos hk]
  cases hapart : Site.isApart ⟨k, c⟩ with
  | true =>
    have hne {j : NodeKind} (hj : j.isApart = false) : c.isNode j = false :=
      isNode_eq_false_of_isApart hkind.2 hapart hj
    rw [CodePlace.next_of_isApart hapart, CodePlace.ofMember, isFields, hne rfl, hne rfl, hne rfl,
      hne rfl]
    rfl
  | false => rw [CodePlace.next_of_not_isApart hapart, hbelow]

/-- The parts of a member begin at its place. -/
theorem ahead_ofMember (c : Tree) (hk : k.holdsMembers) :
    c.ahead (CodePlace.ofMember c) k = (memberParts c).flatMap CodePart.sites := by
  cases c with
  | leaf => rfl
  | branch j g ds =>
    cases j with
    | block =>
      have haside : k.hasAside = false := by
        cases k <;> first | rfl | cases hk
      exact (sites_of_isBlock haside rfl).trans (List.append_nil _).symm
    | staticInitializer =>
      show ((branch .staticInitializer g ds).childOfKind? .block).elim [] sitesBelow =
        (((branch .staticInitializer g ds).childOfKind? .block).toList.map CodePart.block ++
          []).flatMap CodePart.sites
      cases (branch .staticInitializer g ds).childOfKind? .block with
      | none => rfl
      | some b => exact (List.append_nil _).symm
    | fieldDeclaration | constantDeclaration => exact (List.append_nil _).symm
    | _ => rfl

/-- A body with members: code begins at some of them or below. -/
theorem flatMap_ahead_members (hk : k.holdsMembers) :
    (cs.flatMap fun c => c.ahead (CodePlace.outside.next ⟨k, c⟩) k) = (branch k f cs).ownSites := by
  have hcallable : k.isCallable = false := by
    cases k <;> first | rfl | cases hk
  rw [ownSites_branch, if_neg (by rw [hcallable]; exact Bool.false_ne_true), if_pos hk]
  induction cs with
  | nil => rfl
  | cons c cs ih =>
    rw [List.flatMap_cons, ih, next_member c hk, ahead_ofMember c hk, List.filter_cons]
    cases hnamed : c.isNamed with
    | true => rfl
    | false =>
      -- only keywords and brackets have no name, and no part begins there
      cases c with
      | leaf => rfl
      | branch => cases hnamed

theorem initialValues_branch : initialValues (branch k f cs) =
    cs.flatMap fun c => if c.isNode .variableDeclarator then (c.child? .value).toList else [] := by
  show ((cs.filter isNamed).filter (isNode .variableDeclarator)).filterMap
    (fun d => d.child? .value) = _
  induction cs with
  | nil => rfl
  | cons c cs ih =>
    rw [List.flatMap_cons, ← ih, List.filter_cons]
    cases c with
    | leaf j g l => split <;> rfl
    | branch j g ds =>
      rw [if_pos (show (branch j g ds).isNamed from rfl), List.filter_cons]
      split
      · rw [List.filterMap_cons]
        cases (branch j g ds).child? .value <;> rfl
      · rfl

/-- The declaration of some fields: code begins below each of them. -/
theorem flatMap_ahead_fields (hk : isFields (branch k f cs)) :
    (cs.flatMap fun c => c.ahead (CodePlace.fields.next ⟨k, c⟩) k) =
      (branch k f cs).ahead .fields p := by
  have haside : k.hasAside = false := by
    cases k <;> first | rfl | cases hk
  show _ = (initialValues (branch k f cs)).flatMap (sites .variableDeclarator)
  rw [initialValues_branch, List.flatMap_assoc]
  refine List.flatMap_congr fun c _ => ?_
  have hnext : CodePlace.fields.next ⟨k, c⟩ =
      if c.isNode .variableDeclarator then .declarator else .outside := by
    cases hapart : Site.isApart ⟨k, c⟩ with
    | true =>
      rw [CodePlace.next_of_isApart hapart, isNode_eq_false_of_isApart haside hapart rfl]
      rfl
    | false => rw [CodePlace.next_of_not_isApart hapart]; rfl
  rw [hnext]
  split
  · show (c.child? .value).elim [] (sites .variableDeclarator) = _
    cases c.child? .value with
    | none => rfl
    | some v => exact (List.append_nil _).symm
  · rfl

/-- The declaration of one field: code begins at its value. -/
theorem flatMap_ahead_declarator (h : (branch .variableDeclarator f cs).Conforms) :
    (cs.flatMap fun c => c.ahead (CodePlace.declarator.next ⟨.variableDeclarator, c⟩)
      .variableDeclarator) = (branch .variableDeclarator f cs).ahead .declarator p := by
  have hheaded := h.variableDeclarator
  refine (List.flatMap_congr fun c hc => ?_).trans
    (flatMap_ite_of_one hheaded.one (sites .variableDeclarator))
  cases hapart : Site.isApart ⟨.variableDeclarator, c⟩ with
  | true =>
    rw [CodePlace.next_of_isApart hapart, sites_of_isApart hapart]
    split <;> rfl
  | false =>
    rw [CodePlace.next_of_not_isApart hapart, CodePlace.below]
    dsimp only
    split <;> rfl

/-- A static initializer: code begins at its block. -/
theorem flatMap_ahead_initializer (h : (branch .staticInitializer f cs).Conforms) :
    (cs.flatMap fun c => c.ahead (CodePlace.initializer.next ⟨.staticInitializer, c⟩)
      .staticInitializer) = (branch .staticInitializer f cs).ahead .initializer p := by
  have hone : (cs.filter (isNode .block)).length ≤ 1 := by
    cases h with
    | branch hr hyields hcomments _ =>
      obtain ⟨l, bs, hcs⟩ := hyields.staticInitializer hr
      rw [filter_isNode_eq, hcs]
      exact Nat.le_refl 1
  refine (List.flatMap_congr fun c _ => ?_).trans (flatMap_ite_of_one hone sitesBelow)
  cases c with
  | leaf => rfl
  | branch j g ds =>
    cases j with
    | block => exact sites_of_isBlock rfl rfl
    | _ => rfl

/-- A node in code. -/
theorem flatMap_ahead_code :
    (cs.flatMap fun c => c.ahead (CodePlace.code.next ⟨k, c⟩) k) = (branch k f cs).sitesBelow := by
  rw [sitesBelow_branch]
  refine List.flatMap_congr fun c _ => ?_
  cases hapart : Site.isApart ⟨k, c⟩ with
  | true =>
    rw [CodePlace.next_of_isApart hapart, sites_of_isApart hapart]
    rfl
  | false =>
    rw [CodePlace.next_of_not_isApart hapart]
    rfl

theorem ownSites_eq_nil (hk : k.isInert) (hapart : k.isApart = false) :
    (branch k f cs).ownSites = [] := by
  have hkind : k.isCallable = false ∧ k.holdsMembers = false := by
    cases k with
    | classBody => cases hapart
    | _ => first | exact ⟨rfl, rfl⟩ | cases hk
  rw [ownSites_branch, hkind.1, hkind.2]
  rfl

theorem isApart_kind (h : Site.isApart ⟨p, branch k f cs⟩ = false) : k.isApart = false :=
  (Bool.or_eq_false_iff.mp h).1

/-- What a node brings in by itself and what begins at it is at the node or begins at its
children. -/
theorem ownSites_append_ahead (h : (branch k f cs).Conforms) (hm : m.Admits ⟨p, branch k f cs⟩) :
    (branch k f cs).ownSites ++ (branch k f cs).ahead m p =
      (if m.isCode then [Site.mk p (branch k f cs)].filter Site.isMarked else []) ++
        cs.flatMap fun c => c.ahead (m.next ⟨k, c⟩) k := by
  cases m with
  | outside =>
    refine (List.append_nil _).trans (Eq.symm ?_)
    show (cs.flatMap fun c => c.ahead (CodePlace.outside.next ⟨k, c⟩) k) = _
    by_cases hcallable : k.isCallable
    · exact flatMap_ahead_callable h hcallable
    by_cases hmembers : k.holdsMembers
    · exact flatMap_ahead_members hmembers
    rw [ownSites_branch, if_neg hcallable, if_neg hmembers, List.flatMap_eq_nil_iff]
    intro c _
    have hnext : CodePlace.outside.next ⟨k, c⟩ = .outside := by
      rw [CodePlace.next, CodePlace.below, if_neg hcallable, if_neg hmembers, ite_self]
    rw [hnext]
    rfl
  | fields =>
    have hkind : k.isInert ∧ k.isApart = false := by
      cases k <;> first | exact ⟨rfl, rfl⟩ | cases hm
    rw [ownSites_eq_nil hkind.1 hkind.2]
    exact (flatMap_ahead_fields (p := p) hm).symm
  | declarator =>
    obtain rfl : k = .variableDeclarator := eq_of_beq hm
    exact (flatMap_ahead_declarator (p := p) h).symm
  | initializer =>
    obtain rfl : k = .staticInitializer := eq_of_beq hm
    exact (flatMap_ahead_initializer (p := p) h).symm
  | code =>
    rw [ownSites_eq_nil hm.1 (isApart_kind hm.2), flatMap_ahead_code (f := f)]
    exact sites_of_not_isApart hm.2

/-- What begins at some nodes and not at others is in place if it is where it begins. -/
theorem admits_ite {b : Bool} {s : Site} (h : b → m.Admits s) :
    (if b then m else .outside).Admits s := by
  cases b with
  | true => exact h rfl
  | false => trivial

theorem fits_isInert_of_block {t : Tree} (h : t.isNode .block) : t.fits NodeKind.isInert := by
  cases t with
  | leaf => rfl
  | branch j g ds =>
    obtain rfl : j = .block := eq_of_beq h
    rfl

/-- A member of a body can stand in its place. -/
theorem admits_ofMember {c : Tree} (hapart : Site.isApart ⟨k, c⟩ = false) :
    (CodePlace.ofMember c).Admits ⟨k, c⟩ := by
  rw [CodePlace.ofMember]
  split
  next hblock => exact ⟨fits_isInert_of_block hblock, hapart⟩
  split
  next hinitializer => exact hinitializer
  · exact admits_ite id

/-- A child can stand in its place, if the node above it can stand in its own. -/
theorem admits_next (h : (branch k f cs).Conforms) (hm : m.Admits ⟨p, branch k f cs⟩) {c : Tree}
    (hc : c ∈ cs) : (m.next ⟨k, c⟩).Admits ⟨k, c⟩ := by
  cases hapart : Site.isApart ⟨k, c⟩ with
  | true =>
    rw [CodePlace.next_of_isApart hapart]
    trivial
  | false =>
    rw [CodePlace.next_of_not_isApart hapart]
    cases m with
    | outside =>
      rw [CodePlace.below]
      split
      next hcallable =>
        refine admits_ite fun hrole => ?_
        obtain ⟨j, bs, rfl, hj⟩ := (h.callable hcallable).role c hc (eq_of_beq hrole)
        exact ⟨NodeKind.isInert_of_isBlock hj, hapart⟩
      · exact admits_ite fun _ => admits_ofMember hapart
    | fields => exact admits_ite id
    | declarator =>
      refine admits_ite fun hrole => ⟨?_, hapart⟩
      obtain rfl : k = .variableDeclarator := eq_of_beq hm
      have hexpressive := h.variableDeclarator.role c hc (eq_of_beq hrole)
      cases c with
      | leaf => rfl
      | branch j g ds => exact NodeKind.isInert_of_isExpressive hexpressive
    | initializer => exact admits_ite fun hblock => ⟨fits_isInert_of_block hblock, hapart⟩
    | code =>
      refine ⟨h.within Bounds.inert_closed Bounds.inert_admits ?_ ?_ c hc, hapart⟩
      · have hinert : k.isInert := hm.1
        rw [hinert, isApart_kind hm.2]
        rfl
      · rintro rfl
        exact nomatch hm.1

/-! ## All nodes -/

/-- **Code falls into parts**: the marked sites in code at and below a node are those of the parts
that begin at it and of those that the nodes from there on downwards bring in. -/
theorem codeSites_perm {t : Tree} (h : t.Conforms) (m : CodePlace) (p : NodeKind)
    (hm : m.Admits ⟨p, t⟩) :
    (t.codeSites m p).Perm (t.ahead m p ++ t.nodes.flatMap ownSites) := by
  induction h generalizing m p with
  | @leaf k f l h =>
    cases m with
    | code =>
      show [].Perm ((leaf k f l).sites p ++ [])
      rw [sites_leaf]
      exact .refl _
    | _ => exact .refl _
  | @branch k f cs r hr hyields hcomments hcs ih =>
    have h : (branch k f cs).Conforms := .branch hr hyields hcomments hcs
    rw [codeSites_branch, nodes_branch, List.flatMap_cons, List.flatMap_assoc]
    have hchildren : (cs.flatMap fun c => c.codeSites (m.next ⟨k, c⟩) k).Perm
        ((cs.flatMap fun c => c.ahead (m.next ⟨k, c⟩) k) ++
          cs.flatMap fun c => c.nodes.flatMap ownSites) :=
      (List.Perm.flatMap_left cs fun c hc => ih c hc _ _ (admits_next h hm hc)).trans
        (List.flatMap_append_perm ..).symm
    refine (hchildren.append_left _).trans ?_
    rw [← List.append_assoc, ← ownSites_append_ahead h hm, ← List.append_assoc]
    exact List.perm_append_comm.append_right _

/-- **All parts together** hold the marked sites in the code of a file, each of them once. -/
theorem analysedSites_perm {root : Tree} (hroot : root.Conforms)
    (hplain : ∀ t ∈ root.nodes, t.declaresAnnotationType = false) :
    root.analysedSites.flatten.Perm (root.codeSites .outside .program) := by
  have hmethods : ((root.nodes.filter (isNode .methodDeclaration)).flatMap fun m =>
      (m.child? .body).elim [] sitesBelow) =
      root.nodes.flatMap fun t =>
        if t.isNode .methodDeclaration then (t.child? .body).elim [] sitesBelow else [] :=
    flatMap_filter_eq (fun t _ ht => (if_pos ht).symm) fun t _ ht => by rw [ht]; rfl
  have hparts : ((root.nodes.flatMap codeParts).filter fun part => part.statement?.isSome).flatMap
      CodePart.sites = (root.nodes.flatMap codeParts).flatMap CodePart.sites := by
    refine flatMap_filter_eq (fun _ _ _ => rfl) fun part hpart hstatement => ?_
    obtain ⟨t, ht, hpart⟩ := List.mem_flatMap.mp hpart
    exact CodePart.sites_eq_nil (isFaithful_codeParts hroot hplain ht hpart)
      (Option.isSome_eq_false_iff.mp hstatement |> Option.isNone_iff_eq_none.mp)
  rw [analysedSites, List.flatten_append, ← List.flatMap_def, ← List.flatMap_def, hmethods, hparts,
    List.flatMap_assoc]
  exact (List.flatMap_append_perm ..).trans (codeSites_perm hroot .outside .program trivial).symm

end Tree

end Java

end CodeRisk
