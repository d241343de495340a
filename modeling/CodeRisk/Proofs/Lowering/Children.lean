import Mathlib.Data.List.Basic
import CodeRisk.Proofs.Java.Shape
import CodeRisk.Proofs.Lowering.Lists
import CodeRisk.Proofs.Lowering.Site

/-!
# The children of a conforming node

A comment may stand between any two children of a node. Lowering looks past it, in one of two ways:
it chooses children by role or by kind, and no such choice takes a comment (`Skips`), or it goes
over all children, where a comment leaves no marks. So it is enough to know the children without
comments, and these are what the rule of the node yields (`Follows`).
-/
namespace CodeRisk.Java.Tree

@[simp] theorem marks_mark (d : Nat) (p : NodeKind) (l : Lexeme) : (mark l).marks d p = [] :=
  marks_leaf d p _ _ l

@[simp] theorem isSubstantial_mark (l : Lexeme) : (mark l).isSubstantial = false := rfl

@[simp] theorem isBranchInRole_mark (f : Field) (l : Lexeme) : (mark l).isBranchInRole f = false :=
  rfl

/-! ## Children without comments -/

/-- The children of a conforming node: yielded by the rule of its kind, with comments that have no
role, and without annotation types in the place of statements. -/
structure Follows (k : NodeKind) (cs : List Tree) : Prop where
  derived : ∃ r, shapeOf? k = some r ∧ Yields r (withoutComments cs)
  comments : ∀ c ∈ cs, c.isComment → c.field = none
  plain : k.holdsStatements → ∀ c ∈ cs, c.isNode .annotationTypeDeclaration = false

/-- A comment is a single token. -/
theorem eq_leaf_of_isComment {c : Tree} (hc : c.isComment) : ∃ k f l, c = leaf k f l := by
  cases c with
  | leaf k f l => exact ⟨k, f, l, rfl⟩
  | branch => cases hc

/-- A choice of nodes that leaves out all nodes like comments. -/
def Skips (q : Tree → Bool) : Prop :=
  ∀ c, c.isComment → c.field = none → q c = false

namespace Skips
variable (f : Field) (k : NodeKind)

theorem role : Skips fun c => c.field == some f := by
  intro c _ hf
  show (c.field == some f) = false
  rw [hf]
  rfl

theorem node : Skips (isNode k) := by
  intro c hc _
  obtain ⟨j, g, l, rfl⟩ := eq_leaf_of_isComment hc
  rfl

theorem branchInRole : Skips (isBranchInRole f) := by
  intro c hc _
  obtain ⟨j, g, l, rfl⟩ := eq_leaf_of_isComment hc
  rfl

theorem substantial : Skips isSubstantial := by
  intro c hc _
  rw [isSubstantial, hc, Bool.not_true, Bool.and_false]

variable {q : Tree → Bool} {cs : List Tree}

theorem filter_eq (hq : Skips q) (hcomments : ∀ c ∈ cs, c.isComment → c.field = none) :
    cs.filter q = (withoutComments cs).filter q := by
  rw [withoutComments, List.filter_filter]
  refine List.filter_congr fun c hc => ?_
  cases hcomment : c.isComment with
  | true => rw [hq c hcomment (hcomments c hc hcomment), Bool.false_and]
  | false => rw [Bool.not_false, Bool.and_true]

theorem find?_eq (hq : Skips q) (hcomments : ∀ c ∈ cs, c.isComment → c.field = none) :
    cs.find? q = (withoutComments cs).find? q := by
  rw [← List.head?_filter, ← List.head?_filter, hq.filter_eq hcomments]

theorem and {q : Tree → Bool} (hq : Skips q) (r : Tree → Bool) : Skips fun c => q c && r c := by
  intro c hc hf
  show (q c && r c) = false
  rw [hq c hc hf]
  rfl

theorem or {q r : Tree → Bool} (hq : Skips q) (hr : Skips r) : Skips fun c => q c || r c := by
  intro c hc hf
  show (q c || r c) = false
  rw [hq c hc hf, hr c hc hf]
  rfl

end Skips

namespace Follows
variable {k : NodeKind} {cs : List Tree} {q : Tree → Bool}

theorem filter (h : Follows k cs) (hq : Skips q) :
    cs.filter q = (withoutComments cs).filter q :=
  hq.filter_eq h.comments

theorem find? (h : Follows k cs) (hq : Skips q) :
    cs.find? q = (withoutComments cs).find? q :=
  hq.find?_eq h.comments

end Follows

/-- Comments can be left out where leaves add nothing. -/
theorem flatMap_withoutComments {α : Type} (cs : List Tree) {g : Tree → List α}
    (hg : ∀ k f l, g (leaf k f l) = []) : cs.flatMap g = (withoutComments cs).flatMap g := by
  induction cs with
  | nil => rfl
  | cons c cs ih =>
    rw [withoutComments, List.filter_cons, List.flatMap_cons, ih]
    cases c with
    | leaf k f l =>
      rw [hg]
      split
      · rw [List.flatMap_cons, hg]
        rfl
      · rfl
    | branch k f ds => rfl

theorem flatMap_marks (cs : List Tree) (d : Nat) (p : NodeKind) :
    cs.flatMap (marks d p) = (withoutComments cs).flatMap (marks d p) :=
  flatMap_withoutComments cs (marks_leaf d p)

/-! ## Chosen children -/

/-- What chosen items leave is what all items leave, if all others leave nothing. -/
theorem flatMap_filter_eq {α β : Type} {xs : List α} {q : α → Bool} {g h : α → List β}
    (hin : ∀ x ∈ xs, q x → g x = h x) (hout : ∀ x ∈ xs, q x = false → h x = []) :
    (xs.filter q).flatMap g = xs.flatMap h := by
  induction xs with
  | nil => rfl
  | cons x xs ih =>
    have ih := ih (fun y hy => hin y (List.mem_cons_of_mem x hy))
      fun y hy => hout y (List.mem_cons_of_mem x hy)
    rw [List.filter_cons, List.flatMap_cons, ← ih]
    cases hq : q x with
    | true =>
      rw [if_pos rfl, List.flatMap_cons, hin x (List.mem_cons_self ..) hq]
    | false =>
      rw [hout x (List.mem_cons_self ..) hq, if_neg Bool.false_ne_true]
      rfl

section Choices
variable {k : NodeKind} {f : Option Field} {cs : List Tree} {d : Nat} {p : NodeKind}

theorem mem_of_withoutComments_eq {ts : List Tree} {c : Tree} (hcs : withoutComments cs = ts)
    (hc : c ∈ ts) : c ∈ cs :=
  (List.mem_filter.mp (hcs ▸ hc)).1

theorem branch_mem_withoutComments {ds : List Tree} (h : branch k f cs ∈ ds) :
    branch k f cs ∈ withoutComments ds :=
  List.mem_filter.mpr ⟨h, rfl⟩

theorem marks_of_isNamed_eq_false {c : Tree} (h : c.isNamed = false) : c.marks d p = [] := by
  cases c with
  | leaf j g l => exact marks_leaf d p j g l
  | branch j g ds => cases h

theorem marks_of_not_isSubstantial {c : Tree} (h : c.isSubstantial = false) :
    c.marks d p = [] := by
  cases c with
  | leaf j g l => exact marks_leaf d p j g l
  | branch j g ds => cases h

end Choices

end CodeRisk.Java.Tree
