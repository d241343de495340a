import CodeRisk.Proofs.Java.Conform
import Mathlib.Algebra.Ring.Nat

/-!
# Where the nodes of a tree stand

A token notes the row on which it starts. In a tree that is laid out in a text (`Tree.IsLaidOut`)
the tokens are found in the text one after the other, each with as many line breaks before it as its
row says, and a declaration ends in a character that is no line break. The rows that a node covers
are then in order: no node leaves the rows of the nodes above it (`Tree.rows_of_mem_nodes`), and the
nodes of a tree start in the order in which they are listed (`Tree.pairwise_startRow_nodes`).
-/
namespace CodeRisk.Java

namespace Lexeme

/-! ## Tokens in a text -/

/-- The tokens stand in the text `cs` one after the other, with anything between them. `r` is the
row on which the text begins, and the row of each token counts the line breaks before it. -/
inductive StandIn : List Char → Nat → List Lexeme → Prop where
  | nil (cs : List Char) (r : Nat) : StandIn cs r []
  | cons {gap rest : List Char} {r : Nat} {l : Lexeme} {ls : List Lexeme}
      (hrow : l.row = r + gap.count '\n') (hrest : StandIn rest l.endRow ls) :
      StandIn (gap ++ (l.text.toList ++ rest)) r (l :: ls)

/-- Each token ends before or on the row on which a later one starts. -/
def InOrder (ls : List Lexeme) : Prop :=
  ls.Pairwise fun a b => a.endRow ≤ b.row

theorem row_le_endRow (l : Lexeme) : l.row ≤ l.endRow :=
  Nat.le_add_right ..

namespace StandIn
variable {cs : List Char} {r : Nat} {l : Lexeme} {ls : List Lexeme}

/-- Text behind the last token changes nothing. -/
theorem append_text (h : StandIn cs r ls) (more : List Char) : StandIn (cs ++ more) r ls := by
  induction h with
  | nil cs r => exact .nil ..
  | cons hrow hrest ih =>
    rw [List.append_assoc, List.append_assoc]
    exact .cons hrow ih

/-- One more token at the end of the text. -/
theorem concat {gap : List Char} (h : StandIn cs r ls)
    (hrow : l.row = r + (cs ++ gap).count '\n') :
    StandIn (cs ++ gap ++ l.text.toList) r (ls ++ [l]) := by
  induction h with
  | nil cs r =>
    rw [← List.append_nil l.text.toList]
    exact .cons hrow (.nil ..)
  | @cons before rest r first ls hfirst hrest ih =>
    have hrow' : l.row = first.endRow + (rest ++ gap).count '\n' := by
      rw [hrow, endRow, breaks, hfirst]
      simp only [List.count_append]
      omega
    have htext : before ++ (first.text.toList ++ rest) ++ gap ++ l.text.toList =
        before ++ (first.text.toList ++ (rest ++ gap ++ l.text.toList)) := by
      simp only [List.append_assoc]
    rw [htext]
    exact .cons hfirst (ih hrow')

/-- **The row of a token is the number of line breaks before it.** -/
theorem exists_split (h : StandIn cs r ls) (hl : l ∈ ls) :
    ∃ before after, cs = before ++ (l.text.toList ++ after) ∧ l.row = r + before.count '\n' := by
  induction h with
  | nil cs r => cases hl
  | @cons gap rest r first ls hrow hrest ih =>
    rcases List.mem_cons.mp hl with rfl | hl
    · exact ⟨gap, rest, rfl, hrow⟩
    · obtain ⟨before, after, rfl, hbefore⟩ := ih hl
      refine ⟨gap ++ first.text.toList ++ before, after, by simp only [List.append_assoc], ?_⟩
      rw [hbefore, endRow, breaks, hrow]
      simp only [List.count_append]
      omega

/-- The tokens are not longer than the text. -/
theorem sum_length_le (h : StandIn cs r ls) : (ls.map fun l => l.text.length).sum ≤ cs.length := by
  induction h with
  | nil cs r => exact Nat.zero_le _
  | @cons gap rest r first ls hrow hrest ih =>
    rw [List.map_cons, List.sum_cons, List.length_append, List.length_append, String.length_toList]
    omega

/-- Tokens that stand in a text are in order. -/
theorem inOrder (h : StandIn cs r ls) : InOrder ls := by
  induction h with
  | nil cs r => exact .nil
  | cons hrow hrest ih =>
    refine .cons (fun l hl => ?_) ih
    obtain ⟨before, after, -, hbefore⟩ := hrest.exists_split hl
    omega

end StandIn

/-- Whether the tokens, each with the blank text before it, are the beginning of the text. -/
def areWritten : List Char → Nat → List Lexeme → Bool
  | _, _, [] => true
  | cs, r, l :: ls =>
    (l.blank.toList ++ l.text.toList).isPrefixOf cs && l.row == r + breaks l.blank &&
      areWritten (cs.drop (l.blank.toList ++ l.text.toList).length) l.endRow ls

/-- Between two tokens there may be just the blank text. -/
theorem standIn_of_areWritten {cs : List Char} {r : Nat} {ls : List Lexeme}
    (h : areWritten cs r ls) : StandIn cs r ls := by
  induction ls generalizing cs r with
  | nil => exact .nil ..
  | cons l ls ih =>
    simp only [areWritten, Bool.and_eq_true, List.isPrefixOf_iff_prefix, beq_iff_eq] at h
    obtain ⟨⟨⟨rest, rfl⟩, hrow⟩, hrest⟩ := h
    rw [List.drop_left] at hrest
    rw [List.append_assoc]
    exact .cons hrow (ih hrest)

end Lexeme

namespace Tree
open Lexeme (InOrder)

/-! ## Tokens of nodes -/

theorem forestLeaves_eq (ts : List Tree) : forestLeaves ts = ts.flatMap leaves := by
  induction ts with
  | nil => rfl
  | cons t ts ih => rw [forestLeaves, ih, List.flatMap_cons]

theorem forestLeaves_append (ts us : List Tree) :
    forestLeaves (ts ++ us) = forestLeaves ts ++ forestLeaves us := by
  simp only [forestLeaves_eq, List.flatMap_append]

theorem forestNodes_append (ts us : List Tree) :
    forestNodes (ts ++ us) = forestNodes ts ++ forestNodes us := by
  simp only [forestNodes_eq, List.flatMap_append]

theorem leaves_branch (k : NodeKind) (f : Option Field) (cs : List Tree) :
    (branch k f cs).leaves = forestLeaves cs := by
  rw [leaves]

mutual

/-- The tokens of a node stand together among those of the tree. -/
theorem leaves_infix_of_mem_nodes {n : Tree} : (t : Tree) → n ∈ t.nodes → n.leaves <:+: t.leaves
  | .leaf .., hn => by
    rw [nodes, List.mem_singleton] at hn
    exact hn ▸ List.infix_rfl
  | .branch k f cs, hn => by
    rw [nodes] at hn
    rcases List.mem_cons.mp hn with rfl | hn
    · exact List.infix_rfl
    · rw [leaves]
      exact leaves_infix_of_mem_forestNodes cs hn

/-- The tokens of a node stand together among those of the trees above it. -/
theorem leaves_infix_of_mem_forestNodes {n : Tree} :
    (ts : List Tree) → n ∈ forestNodes ts → n.leaves <:+: forestLeaves ts
  | [], hn => absurd hn List.not_mem_nil
  | t :: ts, hn => by
    rw [forestNodes] at hn
    rw [forestLeaves]
    rcases List.mem_append.mp hn with hn | hn
    · exact (leaves_infix_of_mem_nodes t hn).trans (List.prefix_append ..).isInfix
    · exact (leaves_infix_of_mem_forestNodes ts hn).trans (List.suffix_append ..).isInfix

end

/-! ## Rows of nodes -/

section Rows
variable {t n : Tree} {l : Lexeme}

/-- A node starts on the row of its first token. -/
theorem startRow_of_leaves {ls : List Lexeme} (h : t.leaves = l :: ls) : t.startRow = l.row := by
  rw [startRow, h]
  rfl

/-- A node ends on the row on which its last token ends. -/
theorem endRow_of_leaves {ls : List Lexeme} (h : t.leaves = ls ++ [l]) : t.endRow = l.endRow := by
  rw [endRow, h, List.getLast?_concat]
  rfl

theorem exists_startRow (h : t.leaves ≠ []) : ∃ l ∈ t.leaves, t.startRow = l.row := by
  cases hleaves : t.leaves with
  | nil => exact absurd hleaves h
  | cons l ls => exact ⟨l, List.mem_cons_self .., startRow_of_leaves hleaves⟩

theorem exists_endRow (h : t.leaves ≠ []) : ∃ l ∈ t.leaves, t.endRow = l.endRow := by
  have hleaves : t.leaves = t.leaves.dropLast ++ [t.leaves.getLast h] :=
    (List.dropLast_concat_getLast h).symm
  exact ⟨_, List.getLast_mem h, endRow_of_leaves hleaves⟩

/-- No token of a node starts before the node. -/
theorem startRow_le_row (ht : InOrder t.leaves) (hl : l ∈ t.leaves) : t.startRow ≤ l.row := by
  cases hleaves : t.leaves with
  | nil => rw [hleaves] at hl; cases hl
  | cons first ls =>
    rw [hleaves] at ht hl
    rw [startRow_of_leaves hleaves]
    have hfirst : first.row ≤ first.endRow := first.row_le_endRow
    rcases List.mem_cons.mp hl with rfl | hl
    · omega
    · have hle : first.endRow ≤ l.row := List.rel_of_pairwise_cons ht hl
      omega

/-- No token of a node ends behind the node. -/
theorem endRow_le_endRow (ht : InOrder t.leaves) (hl : l ∈ t.leaves) : l.endRow ≤ t.endRow := by
  have hne : t.leaves ≠ [] := List.ne_nil_of_mem hl
  have hleaves : t.leaves = t.leaves.dropLast ++ [t.leaves.getLast hne] :=
    (List.dropLast_concat_getLast hne).symm
  rw [endRow_of_leaves hleaves]
  generalize t.leaves.getLast hne = last at hleaves ⊢
  rw [hleaves] at ht hl
  have hlast : last.row ≤ last.endRow := last.row_le_endRow
  rcases List.mem_append.mp hl with hl | hl
  · have hle : l.endRow ≤ last.row :=
      (List.pairwise_append.mp ht).2.2 l hl last (List.mem_singleton_self last)
    omega
  · obtain rfl := List.mem_singleton.mp hl
    omega

theorem startRow_le_endRow (ht : InOrder t.leaves) (h : t.leaves ≠ []) :
    t.startRow ≤ t.endRow := by
  obtain ⟨l, hl, hstart⟩ := exists_startRow h
  have hrow : l.row ≤ l.endRow := l.row_le_endRow
  have hend : l.endRow ≤ t.endRow := endRow_le_endRow ht hl
  omega

/-- **No node leaves the rows of a node above it.** -/
theorem rows_of_mem_nodes (ht : InOrder t.leaves) (hn : n ∈ t.nodes) (h : n.leaves ≠ []) :
    t.startRow ≤ n.startRow ∧ n.endRow ≤ t.endRow := by
  have hsubset : n.leaves ⊆ t.leaves := (leaves_infix_of_mem_nodes t hn).subset
  obtain ⟨first, hfirst, hstart⟩ := exists_startRow h
  obtain ⟨last, hlast, hend⟩ := exists_endRow h
  rw [hstart, hend]
  exact ⟨startRow_le_row ht (hsubset hfirst), endRow_le_endRow ht (hsubset hlast)⟩

/-- Of two nodes with tokens the first one starts no later. -/
def StartsBefore (n m : Tree) : Prop :=
  n.leaves ≠ [] → m.leaves ≠ [] → n.startRow ≤ m.startRow

mutual

/-- **The nodes of a tree start in the order in which they are listed.** -/
theorem pairwise_startRow_nodes :
    (t : Tree) → InOrder t.leaves → t.nodes.Pairwise StartsBefore
  | .leaf .., _ => by
    rw [nodes]
    exact List.pairwise_singleton ..
  | .branch k f cs, ht => by
    rw [nodes]
    refine .cons (fun m hm _ hleaves => ?_) (pairwise_startRow_forestNodes cs ?_)
    · have hm : m ∈ (branch k f cs).nodes := by
        rw [nodes]
        exact List.mem_cons_of_mem _ hm
      exact (rows_of_mem_nodes ht hm hleaves).1
    · rwa [leaves] at ht

/-- The nodes of a list of trees start in the order in which they are listed. -/
theorem pairwise_startRow_forestNodes :
    (ts : List Tree) → InOrder (forestLeaves ts) → (forestNodes ts).Pairwise StartsBefore
  | [], _ => .nil
  | t :: ts, hts => by
    rw [forestLeaves] at hts
    obtain ⟨ht, hts, hcross⟩ := List.pairwise_append.mp hts
    rw [forestNodes]
    refine List.pairwise_append.mpr
      ⟨pairwise_startRow_nodes t ht, pairwise_startRow_forestNodes ts hts, ?_⟩
    -- the first tokens of two nodes in different trees
    intro n hn m hm hnleaves hmleaves
    obtain ⟨a, ha, hna⟩ := exists_startRow hnleaves
    obtain ⟨b, hb, hmb⟩ := exists_startRow hmleaves
    have ha : a ∈ t.leaves := (leaves_infix_of_mem_nodes t hn).subset ha
    have hb : b ∈ forestLeaves ts := (leaves_infix_of_mem_forestNodes ts hm).subset hb
    have hab : a.endRow ≤ b.row := hcross a ha b hb
    have hrow : a.row ≤ a.endRow := a.row_le_endRow
    omega

end

end Rows

/-! ## Trees that are laid out in a text -/

/-- Whether the node declares a method, a class or an interface. -/
def isDeclaration (t : Tree) : Bool :=
  t.isNode .methodDeclaration || t.isNode .classDeclaration || t.isNode .interfaceDeclaration

/-- Whether the last of the tokens ends in a character that is no line break. -/
def closes (ls : List Lexeme) : Bool :=
  ls.getLast?.any fun l => l.text.toList.getLast?.any (· != '\n')

/-- The tokens of the tree stand in the text, and no declaration is empty or ends in a line
break. -/
structure IsLaidOut (source : String) (t : Tree) : Prop where
  stand : Lexeme.StandIn source.toList 0 t.leaves
  closed : ∀ n ∈ t.nodes, n.isDeclaration → closes n.leaves

/-- The tokens of every node are in order. -/
theorem IsLaidOut.inOrder {source : String} {t n : Tree} (ht : t.IsLaidOut source)
    (hn : n ∈ t.nodes) : InOrder n.leaves :=
  List.Pairwise.sublist (leaves_infix_of_mem_nodes t hn).sublist ht.stand.inOrder

theorem closes_append {ls ms : List Lexeme} (h : closes ms) : closes (ls ++ ms) := by
  unfold closes at h ⊢
  rw [List.getLast?_append]
  cases hlast : ms.getLast? with
  | none => rw [hlast] at h; cases h
  | some l => rwa [hlast] at h

theorem leaves_ne_nil_of_closes {t : Tree} (h : closes t.leaves) : t.leaves ≠ [] := by
  intro hnil
  rw [hnil] at h
  cases h

end Tree

end CodeRisk.Java
