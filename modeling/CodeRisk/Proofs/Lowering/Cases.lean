import CodeRisk.Proofs.Complexity.Walk
import CodeRisk.Proofs.Context
import CodeRisk.Proofs.Lowering.Children
import CodeRisk.Proofs.Lowering.Method

/-!
# The cases of a switch

A switch block is made of groups, whose labels end with a colon, or of rules, whose label ends with
an arrow. A group begins with its labels, and its statements are attached to the last one: the
labels before it fall through (`Tree.EntryParts`). A rule has one label and one statement. So the
block has a case for each label and attaches each statement to one of them
(`Tree.Conforms.switchBlock_cases`), and a switch that stands as a statement branches as often as it
has labels.
-/
namespace CodeRisk
open Java (Tree)

/-! ## The walk over cases -/

namespace Tally
variable (d : UInt32) (t : Tally)

/-- Which case a statement belongs to does not matter to the walk. -/
theorem cases_eq_stmts (cs : List SwitchCase) :
    cases d cs t = stmts d (cs.flatMap SwitchCase.body) t := by
  induction cs generalizing t with
  | nil => rfl
  | cons c cs ih =>
    obtain ⟨l, body⟩ := c
    rw [List.flatMap_cons, stmts_append]
    exact ih (stmts d body t)

/-- What a walk adds does not depend on what was counted before. -/
theorem exists_grow (e : Expr) (ss : List Stmt) :
    ∃ b c l, ∀ t : Tally, stmts d ss (expr d e t) = t.grow b c l := by
  obtain ⟨n, rfl⟩ : ∃ n, d = .ofNat n := ⟨d.toNat, UInt32.ofNat_toNat.symm⟩
  let charges := e.outline.charges n ++ Outline.chargesIn n (Stmt.outlines ss)
  refine ⟨Charge.branches charges, Charge.cognition charges, level charges, fun t => ?_⟩
  rw [expr_eq_foldl, stmts_eq_foldl, ← List.foldl_append, foldl_enter]

/-- The branches entered before a walk add up with those in it. -/
theorem cyclomatic_branch (ways depth : UInt32) (e : Expr) (ss : List Stmt) :
    (stmts d ss (expr d e (t.branch ways depth))).cyclomatic =
      (stmts d ss (expr d e t)).cyclomatic + ways := by
  obtain ⟨b, c, l, hgrow⟩ := exists_grow d e ss
  rw [hgrow, hgrow]
  show t.cyclomatic + ways + .ofNat b = t.cyclomatic + .ofNat b + ways
  ac_rfl

end Tally

/-! ## Groups and rules -/

namespace Java.Tree

/-- The groups and rules of a switch block: its children with a name, comments aside. -/
def entries (t : Tree) : List Tree :=
  t.children.filter isSubstantial

/-- The labels of a group or a rule. -/
def labels (t : Tree) : List Tree :=
  t.children.filter (isNode .switchLabel)

/-- The statements of a group or a rule. -/
def entryStatements (t : Tree) : List Tree :=
  t.children.filter isEntryStatement

/-- The children of a group or a rule, comments and tokens aside, are its labels and behind all of
them its statements. -/
structure EntryParts (cs ls ss : List Tree) : Prop where
  substantial : cs.filter isSubstantial = ls ++ ss
  labels_ne_nil : ls ≠ []
  isLabel : ∀ l ∈ ls, l.isNode .switchLabel
  isEntryStatement : ∀ s ∈ ss, s.isEntryStatement

theorem isSubstantial_of_isNode {k : NodeKind} {t : Tree} (h : t.isNode k) : t.isSubstantial := by
  cases t with
  | leaf => cases h
  | branch => rfl

/-- A statement is no label. -/
theorem IsStatement.isEntryStatement {f : Option Field} {t : Tree} (h : t.IsStatement f)
    (ht : t.isSubstantial) : t.isEntryStatement := by
  have hlabel : t.isNode .switchLabel = false := by
    cases t with
    | leaf => rfl
    | branch k g cs =>
      have hk : k.isStatement := h.statement
      cases k <;> first | rfl | cases hk
  rw [Tree.isEntryStatement, hlabel, ht]
  rfl

namespace EntryParts
variable {cs ls ss : List Tree}

theorem filter_eq (h : EntryParts cs ls ss) {q : Tree → Bool}
    (hq : ∀ c, q c → c.isSubstantial) : cs.filter q = ls.filter q ++ ss.filter q := by
  rw [← List.filter_append, ← h.substantial, List.filter_filter]
  refine List.filter_congr fun c _ => ?_
  cases hc : q c with
  | true => rw [hq c hc]; rfl
  | false => rfl

theorem filter_labels (h : EntryParts cs ls ss) : cs.filter (isNode .switchLabel) = ls := by
  rw [h.filter_eq fun _ => isSubstantial_of_isNode, List.filter_eq_self.mpr h.isLabel,
    List.filter_eq_nil_iff.mpr, List.append_nil]
  intro s hs
  have hstatement := h.isEntryStatement s hs
  rw [Tree.isEntryStatement, Bool.and_eq_true, Bool.not_eq_true'] at hstatement
  rw [hstatement.1]
  exact Bool.false_ne_true

theorem filter_statements (h : EntryParts cs ls ss) : cs.filter Tree.isEntryStatement = ss := by
  have hsubstantial (c : Tree) (hc : c.isEntryStatement) : c.isSubstantial :=
    (Bool.and_eq_true_iff.mp hc).2
  rw [h.filter_eq hsubstantial, List.filter_eq_self.mpr h.isEntryStatement,
    List.filter_eq_nil_iff.mpr, List.nil_append]
  intro l hl
  rw [Tree.isEntryStatement, h.isLabel l hl]
  exact Bool.false_ne_true

end EntryParts

section Conforming
variable {f : Option Field} {cs : List Tree}

theorem Conforms.switchGroup_parts (h : (Tree.branch .switchGroup f cs).Conforms) :
    ∃ ls ss, EntryParts cs ls ss := by
  cases h with
  | branch hr hyields hcomments _ =>
    obtain ⟨parts, us, hcs, hne, hparts, hus⟩ := hyields.switchGroup_parts hr
    refine ⟨parts.flatten.filter isSubstantial, us.filter isSubstantial, ?_, ?_, ?_, ?_⟩
    · rw [Skips.substantial.filter_eq hcomments, hcs, List.filter_append]
    · obtain ⟨p, ps, rfl⟩ := List.exists_cons_of_ne_nil hne
      obtain ⟨ls, l, rfl⟩ := hparts p (List.mem_cons_self ..)
      exact List.cons_ne_nil _ _
    -- a part is a label and a colon, and the colon has no name
    · intro l hl
      obtain ⟨hmem, hsubstantial⟩ := List.mem_filter.mp hl
      obtain ⟨p, hp, hl⟩ := List.mem_flatten.mp hmem
      obtain ⟨ls, m, rfl⟩ := hparts p hp
      rcases List.mem_pair.mp hl with rfl | rfl
      · rfl
      · cases hsubstantial
    · intro s hs
      obtain ⟨hmem, hsubstantial⟩ := List.mem_filter.mp hs
      exact (hus s hmem).isEntryStatement hsubstantial

theorem Conforms.switchRule_parts (h : (Tree.branch .switchRule f cs).Conforms) :
    ∃ l s, EntryParts cs [l] [s] := by
  cases h with
  | branch hr hyields hcomments _ =>
    obtain ⟨ls, m, k, ds, hcs, hk⟩ := hyields.switchRule_parts hr
    have hstatement : (Tree.branch k none ds).IsStatement none := ⟨rfl, hk⟩
    refine ⟨Tree.branch .switchLabel none ls, Tree.branch k none ds, ?_, List.cons_ne_nil _ _, ?_,
      ?_⟩
    · rw [Skips.substantial.filter_eq hcomments, hcs]
      rfl
    · intro l hl
      rw [List.mem_singleton.mp hl]
      rfl
    · intro s hs
      rw [List.mem_singleton.mp hs]
      exact hstatement.isEntryStatement rfl

/-- All that a switch block holds are groups and rules. -/
theorem Conforms.isEntry (h : (Tree.branch .switchBlock f cs).Conforms) :
    ∀ e ∈ cs.filter isSubstantial, e.Conforms ∧ (e.isNode .switchGroup ∨ e.isNode .switchRule) := by
  cases h with
  | branch hr hyields hcomments hconform =>
    obtain ⟨l, us, m, hcs, hus⟩ := hyields.switchBlock hr
    intro e he
    refine ⟨hconform e (List.mem_filter.mp he).1, ?_⟩
    rw [Skips.substantial.filter_eq hcomments, hcs] at he
    obtain ⟨hmem, hsubstantial⟩ := List.mem_filter.mp he
    rw [List.mem_append, List.mem_cons, List.mem_singleton] at hmem
    rcases hmem with (rfl | hmem) | rfl
    · cases hsubstantial
    · rcases hus e hmem with ⟨ds, rfl⟩ | ⟨ds, rfl⟩
      · exact .inl rfl
      · exact .inr rfl
    · cases hsubstantial

end Conforming

end Java.Tree

/-! ## Cases of a group and of a rule -/

namespace SwitchCase
open Java.Tree (EntryParts)
variable {cs ss : List Tree}

/-- Only labels and statements show in the cases of a group. -/
theorem ofGroup_filter (cs : List Tree) : ofGroup cs = ofGroup (cs.filter Tree.isSubstantial) := by
  induction cs with
  | nil => rfl
  | cons t ts ih =>
    rw [List.filter_cons]
    cases hsubstantial : t.isSubstantial with
    | true =>
      rw [if_pos rfl, ofGroup, ofGroup, ih]
    | false =>
      have hlabel : t.isNode .switchLabel = false := by
        cases hlabel : t.isNode .switchLabel with
        | true =>
          rw [Tree.isSubstantial_of_isNode hlabel] at hsubstantial
          cases hsubstantial
        | false => rfl
      rw [Tree.isSubstantial] at hsubstantial
      rw [if_neg Bool.false_ne_true, ← ih, ofGroup, hlabel, hsubstantial]
      rfl

/-- Statements without a label in front of them are in no case. -/
theorem ofGroup_statements_only (h : ∀ s ∈ ss, s.isEntryStatement) :
    ofGroup ss = (ss.map Stmt.ofTree, []) := by
  induction ss with
  | nil => rfl
  | cons s ss ih =>
    have hs := h s (List.mem_cons_self ..)
    rw [Tree.isEntryStatement, Bool.and_eq_true, Bool.not_eq_true', Tree.isSubstantial] at hs
    rw [ofGroup, ih fun s' hs' => h s' (List.mem_cons_of_mem s hs'), hs.1, hs.2]
    rfl

/-- Statements are attached to the last label in front of them. -/
theorem ofGroup_labels {last : Tree} (hlast : last.isNode .switchLabel)
    (hss : ∀ s ∈ ss, s.isEntryStatement) (front : List Tree)
    (hfront : ∀ l ∈ front, l.isNode .switchLabel) :
    ofGroup (front ++ last :: ss) =
      ([], front.map (fun l => .mk l.text []) ++ [.mk last.text (ss.map Stmt.ofTree)]) := by
  induction front with
  | nil =>
    rw [List.nil_append, ofGroup, ofGroup_statements_only hss, hlast]
    rfl
  | cons l front ih =>
    have hl := hfront l (List.mem_cons_self ..)
    rw [List.cons_append, ofGroup, ih fun l' hl' => hfront l' (List.mem_cons_of_mem l hl'), hl]
    rfl

/-- A rule is named after its first label. -/
theorem ofRule_label (cs : List Tree) :
    (ofRule cs).label = ((cs.filter (Tree.isNode .switchLabel)).head?.map Tree.text).getD "" := by
  induction cs with
  | nil => rfl
  | cons t ts ih =>
    rw [ofRule, List.filter_cons]
    cases t.isNode .switchLabel with
    | true => rfl
    | false => cases t.isNamed && !t.isComment <;> exact ih

/-- **The cases of a group or a rule**: one for each label, and all statements in the last one. -/
theorem ofEntry_eq {e : Tree} (h : e.Conforms)
    (hentry : e.isNode .switchGroup ∨ e.isNode .switchRule) :
    ∃ front last, e.labels = front ++ [last] ∧
      ofEntry e = front.map (fun l => .mk l.text []) ++
        [.mk last.text (e.entryStatements.map Stmt.ofTree)] ∧
      (e.isNode .switchRule → front = [] ∧ ∃ s, e.entryStatements = [s]) := by
  cases e with
  | leaf => rcases hentry with hentry | hentry <;> cases hentry
  | branch k f cs =>
    rcases hentry with hk | hk
    · obtain rfl := eq_of_beq hk
      obtain ⟨ls, ss, hparts⟩ := h.switchGroup_parts
      obtain ⟨front, last, rfl⟩ := (List.eq_nil_or_concat' ls).resolve_left hparts.labels_ne_nil
      have hfront : ∀ l ∈ front, l.isNode .switchLabel := fun l hl =>
        hparts.isLabel l (List.mem_append_left _ hl)
      have hlast : last.isNode .switchLabel :=
        hparts.isLabel last (List.mem_append_right _ (List.mem_singleton_self last))
      refine ⟨front, last, hparts.filter_labels, ?_, fun hrule => by cases hrule⟩
      show (ofGroup cs).2 = _
      rw [Tree.entryStatements, Tree.children, hparts.filter_statements, ofGroup_filter,
        hparts.substantial, List.append_assoc, List.singleton_append,
        ofGroup_labels hlast hparts.isEntryStatement front hfront]
    · obtain rfl := eq_of_beq hk
      obtain ⟨l, s, hparts⟩ := h.switchRule_parts
      have hlabel : (ofRule cs).label = l.text := by
        rw [ofRule_label, hparts.filter_labels]
        rfl
      refine ⟨[], l, hparts.filter_labels, ?_, fun _ => ⟨rfl, s, hparts.filter_statements⟩⟩
      show [ofRule cs] = [.mk l.text ((cs.filter Tree.isEntryStatement).map Stmt.ofTree)]
      rw [← ofRule_body, ← hlabel]
      cases ofRule cs
      rfl

theorem map_label_ofEntry {e : Tree} (h : e.Conforms)
    (hentry : e.isNode .switchGroup ∨ e.isNode .switchRule) :
    (ofEntry e).map label = e.labels.map Tree.text := by
  obtain ⟨front, last, hlabels, hcases, -⟩ := ofEntry_eq h hentry
  rw [hcases, hlabels, List.map_append, List.map_append, List.map_map]
  rfl

theorem flatMap_body_ofEntry {e : Tree} (h : e.Conforms)
    (hentry : e.isNode .switchGroup ∨ e.isNode .switchRule) :
    (ofEntry e).flatMap body = e.entryStatements.map Stmt.ofTree := by
  obtain ⟨front, last, -, hcases, -⟩ := ofEntry_eq h hentry
  have hfront : (front.map fun l => SwitchCase.mk l.text []).flatMap body = [] := by
    rw [List.flatMap_map]
    exact List.flatMap_eq_nil_iff.mpr fun _ _ => rfl
  rw [hcases, List.flatMap_append, hfront, List.nil_append, List.flatMap_singleton, body]

/-- Nothing but groups and rules has cases. -/
theorem ofEntries_eq_entries (cs : List Tree) :
    ofEntries cs = (cs.filter Tree.isSubstantial).flatMap ofEntry := by
  rw [ofEntries_eq]
  refine (Tree.flatMap_filter_eq (fun _ _ _ => rfl) fun c _ hc => ?_).symm
  cases c with
  | leaf => rfl
  | branch => cases hc

/-- A rule has one label. -/
theorem length_flatMap_labels {es : List Tree}
    (h : ∀ e ∈ es, e.Conforms ∧ (e.isNode .switchGroup ∨ e.isNode .switchRule)) :
    (es.flatMap Tree.labels).length =
      ((es.filter (Tree.isNode .switchGroup)).flatMap Tree.labels).length +
        es.countP (Tree.isNode .switchRule) := by
  induction es with
  | nil => rfl
  | cons e es ih =>
    have ih := ih fun e' he' => h e' (List.mem_cons_of_mem e he')
    obtain ⟨hconforms, hentry⟩ := h e (List.mem_cons_self ..)
    obtain ⟨k, f, cs, rfl⟩ : ∃ k f cs, e = .branch k f cs := by
      cases e with
      | leaf => rcases hentry with hentry | hentry <;> cases hentry
      | branch k f cs => exact ⟨k, f, cs, rfl⟩
    rcases hentry with hk | hk
    · obtain rfl := eq_of_beq hk
      rw [List.flatMap_cons, List.filter_cons_of_pos hk, List.flatMap_cons, List.length_append,
        List.length_append, ih, List.countP_cons_of_neg Bool.false_ne_true, Nat.add_assoc]
    · obtain ⟨front, last, hlabels, -, hrule⟩ := ofEntry_eq hconforms (.inr hk)
      obtain rfl := eq_of_beq hk
      rw [(hrule rfl).1] at hlabels
      rw [List.flatMap_cons, List.filter_cons_of_neg Bool.false_ne_true, List.length_append,
        hlabels, List.countP_cons_of_pos rfl, ih]
      show 1 + _ = _
      omega

end SwitchCase

/-! ## Cases of a block -/

namespace Java.Tree

/-- A number after `case`. -/
def sampleCaseLabel (number : String) : Tree :=
  branch .switchLabel none [
    sampleMark "case", leaf .decimalIntegerLiteral none ⟨" ", number, 0, false⟩]

/-- Two labels with a comment between them and behind them, a condition and an empty statement, and
a label without a statement. -/
def sampleGroups : Tree :=
  branch .switchBlock (some .body) [
    sampleMark "\x7b",
    branch .switchGroup none [
      sampleCaseLabel "1", sampleMark ":",
      leaf .blockComment none ⟨" ", "/* or */", 0, false⟩,
      branch .switchLabel none [sampleMark "default"], sampleMark ":",
      leaf .lineComment none ⟨" ", "// both", 0, false⟩,
      branch .ifStatement none [
        sampleMark "if", sampleCondition "z",
        leaf .fixed (some .consequence) ⟨" ", ";", 0, false⟩],
      sampleMark ";"],
    branch .switchGroup none [sampleCaseLabel "2", sampleMark ":"],
    sampleMark "\x7d"]

/-- A rule with a block. -/
def sampleRules : Tree :=
  branch .switchBlock (some .body) [
    sampleMark "\x7b",
    branch .switchRule none [
      sampleCaseLabel "3", sampleMark "->",
      branch .block none [sampleMark "\x7b", sampleMark "\x7d"]],
    sampleMark "\x7d"]

end Java.Tree

end CodeRisk
