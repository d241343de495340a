import CodeRisk.Proofs.Java.Shape
import CodeRisk.Proofs.Lowering.Site

/-!
# What stands in a role

The kinds of nodes that the grammar puts into single roles. For names, conditions and values these
are the same in all nodes; as with the bounds of rules, one look at the whole grammar settles it
(`Yields.within_role`). What a body is depends on the node it belongs to, and follows from the shape
of this node.
-/
namespace CodeRisk.Java
open Grammar

namespace Bounds

/-- Whether the rule gives the role `f` to nothing but what is within the bounds. -/
def admitsIn (b : Bounds) (f : Field) : JavaRule → Bool
  | .terminal _ | .phrase _ | .empty => true
  | .seq x y | .alt x y => b.admitsIn f x && b.admitsIn f y
  | .label g r => (g != f || b.admits r) && b.admitsIn f r
  | .shown _ r | .level _ r | .grouped _ r | .weight _ r => b.admitsIn f r

theorem Holds.fits {b : Bounds} {t : Tree} (h : b.Holds t) :
    t.fits fun k => b.phrase (.node k) := by
  cases t with
  | leaf => rfl
  | branch k f cs => exact h.kind k f cs rfl

end Bounds

theorem Tree.fits_inRole {kinds : NodeKind → Bool} {f : Field} {t : Tree} (h : t.fits kinds) :
    (t.inRole f).fits kinds := by
  cases t with
  | leaf => rfl
  | branch => exact h

theorem Tree.fits_shownAs {kinds : NodeKind → Bool} {k : TokenKind} {t : Tree}
    (h : t.fits kinds) : (t.shownAs k).fits kinds := by
  cases t with
  | leaf => rfl
  | branch => exact h

theorem Tree.field_inRole_of_some {f g : Field} {t : Tree} (h : t.field = some g) :
    (t.inRole f).field = some g := by
  cases t with
  | leaf => cases h; rfl
  | branch => cases h; rfl

theorem Tree.field_shownAs (k : TokenKind) (t : Tree) : (t.shownAs k).field = t.field := by
  cases t <;> rfl

/-- What a role holds is within the bounds, if this is so for each rule by itself. -/
theorem Yields.within_role {b : Bounds} {f : Field} {r : JavaRule} {ts : List Tree}
    (h : Yields r ts) (hb : b.Closed) (hrules : ∀ x ∈ grammar.rules, b.admitsIn f x.2)
    (hr : b.admitsIn f r) :
    ∀ t ∈ ts, t.field = some f → t.fits fun k => b.phrase (.node k) := by
  induction h with
  | terminal t l =>
    intro t ht hf
    rw [List.mem_singleton.mp ht] at hf
    cases hf
  | node k cs =>
    intro t ht hf
    rw [List.mem_singleton.mp ht] at hf
    cases hf
  | phrase _ hrule _ ih => exact ih (hrules _ (mem_rules_of_ruleOf? hrule))
  | empty => simp
  | seq _ _ iha ihb =>
    obtain ⟨hx, hy⟩ := Bool.and_eq_true_iff.mp hr
    intro t ht
    rcases List.mem_append.mp ht with ht | ht
    · exact iha hx t ht
    · exact ihb hy t ht
  | left _ ih => exact ih (Bool.and_eq_true_iff.mp hr).1
  | right _ ih => exact ih (Bool.and_eq_true_iff.mp hr).2
  | @label g r ts hyields ih =>
    obtain ⟨hlabel, hinner⟩ := Bool.and_eq_true_iff.mp hr
    intro t ht hf
    obtain ⟨u, hu, rfl⟩ := List.mem_map.mp ht
    refine Tree.fits_inRole ?_
    -- a role that the tree has already stays
    cases hfield : u.field with
    | none =>
      rw [Tree.field_inRole hfield, Option.some.injEq] at hf
      rw [hf, bne_self_eq_false, Bool.false_or] at hlabel
      exact (hyields.within hb hlabel u hu).fits
    | some j =>
      rw [Tree.field_inRole_of_some hfield] at hf
      exact ih hinner u hu (hfield.trans hf)
  | shown _ ih =>
    intro t ht hf
    obtain ⟨u, hu, rfl⟩ := List.mem_map.mp ht
    rw [Tree.field_shownAs] at hf
    exact Tree.fits_shownAs (ih hr u hu hf)
  | level _ ih => exact ih hr
  | grouped _ ih => exact ih hr
  | weight _ ih => exact ih hr

namespace Bounds

/-- What a name can be. -/
def name : Bounds where
  phrase
    | .node .scopedIdentifier | .reservedIdentifier => true
    | _ => false
  role _ := false

theorem name_closed : name.Closed := by decide +kernel

theorem name_admitsIn : ∀ x ∈ grammar.rules, name.admitsIn .name x.2 := by decide +kernel

/-- Conditions and values are expressions. -/
theorem plain_admitsIn :
    ∀ f ∈ [Field.condition, .value], ∀ x ∈ grammar.rules, plain.admitsIn f x.2 := by
  decide +kernel

end Bounds

namespace Tree
variable {k : NodeKind} {f : Option Field} {cs : List Tree} {c : Tree}

theorem Conforms.child (h : (Tree.branch k f cs).Conforms) : ∀ t ∈ cs, t.Conforms := by
  cases h with
  | branch _ _ _ hcs => exact hcs

/-- What the rule of a node says of its children holds for all of them, if it holds for comments. -/
theorem Conforms.forall_children (h : (Tree.branch k f cs).Conforms) {P : Tree → Prop}
    (hleaf : ∀ j l, P (Tree.leaf j none l))
    (hrule : ∀ r ts, shapeOf? k = some r → Yields r ts → ∀ t ∈ ts, P t) : ∀ t ∈ cs, P t := by
  cases h with
  | @branch _ _ _ r hr hyields hcomments _ =>
    intro t ht
    cases hcomment : t.isComment with
    | true =>
      cases t with
      | leaf j g l =>
        obtain rfl : g = none := hcomments _ ht hcomment
        exact hleaf j l
      | branch => cases hcomment
    | false => exact hrule r _ hr hyields t (List.mem_filter.mpr ⟨ht, by rw [hcomment]; rfl⟩)

/-- The children in a role are within the bounds that hold for the role in each rule. -/
private theorem Conforms.fits_role {b : Bounds} {g : Field} (hb : b.Closed)
    (hrules : ∀ x ∈ grammar.rules, b.admitsIn g x.2) (h : (Tree.branch k f cs).Conforms)
    (hc : c ∈ cs) (hg : c.field = some g) : c.fits fun j => b.phrase (.node j) := by
  refine h.forall_children (P := fun t => t.field = some g → t.fits fun j => b.phrase (.node j))
    (fun _ _ _ => rfl) (fun r ts hr hyields => ?_) c hc hg
  have hrule : b.admitsIn g r := by
    by_cases hk : k = .program
    · subst hk
      cases hr
      rfl
    · have hrule : ruleOf? (.node k) = some r := by
        cases k with
        | program => exact absurd rfl hk
        | _ => exact hr
      exact hrules _ (mem_rules_of_ruleOf? hrule)
  exact hyields.within_role hb hrules hrule

/-- **A name is a token or a qualified name.** -/
theorem Conforms.name (h : (Tree.branch k f cs).Conforms) (hc : c ∈ cs)
    (hg : c.field = some .name) : c.fits (· == .scopedIdentifier) := by
  have hfits := h.fits_role Bounds.name_closed Bounds.name_admitsIn hc hg
  cases c with
  | leaf => rfl
  | branch j g ds => cases j <;> first | rfl | cases hfits

/-- **Conditions and values are expressions**, whatever they belong to. -/
theorem Conforms.expressive (h : (Tree.branch k f cs).Conforms) (hc : c ∈ cs)
    (hg : c.field = some .condition ∨ c.field = some .value) : c.isExpressive := by
  have hfits : c.fits NodeKind.isExpressive := by
    rcases hg with hg | hg
    · exact h.fits_role Bounds.plain_closed (Bounds.plain_admitsIn _ (by simp)) hc hg
    · exact h.fits_role Bounds.plain_closed (Bounds.plain_admitsIn _ (by simp)) hc hg
  cases c with
  | leaf => rfl
  | branch => exact hfits

/-! ## Roles in single nodes -/

@[simp] theorem isStatement_leaf (j : TokenKind) (g : Option Field) (l : Lexeme) :
    (Tree.leaf j g l).isStatement = true := rfl

@[simp] theorem isStatement_mark (l : Lexeme) : (mark l).isStatement = true := rfl

/-- Where the bodies of loops and the branches of conditions stand, there are statements. -/
theorem Conforms.statement_in_role (h : (Tree.branch k f cs).Conforms) (hk : k.isControl)
    {g : Field} (hg : g = .consequence ∨ g = .alternative ∨ g = .body) :
    ∀ t ∈ cs, t.field = some g → t.isStatement := by
  refine h.forall_children (fun _ _ hf => by cases hf) fun r ts hr hyields => ?_
  have hcondition : Field.condition ≠ g := by
    rintro rfl
    simp at hg
  cases k with
  | ifStatement =>
    obtain ⟨l, ps, a, us, rfl, ha, rfl | ⟨m, b, rfl, hb⟩⟩ := hyields.ifStatement hr
    · simp [ha.statement, hcondition]
    · simp [ha.statement, hb.statement, hcondition]
  | whileStatement =>
    obtain ⟨l, ps, b, rfl, hb⟩ := hyields.whileStatement hr
    simp [hb.statement, hcondition]
  | doStatement =>
    obtain ⟨l, b, m, ps, n, rfl, hb⟩ := hyields.doStatement hr
    simp [hb.statement, hcondition]
  | forStatement =>
    obtain ⟨us, b, rfl, hus, hb⟩ := hyields.forStatement hr
    intro t ht hf
    rcases List.mem_append.mp ht with ht | ht
    · rcases (hus t ht).2 with hnone | hrole
      · rw [hnone] at hf
        cases hf
      · rw [hrole, Option.some.injEq] at hf
        exact absurd hf hcondition
    · rw [List.mem_singleton.mp ht]
      exact hb.statement
  | enhancedForStatement =>
    obtain ⟨us, v, m, b, rfl, hus, hv, hb⟩ := hyields.enhancedForStatement hr
    intro t ht hf
    rcases List.mem_append.mp ht with ht | ht
    · have hsignature := (hus t ht).role g hf
      rcases hg with rfl | rfl | rfl <;> cases hsignature
    · have hvalue : Field.value ≠ g := by
        rintro rfl
        simp at hg
      simp only [List.mem_cons, List.not_mem_nil, or_false] at ht
      rcases ht with rfl | rfl | rfl
      · rw [hv.field, Option.some.injEq] at hf
        exact absurd hf hvalue
      · cases hf
      · exact hb.statement
  | _ => cases hk

/-- The header of a loop holds its condition and what has no role. -/
theorem Conforms.header (h : (Tree.branch .forStatement f cs).Conforms) :
    ∀ t ∈ cs, t.field ≠ some .body → t.field = none ∨ t.field = some .condition := by
  refine h.forall_children (fun _ _ _ => .inl rfl) fun r ts hr hyields => ?_
  obtain ⟨us, b, rfl, hus, hb⟩ := hyields.forStatement hr
  intro t ht hf
  rcases List.mem_append.mp ht with ht | ht
  · exact (hus t ht).2
  · rw [List.mem_singleton.mp ht, hb.field] at hf
    exact absurd rfl hf

/-- A block and a statement with a label hold statements. -/
theorem Conforms.statements (h : (Tree.branch k f cs).Conforms)
    (hk : k.isBlock ∨ k = .labeledStatement) : ∀ t ∈ cs, t.isStatement := by
  refine h.forall_children (fun _ _ => rfl) fun r ts hr hyields => ?_
  rcases hk with hk | rfl
  · obtain ⟨l, us, m, rfl, hus⟩ := hyields.block hr hk
    intro t ht
    simp only [List.cons_append, List.mem_cons, List.mem_append, List.not_mem_nil, or_false] at ht
    rcases ht with rfl | ht | rfl
    · rfl
    · exact (hus t ht).statement
    · rfl
  · obtain ⟨l, m, s, rfl, hs⟩ := hyields.labeledStatement hr
    simp [hs.statement]

/-- Groups and rules hold labels and statements. -/
theorem Conforms.entry_statements (h : (Tree.branch k f cs).Conforms)
    (hk : k = .switchGroup ∨ k = .switchRule) :
    ∀ t ∈ cs, t.isNode .switchLabel ∨ t.isStatement := by
  refine h.forall_children (fun _ _ => .inr rfl) fun r ts hr hyields => ?_
  rcases hk with rfl | rfl
  · obtain ⟨ls, us, rfl, hus⟩ := hyields.switchGroup hr
    intro t ht
    rcases List.mem_cons.mp ht with rfl | ht
    · exact .inl rfl
    · rcases hus t ht with ⟨l, rfl⟩ | ⟨ls, rfl⟩ | hstatement
      · exact .inr rfl
      · exact .inl rfl
      · exact .inr hstatement.statement
  · obtain ⟨ls, l, s, rfl, hs⟩ := hyields.switchRule hr
    simp [hs.statement]

/-- The body of a try statement, of a handler and of a synchronized statement is a block. -/
theorem Conforms.block_in_body (h : (Tree.branch k f cs).Conforms)
    (hk : k = .tryStatement ∨ k = .tryWithResources ∨ k = .synchronizedStatement ∨
      k = .catchClause) :
    ∀ t ∈ cs, t.field = some .body → t.isNode .block := by
  refine h.forall_children (fun _ _ hf => by cases hf) fun r ts hr hyields => ?_
  rcases hk with rfl | rfl | rfl | rfl
  · obtain ⟨l, bs, us, rfl, hus⟩ := hyields.tryStatement hr
    simp +contextual [hus.field_eq_none]
  · obtain ⟨l, rs, bs, us, rfl, hus⟩ := hyields.tryWithResources hr
    simp +contextual [hus.field_eq_none]
  · obtain ⟨l, ps, bs, rfl⟩ := hyields.synchronizedStatement hr
    simp
  · obtain ⟨l, m, ps, n, bs, rfl⟩ := hyields.catchClause hr
    simp

theorem Conforms.resources (h : (Tree.branch k f cs).Conforms)
    (hk : k = .tryStatement ∨ k = .tryWithResources) :
    ∀ t ∈ cs, t.field = some .resources → t.isNode .resourceSpecification := by
  refine h.forall_children (fun _ _ hf => by cases hf) fun r ts hr hyields => ?_
  rcases hk with rfl | rfl
  · obtain ⟨l, bs, us, rfl, hus⟩ := hyields.tryStatement hr
    simp +contextual [hus.field_eq_none]
  · obtain ⟨l, rs, bs, us, rfl, hus⟩ := hyields.tryWithResources hr
    simp +contextual [hus.field_eq_none]

theorem Conforms.switch_body (h : (Tree.branch .switch f cs).Conforms) :
    ∀ t ∈ cs, t.field = some .body → t.isNode .switchBlock := by
  refine h.forall_children (fun _ _ hf => by cases hf) fun r ts hr hyields => ?_
  obtain ⟨l, ps, bs, rfl⟩ := hyields.switch hr
  simp

theorem Conforms.lambda_body (h : (Tree.branch .lambda f cs).Conforms) :
    ∀ t ∈ cs, t.field = some .body → t.isNode .block ∨ t.isExpressive := by
  refine h.forall_children (fun _ _ hf => by cases hf) fun r ts hr hyields => ?_
  obtain ⟨p, l, b, rfl, hp, -, hb | ⟨bs, rfl⟩⟩ := hyields.lambda hr
  · simp [hp, hb.expressive]
  · simp [hp]

end Tree

end CodeRisk.Java
