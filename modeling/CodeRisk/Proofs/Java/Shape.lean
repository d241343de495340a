import CodeRisk.Proofs.Java.Kinds

/-!
# The shapes of nodes

What the grammar says of the children of single kinds of nodes, comments aside. Most kinds are
plain: below them, down to the next lambda, conditional expression, switch or class body, there
are expressions and what belongs to them only (`Yields.isExpressive_of_isPlain`). For each of the
other kinds that can stand inside the body of a method, and for those that hold such a body or a
value, there is a lemma that lists its children.
-/
namespace CodeRisk.Java
open Grammar

/-- Phrases that are one of several others. -/
def isChoice : Phrase → Bool
  | .expression | .primary | .literal | .reservedIdentifier | .statement | .declaration => true
  | _ => false

theorem isSingle_of_isChoice :
    ∀ x ∈ grammar.rules, isChoice x.1 → isSingle isChoice x.2 := by
  decide +kernel

/-! ## Rules that yield one tree -/

/-- The rule yields one tree, and the tree has the property. -/
def YieldsOne (r : JavaRule) (P : Tree → Prop) : Prop :=
  ∀ ts, Yields r ts → ∃ t, ts = [t] ∧ P t

namespace YieldsOne
variable {f : Field} {k : NodeKind} {r : JavaRule}

theorem token {t : Terminal} : YieldsOne (.terminal t) fun x => ∃ l, x = .leaf t.kind none l := by
  intro ts h
  obtain ⟨l, rfl⟩ := yields_terminal.mp h
  exact ⟨_, rfl, l, rfl⟩

theorem node : YieldsOne (.phrase (.node k)) fun x => ∃ cs, x = .branch k none cs := by
  intro ts h
  obtain ⟨cs, rfl⟩ := yields_node.mp h
  exact ⟨_, rfl, cs, rfl⟩

theorem label_node :
    YieldsOne (.label f (.phrase (.node k))) fun x => ∃ cs, x = .branch k (some f) cs := by
  intro ts h
  obtain ⟨us, hus, rfl⟩ := yields_label.mp h
  obtain ⟨cs, rfl⟩ := yields_node.mp hus
  exact ⟨_, rfl, cs, rfl⟩

theorem choice (hr : isSingle isChoice r) (hb : Bounds.expression.admits r) :
    YieldsOne r (Tree.IsExpression none) := by
  intro ts h
  obtain ⟨t, rfl⟩ := h.eq_singleton isSingle_of_isChoice hr
  have ht := h.within Bounds.expression_closed hb t (List.mem_singleton_self t)
  exact ⟨t, rfl, ht.field_eq_none fun _ => rfl, ht.isExpressive fun _ hk => hk⟩

theorem expression : YieldsOne (.phrase .expression) (Tree.IsExpression none) :=
  choice rfl rfl

theorem statement : YieldsOne (.phrase .statement) (Tree.IsStatement none) := by
  intro ts h
  obtain ⟨t, rfl⟩ := h.eq_singleton isSingle_of_isChoice rfl
  have ht := h.within Bounds.statement_closed rfl t (List.mem_singleton_self t)
  exact ⟨t, rfl, ht.field_eq_none fun _ => rfl, ht.isStatement fun _ hk => hk⟩

theorem label_choice (hr : isSingle isChoice r) (hb : Bounds.expression.admits r) :
    YieldsOne (.label f r) (Tree.IsExpression (some f)) := by
  intro ts h
  obtain ⟨us, hus, rfl⟩ := yields_label.mp h
  obtain ⟨t, rfl, ht⟩ := choice hr hb us hus
  exact ⟨_, rfl, ht.inRole⟩

theorem label_expression :
    YieldsOne (.label f (.phrase .expression)) (Tree.IsExpression (some f)) :=
  label_choice rfl rfl

theorem label_signature (hr : isSingle isChoice r) (hb : Bounds.expression.admits r)
    (hs : Bounds.signature.admits (.label f r)) :
    YieldsOne (.label f r) fun t => t.field = some f ∧ Bounds.signature.Holds t := by
  intro ts h
  obtain ⟨t, rfl, ht⟩ := label_choice hr hb ts h
  exact ⟨t, rfl, ht.field, h.within Bounds.signature_closed hs t (List.mem_singleton_self t)⟩

theorem label_statement :
    YieldsOne (.label f (.phrase .statement)) (Tree.IsStatement (some f)) := by
  intro ts h
  obtain ⟨us, hus, rfl⟩ := yields_label.mp h
  obtain ⟨t, rfl, ht⟩ := statement us hus
  exact ⟨_, rfl, ht.inRole⟩

end YieldsOne

namespace Yields
variable {a b : JavaRule} {ts : List Tree} {P : Tree → Prop}

/-- A sequence that begins with one tree. -/
theorem cons (h : Yields (.seq a b) ts) (ha : YieldsOne a P) :
    ∃ t us, ts = t :: us ∧ P t ∧ Yields b us := by
  obtain ⟨us, vs, rfl, hus, hvs⟩ := yields_seq.mp h
  obtain ⟨t, rfl, ht⟩ := ha us hus
  exact ⟨t, vs, rfl, ht, hvs⟩

/-- A sequence of which the first `n` rules are within bounds. -/
theorem split {bounds : Bounds} (hb : bounds.Closed) (n : Nat) {rs : List JavaRule}
    (h : Yields (Rule.all rs) ts) (hn : n < rs.length) (hrs : ∀ r ∈ rs.take n, bounds.admits r) :
    ∃ us vs, ts = us ++ vs ∧ (∀ t ∈ us, bounds.Holds t) ∧ Yields (Rule.all (rs.drop n)) vs := by
  induction n generalizing rs ts with
  | zero => exact ⟨[], ts, rfl, by simp, h⟩
  | succ n ih =>
    match rs, hn with
    | r :: s :: rest, hn =>
      obtain ⟨us, vs, rfl, hus, hvs⟩ := yields_seq.mp h
      obtain ⟨ws, xs, rfl, hws, hxs⟩ := ih hvs (Nat.lt_of_succ_lt_succ hn)
        fun r' hr' => hrs r' (List.mem_cons_of_mem r hr')
      refine ⟨us ++ ws, xs, (List.append_assoc ..).symm, ?_, hxs⟩
      intro t ht
      rcases List.mem_append.mp ht with ht | ht
      · exact hus.within hb (hrs r (List.mem_cons_self ..)) t ht
      · exact hws t ht

/-- A list of items that are one tree each. -/
theorem forall_of_items {p : Phrase} {item : JavaRule} (h : Yields (.phrase p) ts)
    (hp : p.isHidden) (hr : ruleOf? p = some (Rule.listOf p item)) (hitem : YieldsOne item P) :
    ∀ t ∈ ts, P t := by
  obtain ⟨parts, -, rfl, hparts⟩ := h.items hp hr
  intro t ht
  obtain ⟨us, hus, ht⟩ := List.mem_flatten.mp ht
  obtain ⟨u, rfl, hu⟩ := hitem us (hparts us hus)
  rw [List.mem_singleton.mp ht]
  exact hu

theorem statements (h : Yields (.phrase .statements) ts) : ∀ t ∈ ts, t.IsStatement none :=
  h.forall_of_items rfl rfl .statement

theorem catchClauses (h : Yields (.phrase .catchClauses) ts) :
    ∀ t ∈ ts, ∃ cs, t = .branch .catchClause none cs :=
  h.forall_of_items rfl rfl .node

theorem expressions (h : Yields (.phrase .expressions) ts) : ∀ t ∈ ts, t.IsExpression none := by
  intro t ht
  have ht := h.within Bounds.expression_closed rfl t ht
  exact ⟨ht.field_eq_none fun _ => rfl, ht.isExpressive fun _ hk => hk⟩

end Yields

/-- What a plain node has as children. -/
theorem Yields.isExpressive_of_isPlain {k : NodeKind} {r : JavaRule} {ts : List Tree}
    (h : Yields r ts) (hr : shapeOf? k = some r) (hk : k.isPlain) : ∀ t ∈ ts, t.isExpressive := by
  intro t ht
  have hmem : (.node k, r) ∈ grammar.rules := by
    cases k with
    | program => cases hk
    | _ => exact mem_rules_of_ruleOf? hr
  have ht := h.within Bounds.plain_closed (Bounds.plain_admits _ hmem hk) t ht
  exact ht.isExpressive fun _ hk => hk

/-! ## Single kinds -/

namespace Yields
open Java.Tree

variable {r : JavaRule} {ts : List Tree}

theorem ternary (h : Yields r ts) (hr : shapeOf? .ternary = some r) :
    ∃ c l a m b, ts = [c, mark l, a, mark m, b] ∧ c.IsExpression (some .condition) ∧
      a.IsExpression (some .consequence) ∧ b.IsExpression (some .alternative) := by
  cases hr
  obtain ⟨c, _, rfl, hc, h₁⟩ := (yields_grouped.mp (yields_level.mp h)).cons .label_expression
  obtain ⟨_, _, rfl, ⟨l, rfl⟩, h₂⟩ := h₁.cons .token
  obtain ⟨a, _, rfl, ha, h₃⟩ := h₂.cons .label_expression
  obtain ⟨_, _, rfl, ⟨m, rfl⟩, h₄⟩ := h₃.cons .token
  obtain ⟨b, rfl, hb⟩ := YieldsOne.label_expression _ h₄
  exact ⟨c, l, a, m, b, rfl, hc, ha, hb⟩

theorem switch (h : Yields r ts) (hr : shapeOf? .switch = some r) :
    ∃ l ps bs, ts = [mark l, branch .parenthesized (some .condition) ps,
      branch .switchBlock (some .body) bs] := by
  cases hr
  obtain ⟨_, _, rfl, ⟨l, rfl⟩, h₁⟩ := h.cons .token
  obtain ⟨_, _, rfl, ⟨ps, rfl⟩, h₂⟩ := h₁.cons .label_node
  obtain ⟨_, rfl, bs, rfl⟩ := YieldsOne.label_node _ h₂
  exact ⟨l, ps, bs, rfl⟩

theorem ifStatement (h : Yields r ts) (hr : shapeOf? .ifStatement = some r) :
    ∃ l ps a us, ts = mark l :: branch .parenthesized (some .condition) ps :: a :: us ∧
      a.IsStatement (some .consequence) ∧
      (us = [] ∨ ∃ m b, us = [mark m, b] ∧ b.IsStatement (some .alternative)) := by
  cases hr
  obtain ⟨_, _, rfl, ⟨l, rfl⟩, h₁⟩ := (yields_grouped.mp h).cons .token
  obtain ⟨_, _, rfl, ⟨ps, rfl⟩, h₂⟩ := h₁.cons .label_node
  obtain ⟨a, us, rfl, ha, h₃⟩ := h₂.cons .label_statement
  refine ⟨l, ps, a, us, rfl, ha, ?_⟩
  rcases yields_alt.mp h₃ with h₄ | h₄
  · obtain ⟨_, _, rfl, ⟨m, rfl⟩, h₅⟩ := h₄.cons .token
    obtain ⟨b, rfl, hb⟩ := YieldsOne.label_statement _ h₅
    exact .inr ⟨m, b, rfl, hb⟩
  · exact .inl (yields_empty.mp h₄)

theorem whileStatement (h : Yields r ts) (hr : shapeOf? .whileStatement = some r) :
    ∃ l ps b, ts = [mark l, branch .parenthesized (some .condition) ps, b] ∧
      b.IsStatement (some .body) := by
  cases hr
  obtain ⟨_, _, rfl, ⟨l, rfl⟩, h₁⟩ := h.cons .token
  obtain ⟨_, _, rfl, ⟨ps, rfl⟩, h₂⟩ := h₁.cons .label_node
  obtain ⟨b, rfl, hb⟩ := YieldsOne.label_statement _ h₂
  exact ⟨l, ps, b, rfl, hb⟩

theorem doStatement (h : Yields r ts) (hr : shapeOf? .doStatement = some r) :
    ∃ l b m ps n,
      ts = [mark l, b, mark m, branch .parenthesized (some .condition) ps, mark n] ∧
      b.IsStatement (some .body) := by
  cases hr
  obtain ⟨_, _, rfl, ⟨l, rfl⟩, h₁⟩ := h.cons .token
  obtain ⟨b, _, rfl, hb, h₂⟩ := h₁.cons .label_statement
  obtain ⟨_, _, rfl, ⟨m, rfl⟩, h₃⟩ := h₂.cons .token
  obtain ⟨_, _, rfl, ⟨ps, rfl⟩, h₄⟩ := h₃.cons .label_node
  obtain ⟨_, rfl, n, rfl⟩ := YieldsOne.token _ h₄
  exact ⟨l, b, m, ps, n, rfl, hb⟩

theorem labeledStatement (h : Yields r ts) (hr : shapeOf? .labeledStatement = some r) :
    ∃ l m s, ts = [leaf .identifier none l, mark m, s] ∧ s.IsStatement none := by
  cases hr
  obtain ⟨_, _, rfl, ⟨l, rfl⟩, h₁⟩ := h.cons .token
  obtain ⟨_, _, rfl, ⟨m, rfl⟩, h₂⟩ := h₁.cons .token
  obtain ⟨s, rfl, hs⟩ := YieldsOne.statement _ h₂
  exact ⟨l, m, s, rfl, hs⟩

theorem throwStatement (h : Yields r ts) (hr : shapeOf? .throwStatement = some r) :
    ∃ l e m, ts = [mark l, e, mark m] ∧ e.IsExpression none := by
  cases hr
  obtain ⟨_, _, rfl, ⟨l, rfl⟩, h₁⟩ := h.cons .token
  obtain ⟨e, _, rfl, he, h₂⟩ := h₁.cons .expression
  obtain ⟨_, rfl, m, rfl⟩ := YieldsOne.token _ h₂
  exact ⟨l, e, m, rfl, he⟩

theorem synchronizedStatement (h : Yields r ts)
    (hr : shapeOf? .synchronizedStatement = some r) :
    ∃ l ps bs, ts =
      [mark l, branch .parenthesized none ps, branch .block (some .body) bs] := by
  cases hr
  obtain ⟨_, _, rfl, ⟨l, rfl⟩, h₁⟩ := h.cons .token
  obtain ⟨_, _, rfl, ⟨ps, rfl⟩, h₂⟩ := h₁.cons .node
  obtain ⟨_, rfl, bs, rfl⟩ := YieldsOne.label_node _ h₂
  exact ⟨l, ps, bs, rfl⟩

theorem catchClause (h : Yields r ts) (hr : shapeOf? .catchClause = some r) :
    ∃ l m ps n bs, ts = [mark l, mark m, branch .catchFormalParameter none ps, mark n,
      branch .block (some .body) bs] := by
  cases hr
  obtain ⟨_, _, rfl, ⟨l, rfl⟩, h₁⟩ := h.cons .token
  obtain ⟨_, _, rfl, ⟨m, rfl⟩, h₂⟩ := h₁.cons .token
  obtain ⟨_, _, rfl, ⟨ps, rfl⟩, h₃⟩ := h₂.cons .node
  obtain ⟨_, _, rfl, ⟨n, rfl⟩, h₄⟩ := h₃.cons .token
  obtain ⟨_, rfl, bs, rfl⟩ := YieldsOne.label_node _ h₄
  exact ⟨l, m, ps, n, bs, rfl⟩

theorem finallyClause (h : Yields r ts) (hr : shapeOf? .finallyClause = some r) :
    ∃ l bs, ts = [mark l, branch .block none bs] := by
  cases hr
  obtain ⟨_, _, rfl, ⟨l, rfl⟩, h₁⟩ := h.cons .token
  obtain ⟨_, rfl, bs, rfl⟩ := YieldsOne.node _ h₁
  exact ⟨l, bs, rfl⟩

/-- A rule with an arrow has one label, and behind the arrow one node that is a statement. -/
theorem switchRule_parts (h : Yields r ts) (hr : shapeOf? .switchRule = some r) :
    ∃ ls l k cs, ts = [branch .switchLabel none ls, mark l, branch k none cs] ∧ k.isStatement := by
  cases hr
  obtain ⟨_, _, rfl, ⟨ls, rfl⟩, h₁⟩ := h.cons .node
  obtain ⟨_, _, rfl, ⟨l, rfl⟩, h₂⟩ := h₁.cons .token
  refine ⟨ls, l, ?_⟩
  rcases yields_alt.mp h₂ with h₃ | h₃
  · obtain ⟨_, rfl, cs, rfl⟩ := YieldsOne.node _ h₃
    exact ⟨_, cs, rfl, rfl⟩
  rcases yields_alt.mp h₃ with h₄ | h₄
  · obtain ⟨_, rfl, cs, rfl⟩ := YieldsOne.node _ h₄
    exact ⟨_, cs, rfl, rfl⟩
  · obtain ⟨_, rfl, cs, rfl⟩ := YieldsOne.node _ h₄
    exact ⟨_, cs, rfl, rfl⟩

theorem switchRule (h : Yields r ts) (hr : shapeOf? .switchRule = some r) :
    ∃ ls l s, ts = [branch .switchLabel none ls, mark l, s] ∧ s.IsStatement none := by
  obtain ⟨ls, l, k, cs, rfl, hk⟩ := h.switchRule_parts hr
  exact ⟨ls, l, _, rfl, rfl, hk⟩

theorem lambda (h : Yields r ts) (hr : shapeOf? .lambda = some r) :
    ∃ p l b, ts = [p, mark l, b] ∧ p.field = some .parameters ∧ Bounds.signature.Holds p ∧
      (b.IsExpression (some .body) ∨ ∃ cs, b = branch .block (some .body) cs) := by
  cases hr
  obtain ⟨p, _, rfl, ⟨hp, hsignature⟩, h₁⟩ := h.cons (.label_signature rfl rfl rfl)
  obtain ⟨_, _, rfl, ⟨l, rfl⟩, h₂⟩ := h₁.cons .token
  obtain ⟨us, hus, rfl⟩ := yields_label.mp h₂
  rcases yields_alt.mp hus with hus | hus
  · obtain ⟨b, rfl, hb⟩ := YieldsOne.expression _ hus
    exact ⟨p, l, _, rfl, hp, hsignature, .inl hb.inRole⟩
  · obtain ⟨cs, rfl⟩ := yields_node.mp hus
    exact ⟨p, l, _, rfl, hp, hsignature, .inr ⟨cs, rfl⟩⟩

/-- Rules between braces. -/
theorem braces {a : JavaRule} (h : Yields (Rules.braces [a]) ts) :
    ∃ l us m, ts = mark l :: us ++ [mark m] ∧ Yields a us := by
  obtain ⟨_, _, rfl, ⟨l, rfl⟩, h₁⟩ := cons h .token
  obtain ⟨us, vs, rfl, hus, h₂⟩ := yields_seq.mp h₁
  obtain ⟨_, rfl, m, rfl⟩ := YieldsOne.token _ h₂
  exact ⟨l, us, m, rfl, hus⟩

/-- Statements or none. -/
theorem maybe_statements (h : Yields (Rules.maybe .statements) ts) :
    ∀ t ∈ ts, t.IsStatement none := by
  rcases yields_alt.mp h with h | h
  · exact h.statements
  · rw [yields_empty.mp h]
    simp

theorem block {k : NodeKind} (h : Yields r ts) (hr : shapeOf? k = some r) (hk : k.isBlock) :
    ∃ l us m, ts = mark l :: us ++ [mark m] ∧ ∀ t ∈ us, t.IsStatement none := by
  cases k with
  | block =>
    cases hr
    obtain ⟨l, us, m, rfl, h₁⟩ := braces h
    exact ⟨l, us, m, rfl, maybe_statements h₁⟩
  | constructorBody =>
    cases hr
    obtain ⟨_, _, rfl, ⟨l, rfl⟩, h₁⟩ := cons h .token
    obtain ⟨us, _, rfl, hus, h₂⟩ := yields_seq.mp h₁
    obtain ⟨vs, _, rfl, hvs, h₃⟩ := yields_seq.mp h₂
    obtain ⟨_, rfl, m, rfl⟩ := YieldsOne.token _ h₃
    refine ⟨l, us ++ vs, m, congrArg (mark l :: ·) (List.append_assoc ..).symm, fun t ht => ?_⟩
    rcases List.mem_append.mp ht with ht | ht
    -- a call of another constructor stands before all statements
    · rcases yields_alt.mp hus with h₄ | h₄
      · obtain ⟨cs, rfl⟩ := yields_node.mp h₄
        rw [List.mem_singleton.mp ht]
        exact ⟨rfl, rfl⟩
      · rw [yields_empty.mp h₄] at ht
        cases ht
    · exact maybe_statements hvs t ht
  | _ => cases hk

theorem switchBlock (h : Yields r ts) (hr : shapeOf? .switchBlock = some r) :
    ∃ l us m, ts = mark l :: us ++ [mark m] ∧
      ∀ t ∈ us, (∃ cs, t = branch .switchGroup none cs) ∨ ∃ cs, t = branch .switchRule none cs := by
  cases hr
  obtain ⟨l, us, m, rfl, h₁⟩ := braces h
  refine ⟨l, us, m, rfl, fun t ht => ?_⟩
  rcases yields_alt.mp h₁ with h₂ | h₂
  · rw [yields_empty.mp h₂] at ht
    cases ht
  rcases yields_alt.mp h₂ with h₃ | h₃
  · exact .inl (h₃.forall_of_items rfl rfl .node t ht)
  · exact .inr (h₃.forall_of_items rfl rfl .node t ht)

/-- A group begins with labels, at least one, each with a colon. The statements stand behind all of
them. -/
theorem switchGroup_parts (h : Yields r ts) (hr : shapeOf? .switchGroup = some r) :
    ∃ parts us, ts = parts.flatten ++ us ∧ parts ≠ [] ∧
      (∀ p ∈ parts, ∃ ls l, p = [branch .switchLabel none ls, mark l]) ∧
      ∀ t ∈ us, t.IsStatement none := by
  cases hr
  obtain ⟨us, vs, rfl, h₁, h₂⟩ := yields_seq.mp (yields_grouped.mp h)
  obtain ⟨parts, hne, rfl, hparts⟩ := h₁.items rfl rfl
  refine ⟨parts, vs, rfl, hne, fun p hp => ?_, ?_⟩
  · obtain ⟨_, _, rfl, ⟨ls, rfl⟩, h₃⟩ := (hparts p hp).cons .node
    obtain ⟨_, rfl, l, rfl⟩ := YieldsOne.token _ h₃
    exact ⟨ls, l, rfl⟩
  · rcases yields_alt.mp h₂ with h₃ | h₃
    · exact h₃.statements
    · rw [yields_empty.mp h₃]
      simp

theorem switchGroup (h : Yields r ts) (hr : shapeOf? .switchGroup = some r) :
    ∃ ls us, ts = branch .switchLabel none ls :: us ∧
      ∀ t ∈ us, (∃ l, t = mark l) ∨ (∃ ls, t = branch .switchLabel none ls) ∨
        t.IsStatement none := by
  obtain ⟨parts, vs, rfl, hne, hpart, hvs⟩ := h.switchGroup_parts hr
  cases parts with
  | nil => exact absurd rfl hne
  | cons p ps =>
    obtain ⟨ls, l, rfl⟩ := hpart p (List.mem_cons_self ..)
    refine ⟨ls, mark l :: (ps.flatten ++ vs), rfl, fun t ht => ?_⟩
    rcases List.mem_cons.mp ht with rfl | ht
    · exact .inl ⟨l, rfl⟩
    rcases List.mem_append.mp ht with ht | ht
    · obtain ⟨q, hq, ht⟩ := List.mem_flatten.mp ht
      obtain ⟨ls, l, rfl⟩ := hpart q (List.mem_cons_of_mem _ hq)
      rcases List.mem_cons.mp ht with rfl | ht
      · exact .inr (.inl ⟨ls, rfl⟩)
      · exact .inl ⟨l, List.mem_singleton.mp ht⟩
    · exact .inr (.inr (hvs t ht))

theorem forStatement (h : Yields r ts) (hr : shapeOf? .forStatement = some r) :
    ∃ us b, ts = us ++ [b] ∧
      (∀ t ∈ us, t.isExpressive ∧ (t.field = none ∨ t.field = some .condition)) ∧
      b.IsStatement (some .body) := by
  cases hr
  obtain ⟨us, vs, rfl, hus, h₁⟩ := h.split Bounds.header_closed 7 (by decide) (by decide)
  obtain ⟨b, rfl, hb⟩ := YieldsOne.label_statement _ h₁
  refine ⟨us, b, rfl, fun t ht => ⟨?_, ?_⟩, hb⟩
  · exact (hus t ht).isExpressive fun _ hk => hk
  · cases hf : t.field with
    | none => exact .inl rfl
    | some f =>
      have hrole := (hus t ht).role f hf
      exact .inr (congrArg some (eq_of_beq hrole))

theorem enhancedForStatement (h : Yields r ts) (hr : shapeOf? .enhancedForStatement = some r) :
    ∃ us v m b, ts = us ++ [v, mark m, b] ∧ (∀ t ∈ us, Bounds.signature.Holds t) ∧
      v.IsExpression (some .value) ∧ b.IsStatement (some .body) := by
  cases hr
  obtain ⟨us, vs, rfl, hus, h₁⟩ := h.split Bounds.signature_closed 6 (by decide) (by decide)
  obtain ⟨v, _, rfl, hv, h₂⟩ := h₁.cons .label_expression
  obtain ⟨_, _, rfl, ⟨m, rfl⟩, h₃⟩ := h₂.cons .token
  obtain ⟨b, rfl, hb⟩ := YieldsOne.label_statement _ h₃
  exact ⟨us, v, m, b, rfl, hus, hv, hb⟩

/-- At most one tree has the role, and it has the property. The others make a signature. -/
structure IsHeaded (g : Field) (P : Tree → Prop) (ts : List Tree) : Prop where
  one : (ts.filter fun t => t.field == some g).length ≤ 1
  role : ∀ t ∈ ts, t.field = some g → P t
  signature : ∀ t ∈ ts, t.field ≠ some g → Bounds.signature.Holds t

/-- A signature, and perhaps one tree in the role behind it. -/
private theorem IsHeaded.of_append {g : Field} {P : Tree → Prop} {us : List Tree} {o : Option Tree}
    (hg : Bounds.signature.role g = false) (hus : ∀ t ∈ us, Bounds.signature.Holds t)
    (ho : ∀ t ∈ o, t.field = some g ∧ P t) : IsHeaded g P (us ++ o.toList) where
  one := by
    have hnone : us.filter (fun t => t.field == some g) = [] := by
      rw [List.filter_eq_nil_iff]
      intro t ht hrole
      exact (hus t ht).field_ne hg (eq_of_beq hrole)
    rw [List.filter_append, hnone, List.nil_append]
    exact Nat.le_trans (List.length_filter_le ..) Option.length_toList_le
  role t ht hrole := by
    rcases List.mem_append.mp ht with ht | ht
    · exact absurd hrole ((hus t ht).field_ne hg)
    · exact (ho t (Option.mem_toList.mp ht)).2
  signature t ht hrole := by
    rcases List.mem_append.mp ht with ht | ht
    · exact hus t ht
    · exact absurd (ho t (Option.mem_toList.mp ht)).1 hrole

/-- A token may stand between the signature and the tree in the role. -/
private theorem signature_append_mark {us : List Tree} (hus : ∀ t ∈ us, Bounds.signature.Holds t)
    (l : Lexeme) : ∀ t ∈ us ++ [mark l], Bounds.signature.Holds t := by
  intro t ht
  rcases List.mem_append.mp ht with ht | ht
  · exact hus t ht
  · exact List.mem_singleton.mp ht ▸ .leaf

/-- A method without a body ends with a semicolon. A constructor always has a body. -/
theorem callable {k : NodeKind} (h : Yields r ts) (hr : shapeOf? k = some r) (hk : k.isCallable) :
    IsHeaded .body (fun t => ∃ j cs, t = branch j (some .body) cs ∧ j.isBlock) ts := by
  cases k with
  | methodDeclaration =>
    cases hr
    obtain ⟨us, vs, rfl, hus, h₁⟩ := h.split Bounds.signature_closed 2 (by decide) (by decide)
    rcases yields_alt.mp h₁ with h₂ | h₂
    · obtain ⟨_, rfl, cs, rfl⟩ := YieldsOne.label_node _ h₂
      refine .of_append (o := some _) rfl hus ?_
      rintro _ ⟨⟩
      exact ⟨rfl, _, cs, rfl, rfl⟩
    · obtain ⟨_, rfl, l, rfl⟩ := YieldsOne.token _ h₂
      rw [← List.append_nil (us ++ _)]
      exact .of_append (o := none) rfl (signature_append_mark hus l) (by simp)
  | constructorDeclaration =>
    cases hr
    obtain ⟨us, vs, rfl, hus, h₁⟩ := h.split Bounds.signature_closed 3 (by decide) (by decide)
    obtain ⟨_, rfl, cs, rfl⟩ := YieldsOne.label_node _ h₁
    refine .of_append (o := some _) rfl hus ?_
    rintro _ ⟨⟩
    exact ⟨rfl, _, cs, rfl, rfl⟩
  | compactConstructorDeclaration =>
    cases hr
    obtain ⟨us, vs, rfl, hus, h₁⟩ := h.split Bounds.signature_closed 2 (by decide) (by decide)
    obtain ⟨_, rfl, cs, rfl⟩ := YieldsOne.label_node _ h₁
    refine .of_append (o := some _) rfl hus ?_
    rintro _ ⟨⟩
    exact ⟨rfl, _, cs, rfl, rfl⟩
  | _ => cases hk

theorem variableDeclarator (h : Yields r ts) (hr : shapeOf? .variableDeclarator = some r) :
    IsHeaded .value (fun t => t.isExpressive) ts := by
  cases hr
  obtain ⟨us, vs, rfl, hus, h₁⟩ := h.split Bounds.signature_closed 1 (by decide) (by decide)
  rcases yields_alt.mp h₁ with h₂ | h₂
  · obtain ⟨_, _, rfl, ⟨l, rfl⟩, h₃⟩ := h₂.cons .token
    obtain ⟨v, rfl, hv⟩ := YieldsOne.label_choice rfl rfl _ h₃
    rw [← List.singleton_append, ← List.append_assoc]
    refine .of_append (o := some v) rfl (signature_append_mark hus l) ?_
    rintro _ ⟨⟩
    exact ⟨hv.field, hv.expressive⟩
  · rw [yields_empty.mp h₂]
    exact .of_append (o := none) rfl hus (by simp)

theorem staticInitializer (h : Yields r ts) (hr : shapeOf? .staticInitializer = some r) :
    ∃ l bs, ts = [mark l, branch .block none bs] := by
  cases hr
  obtain ⟨_, _, rfl, ⟨l, rfl⟩, h₁⟩ := h.cons .token
  obtain ⟨_, rfl, bs, rfl⟩ := YieldsOne.node _ h₁
  exact ⟨l, bs, rfl⟩

/-- Handlers, and at most one clause of what is done at the end behind them. -/
def IsHandlers (ts : List Tree) : Prop :=
  ∃ hs fs, ts = hs ++ fs ∧ (∀ t ∈ hs, ∃ cs, t = branch .catchClause none cs) ∧
    (fs = [] ∨ ∃ cs, fs = [branch .finallyClause none cs])

theorem IsHandlers.field_eq_none {us : List Tree} (h : IsHandlers us) :
    ∀ t ∈ us, t.field = none := by
  obtain ⟨hs, fs, rfl, hhs, hfs⟩ := h
  intro t ht
  rcases List.mem_append.mp ht with ht | ht
  · obtain ⟨cs, rfl⟩ := hhs t ht
    rfl
  · rcases hfs with rfl | ⟨cs, rfl⟩
    · cases ht
    · rw [List.mem_singleton.mp ht]
      rfl

/-- Handlers or none. -/
theorem maybe_catchClauses (h : Yields (Rules.maybe .catchClauses) ts) :
    ∀ t ∈ ts, ∃ cs, t = branch .catchClause none cs := by
  rcases yields_alt.mp h with h | h
  · exact h.catchClauses
  · rw [yields_empty.mp h]
    simp

theorem tryStatement (h : Yields r ts) (hr : shapeOf? .tryStatement = some r) :
    ∃ l bs us, ts = mark l :: branch .block (some .body) bs :: us ∧ IsHandlers us := by
  cases hr
  obtain ⟨_, _, rfl, ⟨l, rfl⟩, h₁⟩ := h.cons .token
  obtain ⟨_, us, rfl, ⟨bs, rfl⟩, h₂⟩ := h₁.cons .label_node
  refine ⟨l, bs, us, rfl, ?_⟩
  rcases yields_alt.mp h₂ with h₃ | h₃
  · exact ⟨us, [], (List.append_nil us).symm, h₃.catchClauses, .inl rfl⟩
  · obtain ⟨hs, fs, rfl, h₄, h₅⟩ := yields_seq.mp h₃
    obtain ⟨_, rfl, cs, rfl⟩ := YieldsOne.node _ h₅
    exact ⟨hs, _, rfl, maybe_catchClauses h₄, .inr ⟨cs, rfl⟩⟩

theorem tryWithResources (h : Yields r ts) (hr : shapeOf? .tryWithResources = some r) :
    ∃ l rs bs us, ts = mark l :: branch .resourceSpecification (some .resources) rs ::
      branch .block (some .body) bs :: us ∧ IsHandlers us := by
  cases hr
  obtain ⟨_, _, rfl, ⟨l, rfl⟩, h₁⟩ := h.cons .token
  obtain ⟨_, _, rfl, ⟨rs, rfl⟩, h₂⟩ := h₁.cons .label_node
  obtain ⟨_, us, rfl, ⟨bs, rfl⟩, h₃⟩ := h₂.cons .label_node
  refine ⟨l, rs, bs, us, rfl, ?_⟩
  obtain ⟨hs, fs, rfl, h₄, h₅⟩ := yields_seq.mp h₃
  refine ⟨hs, fs, rfl, maybe_catchClauses h₄, ?_⟩
  rcases yields_alt.mp h₅ with h₆ | h₆
  · obtain ⟨_, rfl, cs, rfl⟩ := YieldsOne.node _ h₆
    exact .inr ⟨cs, rfl⟩
  · exact .inl (yields_empty.mp h₆)

end Yields

/-! ## With comments -/

namespace Tree
open Yields (IsHeaded)

/-- Comments have no role, so they belong to the signature. -/
private theorem isHeaded_of_withoutComments {g : Field} {P : Tree → Prop} {cs : List Tree}
    (hcomments : ∀ c ∈ cs, c.isComment → c.field = none) (h : IsHeaded g P (withoutComments cs)) :
    IsHeaded g P cs := by
  have hrole : ∀ c ∈ cs, c.field = some g → c ∈ withoutComments cs := by
    intro c hc hfield
    refine List.mem_filter.mpr ⟨hc, ?_⟩
    cases hcomment : c.isComment with
    | false => rfl
    | true =>
      rw [hcomments c hc hcomment] at hfield
      cases hfield
  refine ⟨?_, fun c hc hfield => h.role c (hrole c hc hfield) hfield, fun c hc hfield => ?_⟩
  · refine Nat.le_trans (Nat.le_of_eq (congrArg List.length ?_)) h.one
    rw [withoutComments, List.filter_filter]
    refine List.filter_congr fun c hc => ?_
    cases hcomment : c.isComment with
    | true => rw [hcomments c hc hcomment]; rfl
    | false => rw [Bool.not_false, Bool.and_true]
  · cases c with
    | leaf j g l =>
      cases hcomment : (leaf j g l).isComment with
      | true =>
        obtain rfl : g = none := hcomments _ hc hcomment
        exact .leaf
      | false => exact h.signature _ (List.mem_filter.mpr ⟨hc, by rw [hcomment]; rfl⟩) hfield
    | branch j g ds => exact h.signature _ (List.mem_filter.mpr ⟨hc, rfl⟩) hfield

variable {k : NodeKind} {f : Option Field} {cs : List Tree}

/-- The body of a method or of a constructor is a block. -/
theorem Conforms.callable (h : (Tree.branch k f cs).Conforms) (hk : k.isCallable) :
    IsHeaded .body (fun t => ∃ j bs, t = Tree.branch j (some .body) bs ∧ j.isBlock) cs := by
  cases h with
  | branch hr hyields hcomments _ =>
    exact isHeaded_of_withoutComments hcomments (hyields.callable hr hk)

/-- The value that a variable starts with is an expression. -/
theorem Conforms.variableDeclarator (h : (Tree.branch .variableDeclarator f cs).Conforms) :
    IsHeaded .value (fun t => t.isExpressive) cs := by
  cases h with
  | branch hr hyields hcomments _ =>
    exact isHeaded_of_withoutComments hcomments (hyields.variableDeclarator hr)

/-- The first child in a role has the property of the children in that role. -/
theorem of_child? {g : Field} {P : Tree → Prop} {b : Tree} (h : IsHeaded g P cs)
    (hb : (branch k f cs).child? g = some b) : b ∈ cs ∧ b.field = some g ∧ P b := by
  have hmem : b ∈ cs := List.mem_of_find?_eq_some hb
  have hrole : b.field = some g := by
    have hfound := List.find?_some hb
    exact eq_of_beq hfound
  exact ⟨hmem, hrole, h.role b hmem hrole⟩

end Tree

end CodeRisk.Java
