import CodeRisk.Proofs.Java.Derivation

/-!
# Trees that conform to the grammar

A tree conforms to the grammar if nothing in it was put in by a repair and, at every branch, the
children without the comments are yielded by the rule of the branch. So it has no node that marks an
error (`Tree.Conforms.hasError_eq_false`). Conforming goes over to all nodes of a tree.

`Tree.check` searches the rules for a derivation at every branch, up to a depth that is given. It
finds only trees that conform (`Tree.conforms_of_check`), which settles the question for concrete
trees.
-/
namespace CodeRisk.Java
open Grammar

/-- The rule for the children of a branch. The root holds what the grammar starts with, or
nothing. -/
def shapeOf? : NodeKind → Option JavaRule
  | .program => some (Rule.opt (.phrase grammar.start))
  | k => ruleOf? (.node k)

theorem shapeOf?_error : shapeOf? .error = none := rfl

namespace Tree

/-- The trees of a list that are no comments. -/
def withoutComments (cs : List Tree) : List Tree :=
  cs.filter fun c => !c.isComment

/-- The tree follows the grammar from here on downwards. Comments may stand anywhere. -/
inductive Conforms : Tree → Prop where
  | leaf {k : TokenKind} {f : Option Field} {l : Lexeme} (h : l.missing = false) :
      Conforms (.leaf k f l)
  | branch {k : NodeKind} {f : Option Field} {cs : List Tree} {r : JavaRule}
      (hr : shapeOf? k = some r) (hyields : Yields r (withoutComments cs))
      (hcomments : ∀ c ∈ cs, c.isComment → c.field = none) (hcs : ∀ c ∈ cs, Conforms c) :
      Conforms (.branch k f cs)

mutual

/-- All nodes of a tree, each before those below it. -/
def nodes : Tree → List Tree
  | t@(.leaf ..) => [t]
  | t@(.branch _ _ cs) => t :: forestNodes cs

/-- All nodes of the trees of a list. -/
def forestNodes : List Tree → List Tree
  | [] => []
  | t :: ts => t.nodes ++ forestNodes ts

end

theorem forestNodes_eq (ts : List Tree) : forestNodes ts = ts.flatMap nodes := by
  induction ts with
  | nil => rfl
  | cons t ts ih => rw [forestNodes, ih, List.flatMap_cons]

theorem nodes_branch (k : NodeKind) (f : Option Field) (cs : List Tree) :
    (branch k f cs).nodes = branch k f cs :: cs.flatMap nodes := by
  rw [nodes, forestNodes_eq]

theorem self_mem_nodes (t : Tree) : t ∈ t.nodes := by
  cases t with
  | leaf k f l => exact List.mem_cons_self ..
  | branch k f cs =>
    rw [nodes_branch]
    exact List.mem_cons_self ..

theorem mem_nodes_of_mem_children {t c n : Tree} (hc : c ∈ t.children) (hn : n ∈ c.nodes) :
    n ∈ t.nodes := by
  cases t with
  | leaf k f l => cases hc
  | branch k f cs =>
    rw [nodes_branch]
    exact List.mem_cons_of_mem _ (List.mem_flatMap.mpr ⟨c, hc, hn⟩)

mutual

/-- A node below a node of a tree is a node of the tree. -/
theorem mem_nodes_trans {n m : Tree} (hm : m ∈ n.nodes) : (t : Tree) → n ∈ t.nodes → m ∈ t.nodes
  | .leaf .., hn => by
    rw [nodes, List.mem_singleton] at hn
    exact hn ▸ hm
  | .branch k f cs, hn => by
    rw [nodes] at hn ⊢
    rcases List.mem_cons.mp hn with rfl | hn
    · rwa [nodes] at hm
    · exact List.mem_cons_of_mem _ (mem_forestNodes_trans hm cs hn)

/-- A node below a node of the trees of a list is a node of these trees. -/
theorem mem_forestNodes_trans {n m : Tree} (hm : m ∈ n.nodes) :
    (ts : List Tree) → n ∈ forestNodes ts → m ∈ forestNodes ts
  | [], hn => absurd hn List.not_mem_nil
  | t :: ts, hn => by
    rw [forestNodes, List.mem_append] at hn ⊢
    exact hn.imp (mem_nodes_trans hm t) (mem_forestNodes_trans hm ts)

end

theorem mem_nodes_of_child {t n c : Tree} (hn : n ∈ t.nodes) (hc : c ∈ n.children) : c ∈ t.nodes :=
  mem_nodes_trans (mem_nodes_of_mem_children hc c.self_mem_nodes) t hn

namespace Conforms

/-- Every node of a conforming tree conforms. -/
theorem of_mem_nodes {t n : Tree} (h : t.Conforms) (hn : n ∈ t.nodes) : n.Conforms := by
  induction h with
  | leaf h =>
    rw [List.mem_singleton.mp hn]
    exact .leaf h
  | branch hr hyields hcomments hcs ih =>
    rw [nodes_branch] at hn
    rcases List.mem_cons.mp hn with rfl | hn
    · exact .branch hr hyields hcomments hcs
    · obtain ⟨c, hc, hn⟩ := List.mem_flatMap.mp hn
      exact ih c hc hn

theorem forestHasError_eq (ts : List Tree) : forestHasError ts = ts.any hasError := by
  induction ts with
  | nil => rfl
  | cons t ts ih => rw [forestHasError, ih, List.any_cons]

/-- Nothing in a conforming tree marks an error. -/
theorem hasError_eq_false {t : Tree} (h : t.Conforms) : t.hasError = false := by
  induction h with
  | leaf h => exact h
  | @branch k f cs r hr _ _ _ ih =>
    have hk : (k == .error) = false := by
      by_cases hk : k = .error
      · subst hk
        rw [shapeOf?_error] at hr
        cases hr
      · exact beq_false_of_ne hk
    rw [hasError, hk, Bool.false_or, forestHasError_eq, List.any_eq_false]
    intro c hc
    rw [ih c hc]
    exact Bool.false_ne_true

end Conforms

end Tree

/-! ## Search for derivations -/

namespace Tree

/-- A tree in the role, without the role. -/
def outOfRole? (f : Field) : Tree → Option Tree
  | .leaf k (some g) l => if g = f then some (.leaf k none l) else none
  | .branch k (some g) cs => if g = f then some (.branch k none cs) else none
  | _ => none

/-- An identifier that is shown under the kind, as an identifier. -/
def unshown? (k : TokenKind) : Tree → Option Tree
  | .leaf j none l => if j = k then some (.leaf .identifier none l) else none
  | _ => none

theorem inRole_of_outOfRole? {f : Field} {t u : Tree} (h : t.outOfRole? f = some u) :
    u.inRole f = t := by
  unfold outOfRole? at h
  split at h
  · split at h <;> cases h
    simp_all [inRole]
  · split at h <;> cases h
    simp_all [inRole]
  · cases h

theorem shownAs_of_unshown? {k : TokenKind} {t u : Tree} (h : t.unshown? k = some u) :
    u.shownAs k = t := by
  unfold unshown? at h
  split at h
  · split at h <;> cases h
    simp_all [shownAs]
  · cases h

end Tree

/-- The list without its first tree, if that tree has a derivation on its own in the form in which
it was before `back?`. -/
def restsBehind (back? : Tree → Option Tree) (rests : List Tree → List (List Tree)) :
    List Tree → List (List Tree)
  | [] => []
  | t :: ts =>
    match back? t with
    | some u => if (rests [u]).any List.isEmpty then [ts] else []
    | none => []

/-- The list without its first tree, if that is a leaf of the kind without a role. -/
def restsBehindLeaf (k : TokenKind) : List Tree → List (List Tree)
  | .leaf j none _ :: ts => if j = k then [ts] else []
  | _ => []

/-- The list without its first tree, if that is a branch of the kind without a role. -/
def restsBehindBranch (k : NodeKind) : List Tree → List (List Tree)
  | .branch j none _ :: ts => if j = k then [ts] else []
  | _ => []

/-- What is left of a list after each derivation of a rule from its beginning, if `sub` answers the
same question for hidden phrases. -/
def restsWith (sub : Phrase → List Tree → List (List Tree)) :
    JavaRule → List Tree → List (List Tree)
  | .terminal t, ts => restsBehindLeaf t.kind ts
  | .phrase (.node k), ts => restsBehindBranch k ts
  | .phrase p, ts => sub p ts
  | .empty, ts => [ts]
  | .seq a b, ts => (restsWith sub a ts).flatMap (restsWith sub b)
  | .alt a b, ts => restsWith sub a ts ++ restsWith sub b ts
  | .label f r, ts =>
    restsBehind (Tree.outOfRole? f) (restsWith sub r) ts ++
      if (restsWith sub r []).any List.isEmpty then [ts] else []
  | .shown k r, ts => restsBehind (Tree.unshown? k) (restsWith sub r) ts
  | .level _ r, ts | .grouped _ r, ts | .weight _ r, ts => restsWith sub r ts

/-- What is left of a list after each derivation of a rule from its beginning that goes through no
more than `fuel` hidden phrases inside each other. -/
def rests : Nat → JavaRule → List Tree → List (List Tree)
  | 0, r => restsWith (fun _ _ => []) r
  | fuel + 1, r =>
    restsWith
      (fun p ts => if p.isHidden then (ruleOf? p).toList.flatMap (rests fuel · ts) else []) r

/-- The rule yields what stands before each of the rests. -/
def SoundAt (r : JavaRule) (rests : List Tree → List (List Tree)) : Prop :=
  ∀ ts rest, rest ∈ rests ts → ∃ us, ts = us ++ rest ∧ Yields r us

theorem SoundAt.behind {r : JavaRule} {rests : List Tree → List (List Tree)} (h : SoundAt r rests)
    {back? : Tree → Option Tree} {ts rest : List Tree} (hrest : rest ∈ restsBehind back? rests ts) :
    ∃ t u, ts = t :: rest ∧ back? t = some u ∧ Yields r [u] := by
  cases ts with
  | nil => cases hrest
  | cons t ts =>
    rw [restsBehind] at hrest
    cases hu : back? t with
    | none =>
      rw [hu] at hrest
      cases hrest
    | some u =>
      rw [hu] at hrest
      simp only [List.mem_ite_nil_right, List.any_eq_true, List.isEmpty_iff, List.mem_singleton]
        at hrest
      obtain ⟨⟨ws, hws, rfl⟩, rfl⟩ := hrest
      obtain ⟨vs, hvs, hyields⟩ := h _ _ hws
      rw [List.append_nil] at hvs
      exact ⟨t, u, rfl, hu, hvs ▸ hyields⟩

theorem eq_cons_of_mem_restsBehindLeaf {k : TokenKind} {ts rest : List Tree}
    (h : rest ∈ restsBehindLeaf k ts) : ∃ l, ts = .leaf k none l :: rest := by
  unfold restsBehindLeaf at h
  split at h
  · obtain ⟨rfl, hrest⟩ := List.mem_ite_nil_right.mp h
    exact ⟨_, congrArg _ (List.mem_singleton.mp hrest).symm⟩
  · cases h

theorem eq_cons_of_mem_restsBehindBranch {k : NodeKind} {ts rest : List Tree}
    (h : rest ∈ restsBehindBranch k ts) : ∃ cs, ts = .branch k none cs :: rest := by
  unfold restsBehindBranch at h
  split at h
  · obtain ⟨rfl, hrest⟩ := List.mem_ite_nil_right.mp h
    exact ⟨_, congrArg _ (List.mem_singleton.mp hrest).symm⟩
  · cases h

theorem restsWith_sound {sub : Phrase → List Tree → List (List Tree)}
    (hsub : ∀ p, p.isHidden → SoundAt (.phrase p) (sub p)) (r : JavaRule) :
    SoundAt r (restsWith sub r) := by
  induction r with
  | terminal t =>
    intro ts rest h
    obtain ⟨l, rfl⟩ := eq_cons_of_mem_restsBehindLeaf h
    exact ⟨[_], rfl, .terminal t l⟩
  | phrase p =>
    intro ts rest h
    by_cases hp : p.isHidden
    · refine hsub p hp ts rest ?_
      cases p with
      | node k => cases hp
      | _ => exact h
    · cases p with
      | node k =>
        obtain ⟨cs, rfl⟩ := eq_cons_of_mem_restsBehindBranch h
        exact ⟨[_], rfl, .node k cs⟩
      | _ => exact absurd rfl hp
  | empty =>
    intro ts rest h
    exact ⟨[], (List.mem_singleton.mp h).symm, .empty⟩
  | seq a b iha ihb =>
    intro ts rest h
    obtain ⟨middle, hmiddle, hrest⟩ := List.mem_flatMap.mp h
    obtain ⟨us, rfl, ha⟩ := iha ts middle hmiddle
    obtain ⟨vs, rfl, hb⟩ := ihb middle rest hrest
    exact ⟨us ++ vs, (List.append_assoc ..).symm, .seq ha hb⟩
  | alt a b iha ihb =>
    intro ts rest h
    rcases List.mem_append.mp h with h | h
    · obtain ⟨us, hts, ha⟩ := iha ts rest h
      exact ⟨us, hts, .left ha⟩
    · obtain ⟨us, hts, hb⟩ := ihb ts rest h
      exact ⟨us, hts, .right hb⟩
  | label f r ih =>
    intro ts rest h
    rcases List.mem_append.mp h with h | h
    · obtain ⟨t, u, rfl, hu, hyields⟩ := ih.behind h
      refine ⟨[t], rfl, ?_⟩
      rw [← Tree.inRole_of_outOfRole? hu]
      exact .label hyields
    · simp only [List.mem_ite_nil_right, List.any_eq_true, List.isEmpty_iff,
        List.mem_singleton] at h
      obtain ⟨⟨ws, hws, rfl⟩, rfl⟩ := h
      obtain ⟨us, hus, hyields⟩ := ih _ _ hws
      obtain ⟨rfl, -⟩ := List.append_eq_nil_iff.mp hus.symm
      exact ⟨[], rfl, .label hyields⟩
  | shown k r ih =>
    intro ts rest h
    obtain ⟨t, u, rfl, hu, hyields⟩ := ih.behind h
    refine ⟨[t], rfl, ?_⟩
    rw [← Tree.shownAs_of_unshown? hu]
    exact .shown hyields
  | level n r ih =>
    intro ts rest h
    obtain ⟨us, hts, hyields⟩ := ih ts rest h
    exact ⟨us, hts, .level hyields⟩
  | grouped s r ih =>
    intro ts rest h
    obtain ⟨us, hts, hyields⟩ := ih ts rest h
    exact ⟨us, hts, .grouped hyields⟩
  | weight n r ih =>
    intro ts rest h
    obtain ⟨us, hts, hyields⟩ := ih ts rest h
    exact ⟨us, hts, .weight hyields⟩

theorem rests_sound (fuel : Nat) (r : JavaRule) : SoundAt r (rests fuel r) := by
  induction fuel generalizing r with
  | zero => exact restsWith_sound (fun p _ ts rest h => absurd h List.not_mem_nil) r
  | succ fuel ih =>
    refine restsWith_sound (fun p hp ts rest h => ?_) r
    rw [if_pos hp] at h
    obtain ⟨rule, hrule, hrest⟩ := List.mem_flatMap.mp h
    obtain ⟨us, hts, hyields⟩ := ih rule ts rest hrest
    exact ⟨us, hts, .phrase hp (Option.mem_toList.mp hrule) hyields⟩

namespace Tree

mutual

/-- Whether a derivation through at most `fuel` hidden phrases is found at every branch. -/
def check (fuel : Nat) : Tree → Bool
  | .leaf _ _ l => !l.missing
  | .branch k _ cs =>
    (shapeOf? k).any (fun r => (rests fuel r (withoutComments cs)).any List.isEmpty) &&
      cs.all (fun c => !c.isComment || c.field.isNone) && forestCheck fuel cs

/-- Whether all trees of a list pass the check. -/
def forestCheck (fuel : Nat) : List Tree → Bool
  | [] => true
  | t :: ts => t.check fuel && forestCheck fuel ts

end

mutual

/-- A tree that passes the check conforms to the grammar. -/
theorem conforms_of_check (fuel : Nat) : (t : Tree) → t.check fuel → t.Conforms
  | .leaf _ _ l, h => .leaf (by simpa [check] using h)
  | .branch k f cs, h => by
    rw [check, Bool.and_eq_true, Bool.and_eq_true, Option.any_eq_true, List.all_eq_true] at h
    obtain ⟨⟨⟨r, hr, hyields⟩, hcomments⟩, hcs⟩ := h
    obtain ⟨rest, hrest, hempty⟩ := List.any_eq_true.mp hyields
    obtain ⟨us, hus, hyields⟩ := rests_sound fuel r _ _ hrest
    rw [List.isEmpty_iff.mp hempty, List.append_nil] at hus
    refine .branch hr (hus ▸ hyields) ?_ (forest_conforms_of_check fuel cs hcs)
    intro c hc hcomment
    simpa [hcomment] using hcomments c hc

theorem forest_conforms_of_check (fuel : Nat) : (ts : List Tree) → forestCheck fuel ts →
    ∀ t ∈ ts, t.Conforms
  | [], _ => by simp
  | t :: ts, h => by
    obtain ⟨ht, hts⟩ := Bool.and_eq_true_iff.mp h
    intro u hu
    rcases List.mem_cons.mp hu with hu | hu
    · rw [hu]
      exact conforms_of_check fuel t ht
    · exact forest_conforms_of_check fuel ts hts u hu

end

end Tree

end CodeRisk.Java
