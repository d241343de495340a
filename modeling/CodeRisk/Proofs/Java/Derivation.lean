import CodeRisk.Java.Grammar
import CodeRisk.Java.Tree

/-!
# Trees that the grammar derives

A rule of the grammar says which lists of trees may stand side by side as the children of a node.
`Yields` is this reading of the rules: a terminal yields a leaf, the phrase of a node yields one
branch, and a phrase without a node of its own yields what its rule yields.

Two facts about a rule reach through all phrases it mentions, and a check of the whole grammar
gives both: which kinds and roles can come up in what the rule yields (`Yields.within`), and
whether what it yields is one tree (`Yields.eq_singleton`). What a list phrase yields is item
after item (`Yields.items`).
-/
namespace CodeRisk.Java
open Grammar

/-- Whether the parts of the phrase become parts of the phrase around it. -/
def Phrase.isHidden : Phrase → Bool
  | .node _ => false
  | _ => true

/-- The rule of a phrase. -/
def ruleOf? (p : Phrase) : Option JavaRule :=
  grammar.rules.lookup p

/-- The lists of trees that a rule yields. -/
inductive Yields : JavaRule → List Tree → Prop where
  | terminal (t : Terminal) (l : Lexeme) : Yields (.terminal t) [.leaf t.kind none l]
  | node (k : NodeKind) (cs : List Tree) : Yields (.phrase (.node k)) [.branch k none cs]
  | phrase {p : Phrase} {r : JavaRule} {ts : List Tree} (hp : p.isHidden)
      (hr : ruleOf? p = some r) (h : Yields r ts) : Yields (.phrase p) ts
  | empty : Yields .empty []
  | seq {a b : JavaRule} {ts us : List Tree} (ha : Yields a ts) (hb : Yields b us) :
      Yields (.seq a b) (ts ++ us)
  | left {a b : JavaRule} {ts : List Tree} (h : Yields a ts) : Yields (.alt a b) ts
  | right {a b : JavaRule} {ts : List Tree} (h : Yields b ts) : Yields (.alt a b) ts
  | label {f : Field} {r : JavaRule} {ts : List Tree} (h : Yields r ts) :
      Yields (.label f r) (ts.map (Tree.inRole f))
  | shown {k : TokenKind} {r : JavaRule} {ts : List Tree} (h : Yields r ts) :
      Yields (.shown k r) (ts.map (Tree.shownAs k))
  | level {n : Int} {r : JavaRule} {ts : List Tree} (h : Yields r ts) : Yields (.level n r) ts
  | grouped {s : Side} {r : JavaRule} {ts : List Tree} (h : Yields r ts) : Yields (.grouped s r) ts
  | weight {n : Nat} {r : JavaRule} {ts : List Tree} (h : Yields r ts) : Yields (.weight n r) ts

/-! ## What each form of rule yields -/

section Forms
variable {a b r : JavaRule} {ts : List Tree}

theorem yields_terminal {t : Terminal} :
    Yields (.terminal t) ts ↔ ∃ l, ts = [.leaf t.kind none l] := by
  constructor
  · rintro ⟨⟩
    exact ⟨_, rfl⟩
  · rintro ⟨l, rfl⟩
    exact .terminal t l

theorem yields_node {k : NodeKind} :
    Yields (.phrase (.node k)) ts ↔ ∃ cs, ts = [.branch k none cs] := by
  constructor
  · intro h
    cases h with
    | node k cs => exact ⟨cs, rfl⟩
    | phrase hp => cases hp
  · rintro ⟨cs, rfl⟩
    exact .node k cs

theorem yields_empty : Yields .empty ts ↔ ts = [] := by
  constructor
  · rintro ⟨⟩
    rfl
  · rintro rfl
    exact .empty

theorem yields_seq :
    Yields (.seq a b) ts ↔ ∃ us vs, ts = us ++ vs ∧ Yields a us ∧ Yields b vs := by
  constructor
  · rintro (_ | _)
    exact ⟨_, _, rfl, ‹_›, ‹_›⟩
  · rintro ⟨us, vs, rfl, ha, hb⟩
    exact .seq ha hb

theorem yields_alt : Yields (.alt a b) ts ↔ Yields a ts ∨ Yields b ts := by
  constructor
  · intro h
    cases h with
    | left h => exact .inl h
    | right h => exact .inr h
  · rintro (h | h)
    · exact .left h
    · exact .right h

theorem yields_label {f : Field} :
    Yields (.label f r) ts ↔ ∃ us, Yields r us ∧ ts = us.map (Tree.inRole f) := by
  constructor
  · rintro (_ | _)
    exact ⟨_, ‹_›, rfl⟩
  · rintro ⟨us, h, rfl⟩
    exact .label h

theorem yields_shown {k : TokenKind} :
    Yields (.shown k r) ts ↔ ∃ us, Yields r us ∧ ts = us.map (Tree.shownAs k) := by
  constructor
  · rintro (_ | _)
    exact ⟨_, ‹_›, rfl⟩
  · rintro ⟨us, h, rfl⟩
    exact .shown h

/-- A phrase without a node of its own yields what its rule yields. -/
theorem yields_phrase {p : Phrase} (hp : p.isHidden) (hr : ruleOf? p = some r) :
    Yields (.phrase p) ts ↔ Yields r ts := by
  constructor
  · intro h
    cases h with
    | node => cases hp
    | phrase _ hr' h =>
      rw [hr, Option.some.injEq] at hr'
      exact hr' ▸ h
  · exact .phrase hp hr

theorem yields_level {n : Int} : Yields (.level n r) ts ↔ Yields r ts := by
  constructor
  · rintro (_ | _)
    assumption
  · exact .level

theorem yields_grouped {s : Side} : Yields (.grouped s r) ts ↔ Yields r ts := by
  constructor
  · rintro (_ | _)
    assumption
  · exact .grouped

end Forms

/-! ## Lists -/

section Lists
variable {p : Phrase} {item : JavaRule} {ts : List Tree}

/-- A derivation of a list goes through the phrase itself, its rule, and the longer form of its
rule; all three come down to items, one after the other. -/
private theorem items_of_yields (hp : p.isHidden) (hr : ruleOf? p = some (Rule.listOf p item))
    {r : JavaRule} (h : Yields r ts)
    (hform : r = .phrase p ∨ r = Rule.listOf p item ∨ r = .seq (.phrase p) item) :
    ∃ parts : List (List Tree), parts ≠ [] ∧ ts = parts.flatten ∧ ∀ us ∈ parts, Yields item us := by
  induction h with
  | node k cs =>
    rcases hform with h | h | h <;> cases h
    cases hp
  | phrase hq hrq _ ih =>
    rcases hform with h | h | h <;> cases h
    rw [hr, Option.some.injEq] at hrq
    exact ih (.inr (.inl hrq.symm))
  | @seq a b us vs _ hb iha _ =>
    rcases hform with h | h | h <;> cases h
    obtain ⟨parts, hne, rfl, hparts⟩ := iha (.inl rfl)
    refine ⟨parts ++ [vs], by simp, by simp, ?_⟩
    intro ws hws
    rcases List.mem_append.mp hws with hws | hws
    · exact hparts ws hws
    · exact List.mem_singleton.mp hws ▸ hb
  | @left a b us ha _ =>
    rcases hform with h | h | h <;> cases h
    refine ⟨[us], by simp, by simp, ?_⟩
    intro ws hws
    exact List.mem_singleton.mp hws ▸ ha
  | right _ ih =>
    rcases hform with h | h | h <;> cases h
    exact ih (.inr (.inr rfl))
  | _ => rcases hform with h | h | h <;> cases h

/-- A list phrase yields one or more items, one after the other. -/
theorem Yields.items (hp : p.isHidden) (hr : ruleOf? p = some (Rule.listOf p item))
    (h : Yields (.phrase p) ts) :
    ∃ parts : List (List Tree), parts ≠ [] ∧ ts = parts.flatten ∧ ∀ us ∈ parts, Yields item us :=
  items_of_yields hp hr h (.inl rfl)

variable {separator : JavaRule}

/-- The derivation of a list with separators is taken apart in the same way. -/
private theorem itemsBy_of_yields (hp : p.isHidden)
    (hr : ruleOf? p = some (Rule.listBy separator p item)) {r : JavaRule} (h : Yields r ts)
    (hform : r = .phrase p ∨ r = Rule.listBy separator p item ∨
      r = .seq (.phrase p) (.seq separator item)) :
    ∃ (first : List Tree) (rest : List (List Tree × List Tree)),
      ts = first ++ rest.flatMap (fun x => x.1 ++ x.2) ∧ Yields item first ∧
        ∀ x ∈ rest, Yields separator x.1 ∧ Yields item x.2 := by
  induction h with
  | node k cs =>
    rcases hform with h | h | h <;> cases h
    cases hp
  | phrase hq hrq _ ih =>
    rcases hform with h | h | h <;> cases h
    rw [hr, Option.some.injEq] at hrq
    exact ih (.inr (.inl hrq.symm))
  | @seq a b us vs _ hb iha _ =>
    rcases hform with h | h | h <;> cases h
    obtain ⟨first, rest, rfl, hfirst, hrest⟩ := iha (.inl rfl)
    obtain ⟨ws, xs, rfl, hws, hxs⟩ := yields_seq.mp hb
    refine ⟨first, rest ++ [(ws, xs)], by simp, hfirst, ?_⟩
    intro x hx
    rcases List.mem_append.mp hx with hx | hx
    · exact hrest x hx
    · exact List.mem_singleton.mp hx ▸ ⟨hws, hxs⟩
  | @left a b us ha _ =>
    rcases hform with h | h | h <;> cases h
    exact ⟨us, [], by simp, ha, nofun⟩
  | right _ ih =>
    rcases hform with h | h | h <;> cases h
    exact ih (.inr (.inr rfl))
  | _ => rcases hform with h | h | h <;> cases h

/-- A list phrase with separators yields an item, and then separators and items in turn. -/
theorem Yields.itemsBy (hp : p.isHidden) (hr : ruleOf? p = some (Rule.listBy separator p item))
    (h : Yields (.phrase p) ts) :
    ∃ (first : List Tree) (rest : List (List Tree × List Tree)),
      ts = first ++ rest.flatMap (fun x => x.1 ++ x.2) ∧ Yields item first ∧
        ∀ x ∈ rest, Yields separator x.1 ∧ Yields item x.2 :=
  itemsBy_of_yields hp hr h (.inl rfl)

end Lists

/-! ## Kinds and roles -/

/-- Some phrases and some roles. -/
structure Bounds where
  phrase : Phrase → Bool
  role : Field → Bool

namespace Bounds

/-- Whether a rule mentions phrases and roles within the bounds only. -/
def admits (b : Bounds) : JavaRule → Bool
  | .terminal _ | .empty => true
  | .phrase p => b.phrase p
  | .seq x y | .alt x y => b.admits x && b.admits y
  | .label f r => b.role f && b.admits r
  | .shown _ r | .level _ r | .grouped _ r | .weight _ r => b.admits r

/-- The rules of all hidden phrases within the bounds stay within the bounds. -/
def Closed (b : Bounds) : Prop :=
  ∀ x ∈ grammar.rules, x.1.isHidden → b.phrase x.1 → b.admits x.2

instance (b : Bounds) : Decidable b.Closed :=
  inferInstanceAs (Decidable (∀ x ∈ grammar.rules,
    x.1.isHidden = true → b.phrase x.1 = true → b.admits x.2 = true))

/-- The kind of a branch and the role of a tree are within the bounds. -/
structure Holds (b : Bounds) (t : Tree) : Prop where
  role : ∀ f, t.field = some f → b.role f
  kind : ∀ k f cs, t = .branch k f cs → b.phrase (.node k)

variable {b : Bounds} {t : Tree}

theorem Holds.leaf {k : TokenKind} {l : Lexeme} : b.Holds (.leaf k none l) where
  role := by simp [Tree.field]
  kind := by simp

theorem Holds.branch {k : NodeKind} {cs : List Tree} (h : b.phrase (.node k)) :
    b.Holds (.branch k none cs) where
  role := by simp [Tree.field]
  kind := by
    rintro j f ds ⟨⟩
    exact h

theorem Holds.inRole {f : Field} (h : b.Holds t) (hf : b.role f) : b.Holds (t.inRole f) := by
  cases t with
  | leaf k g l =>
    refine ⟨?_, by simp [Tree.inRole]⟩
    cases g with
    | none => simpa [Tree.inRole, Tree.field] using hf
    | some g => simpa [Tree.inRole, Tree.field] using h.role g rfl
  | branch k g cs =>
    refine ⟨?_, ?_⟩
    · cases g with
      | none => simpa [Tree.inRole, Tree.field] using hf
      | some g => simpa [Tree.inRole, Tree.field] using h.role g rfl
    · rintro j f ds ⟨⟩
      exact h.kind k g cs rfl

theorem Holds.shownAs {k : TokenKind} (h : b.Holds t) : b.Holds (t.shownAs k) := by
  cases t with
  | leaf j g l => exact ⟨h.role, by simp [Tree.shownAs]⟩
  | branch j g cs => exact h

end Bounds

theorem mem_rules_of_ruleOf? {p : Phrase} {r : JavaRule} (h : ruleOf? p = some r) :
    (p, r) ∈ grammar.rules := by
  obtain ⟨before, after, hrules, -⟩ := List.lookup_eq_some_iff.mp h
  rw [hrules]
  exact List.mem_append_right _ (List.mem_cons_self ..)

/-- All that a rule within closed bounds yields is within the bounds. -/
theorem Yields.within {b : Bounds} {r : JavaRule} {ts : List Tree} (h : Yields r ts)
    (hb : b.Closed) (hr : b.admits r) : ∀ t ∈ ts, b.Holds t := by
  induction h with
  | terminal t l =>
    intro t ht
    rw [List.mem_singleton.mp ht]
    exact .leaf
  | node k cs =>
    intro t ht
    rw [List.mem_singleton.mp ht]
    exact .branch hr
  | phrase hp hrule _ ih => exact ih (hb _ (mem_rules_of_ruleOf? hrule) hp hr)
  | empty => simp
  | seq _ _ iha ihb =>
    obtain ⟨hx, hy⟩ := Bool.and_eq_true_iff.mp hr
    intro t ht
    rcases List.mem_append.mp ht with ht | ht
    · exact iha hx t ht
    · exact ihb hy t ht
  | left _ ih => exact ih (Bool.and_eq_true_iff.mp hr).1
  | right _ ih => exact ih (Bool.and_eq_true_iff.mp hr).2
  | label _ ih =>
    obtain ⟨hf, hr⟩ := Bool.and_eq_true_iff.mp hr
    intro t ht
    obtain ⟨u, hu, rfl⟩ := List.mem_map.mp ht
    exact (ih hr u hu).inRole hf
  | shown _ ih =>
    intro t ht
    obtain ⟨u, hu, rfl⟩ := List.mem_map.mp ht
    exact (ih hr u hu).shownAs
  | level _ ih => exact ih hr
  | grouped _ ih => exact ih hr
  | weight _ ih => exact ih hr

/-! ## Single trees -/

/-- Whether a rule yields one tree, if the given hidden phrases do. -/
def isSingle (single : Phrase → Bool) : JavaRule → Bool
  | .terminal _ => true
  | .phrase p => !p.isHidden || single p
  | .empty | .seq _ _ => false
  | .alt x y => isSingle single x && isSingle single y
  | .label _ r | .shown _ r | .level _ r | .grouped _ r | .weight _ r => isSingle single r

/-- A rule that is made of alternatives only yields one tree. -/
theorem Yields.eq_singleton {single : Phrase → Bool} {r : JavaRule} {ts : List Tree}
    (h : Yields r ts) (hrules : ∀ x ∈ grammar.rules, single x.1 → isSingle single x.2)
    (hr : isSingle single r) : ∃ t, ts = [t] := by
  induction h with
  | terminal t l => exact ⟨_, rfl⟩
  | node k cs => exact ⟨_, rfl⟩
  | phrase hp hrule _ ih =>
    rw [isSingle, hp] at hr
    exact ih (hrules _ (mem_rules_of_ruleOf? hrule) hr)
  | empty => cases hr
  | seq => cases hr
  | left _ ih => exact ih (Bool.and_eq_true_iff.mp hr).1
  | right _ ih => exact ih (Bool.and_eq_true_iff.mp hr).2
  | label _ ih =>
    obtain ⟨t, rfl⟩ := ih hr
    exact ⟨_, rfl⟩
  | shown _ ih =>
    obtain ⟨t, rfl⟩ := ih hr
    exact ⟨_, rfl⟩
  | level _ ih => exact ih hr
  | grouped _ ih => exact ih hr
  | weight _ ih => exact ih hr

end CodeRisk.Java
