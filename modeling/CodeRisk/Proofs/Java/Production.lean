import CodeRisk.Java.Reader
import CodeRisk.Proofs.Java.Conform

/-!
# What a production yields

A reader knows the rules of the grammar as productions, plain sequences of steps. Each step has a
symbol and says in which role and under which kind the trees of the symbol are shown. What the steps
of a production yield, one after the other, is yielded by the rule that the production comes from
(`Yields.of_production`): a label or a kind that a rule gives to all its trees has been handed down
to the single steps, and the bindings of the steps make no difference.
-/
namespace CodeRisk.Java
open Grammar

/-- A step of a production of the grammar. -/
abbrev JavaStep := Step Terminal Phrase Field TokenKind

namespace Tree

@[simp] theorem inRole_inRole (f g : Field) (t : Tree) : (t.inRole g).inRole f = t.inRole g := by
  cases t <;> rfl

@[simp] theorem shownAs_shownAs (k j : TokenKind) (t : Tree) :
    (t.shownAs j).shownAs k = t.shownAs k := by
  cases t <;> rfl

theorem shownAs_inRole (k : TokenKind) (f : Field) (t : Tree) :
    (t.inRole f).shownAs k = (t.shownAs k).inRole f := by
  cases t <;> rfl

@[simp] theorem hasError_inRole (f : Field) (t : Tree) : (t.inRole f).hasError = t.hasError := by
  cases t <;> rfl

@[simp] theorem hasError_shownAs (k : TokenKind) (t : Tree) :
    (t.shownAs k).hasError = t.hasError := by
  cases t <;> rfl

@[simp] theorem isComment_inRole (f : Field) (t : Tree) : (t.inRole f).isComment = t.isComment := by
  cases t <;> rfl

theorem isComment_shownAs {k : TokenKind} {t : Tree} (hk : k.isComment = false) :
    (t.shownAs k).isComment = false := by
  cases t with
  | leaf => exact hk
  | branch => rfl

theorem Conforms.inRole {t : Tree} (h : t.Conforms) (f : Field) : (t.inRole f).Conforms := by
  cases h with
  | leaf h => exact .leaf h
  | branch hr hyields hcomments hcs => exact .branch hr hyields hcomments hcs

theorem Conforms.shownAs {t : Tree} (h : t.Conforms) (k : TokenKind) :
    (t.shownAs k).Conforms := by
  cases h with
  | leaf h => exact .leaf h
  | branch hr hyields hcomments hcs => exact .branch hr hyields hcomments hcs

/-- The tree in the role and under the kind that a step gives it. -/
def dressed (s : JavaStep) (t : Tree) : Tree :=
  let t := match s.shown with
    | some k => t.shownAs k
    | none => t
  match s.label with
  | some f => t.inRole f
  | none => t

theorem dress_eq (s : JavaStep) (ts : List Tree) : Reader.dress s ts = ts.map (dressed s) := by
  unfold Reader.dress dressed
  cases s.shown <;> cases s.label <;> simp

section Dressed
variable {s : JavaStep} {t : Tree}

theorem map_dressed_of_bare (hlabel : s.label = none) (hshown : s.shown = none) (ts : List Tree) :
    ts.map (dressed s) = ts := by
  have hdressed (t : Tree) : t.dressed s = t := by rw [dressed, hlabel, hshown]
  rw [List.map_congr_left fun t _ => hdressed t, List.map_id']

@[simp] theorem hasError_dressed : (t.dressed s).hasError = t.hasError := by
  unfold dressed
  cases s.shown <;> cases s.label <;> simp

theorem forestHasError_map_dressed (ts : List Tree) :
    forestHasError (ts.map (dressed s)) = forestHasError ts := by
  induction ts with
  | nil => rfl
  | cons t ts ih => rw [List.map_cons, forestHasError, forestHasError, hasError_dressed, ih]

theorem Conforms.dressed (h : t.Conforms) : (t.dressed s).Conforms := by
  unfold Tree.dressed
  cases s.shown with
  | none =>
    cases s.label with
    | none => exact h
    | some f => exact h.inRole f
  | some k =>
    cases s.label with
    | none => exact h.shownAs k
    | some f => exact (h.shownAs k).inRole f

theorem isComment_dressed (hs : ∀ k ∈ s.shown, k.isComment = false) (ht : t.isComment = false) :
    (t.dressed s).isComment = false := by
  unfold dressed
  cases hshown : s.shown with
  | none => cases s.label <;> simpa using ht
  | some k =>
    have hk : (t.shownAs k).isComment = false := isComment_shownAs (hs k hshown)
    cases s.label <;> simpa using hk

end Dressed

end Tree

/-! ## Steps -/

/-- The rule that a symbol stands for. -/
def ruleOfSymbol : Grammar.Symbol Terminal Phrase → JavaRule
  | .terminal t => .terminal t
  | .phrase p => .phrase p

/-- The lists of trees that the steps of a production yield. -/
inductive StepsYield : List JavaStep → List Tree → Prop where
  | nil : StepsYield [] []
  | cons {s : JavaStep} {ss : List JavaStep} {ts us : List Tree}
      (h : Yields (ruleOfSymbol s.symbol) ts) (hs : StepsYield ss us) :
      StepsYield (s :: ss) (ts.map (Tree.dressed s) ++ us)

namespace StepsYield
variable {ss : List JavaStep} {ts : List Tree}

theorem eq_nil (h : StepsYield [] ts) : ts = [] := by
  cases h
  rfl

/-- A single step without a role and a kind of its own. -/
theorem of_bare {s : JavaStep} (hlabel : s.label = none) (hshown : s.shown = none)
    (h : StepsYield [s] ts) : Yields (ruleOfSymbol s.symbol) ts := by
  cases h with
  | cons hus hvs =>
    rw [Tree.map_dressed_of_bare hlabel hshown, hvs.eq_nil, List.append_nil]
    exact hus

theorem of_append {ss' : List JavaStep} (h : StepsYield (ss ++ ss') ts) :
    ∃ us vs, ts = us ++ vs ∧ StepsYield ss us ∧ StepsYield ss' vs := by
  induction ss generalizing ts with
  | nil => exact ⟨[], ts, rfl, .nil, h⟩
  | cons s ss ih =>
    cases h with
    | cons hs hss =>
      obtain ⟨us, vs, rfl, hus, hvs⟩ := ih hss
      exact ⟨_, vs, (List.append_assoc ..).symm, .cons hs hus, hvs⟩

/-- What is done to every step can be done to every tree instead. -/
theorem of_map {g : JavaStep → JavaStep} {u : Tree → Tree} (h : StepsYield (ss.map g) ts)
    (hsymbol : ∀ s, (g s).symbol = s.symbol)
    (hdressed : ∀ s t, Tree.dressed (g s) t = u (Tree.dressed s t)) :
    ∃ us, StepsYield ss us ∧ ts = us.map u := by
  induction ss generalizing ts with
  | nil => exact ⟨[], .nil, h.eq_nil⟩
  | cons s ss ih =>
    cases h with
    | @cons _ _ ts' us' hs hss =>
      obtain ⟨us, hus, rfl⟩ := ih hss
      rw [hsymbol] at hs
      refine ⟨_, .cons hs hus, ?_⟩
      rw [List.map_append, List.map_map, List.map_congr_left fun t _ => hdressed s t]
      rfl

/-- A step that has a label keeps it, and so does its tree. -/
theorem of_label {f : Field}
    (h : StepsYield (ss.map fun s => { s with label := some (s.label.getD f) }) ts) :
    ∃ us, StepsYield ss us ∧ ts = us.map (Tree.inRole f) := by
  refine h.of_map (fun _ => rfl) fun s t => ?_
  unfold Tree.dressed
  cases s.label <;> simp

/-- Of two kinds the outer one is shown. -/
theorem of_shown {k : TokenKind} (h : StepsYield (ss.map fun s => { s with shown := some k }) ts) :
    ∃ us, StepsYield ss us ∧ ts = us.map (Tree.shownAs k) := by
  refine h.of_map (fun _ => rfl) fun s t => ?_
  unfold Tree.dressed
  cases s.shown <;> cases s.label <;> simp [Tree.shownAs_inRole]

/-- The binding of the last step makes no difference. -/
theorem of_rebind {f : Binding → Binding} {x : Expansion Terminal Phrase Field TokenKind}
    (h : StepsYield (x.rebind f).steps ts) : StepsYield x.steps ts := by
  obtain ⟨ss, n⟩ := x
  change StepsYield (Expansion.mapLast (fun s => { s with binding := f s.binding }) ss) ts at h
  change StepsYield ss ts
  induction ss generalizing ts with
  | nil => exact h
  | cons s ss ih =>
    cases ss with
    | nil =>
      cases h with
      | cons hs hss => exact .cons (s := s) hs hss
    | cons s' ss =>
      cases h with
      | cons hs hss => exact .cons hs (ih hss)

end StepsYield

/-! ## Rules and their productions -/

/-- **A rule yields what its expansions yield.** -/
theorem Yields.of_expansion {r : JavaRule} {outer : Binding} {final : Bool}
    {x : Expansion Terminal Phrase Field TokenKind} {ts : List Tree}
    (hx : x ∈ r.expansions outer final) (h : StepsYield x.steps ts) : Yields r ts := by
  induction r generalizing outer final x ts with
  | terminal t =>
    obtain rfl := List.mem_singleton.mp hx
    exact h.of_bare rfl rfl
  | phrase p =>
    obtain rfl := List.mem_singleton.mp hx
    exact h.of_bare rfl rfl
  | empty =>
    obtain rfl := List.mem_singleton.mp hx
    rw [h.eq_nil]
    exact .empty
  | seq a b iha ihb =>
    obtain ⟨y, hy, hx⟩ := List.mem_flatMap.mp hx
    obtain ⟨z, hz, rfl⟩ := List.mem_map.mp hx
    obtain ⟨us, vs, rfl, hus, hvs⟩ := h.of_append
    exact .seq (iha hy hus) (ihb hz hvs)
  | alt a b iha ihb =>
    rcases List.mem_append.mp hx with hx | hx
    · exact .left (iha hx h)
    · exact .right (ihb hx h)
  | label f a ih =>
    obtain ⟨y, hy, rfl⟩ := List.mem_map.mp hx
    obtain ⟨us, hus, rfl⟩ := h.of_label
    exact .label (ih hy hus)
  | shown k a ih =>
    obtain ⟨y, hy, rfl⟩ := List.mem_map.mp hx
    obtain ⟨us, hus, rfl⟩ := h.of_shown
    exact .shown (ih hy hus)
  | level n a ih =>
    obtain ⟨y, hy, rfl⟩ := List.mem_map.mp hx
    split at h
    · exact .level (ih hy h)
    · exact .level (ih hy h.of_rebind)
  | grouped d a ih =>
    obtain ⟨y, hy, rfl⟩ := List.mem_map.mp hx
    split at h
    · exact .grouped (ih hy h)
    · exact .grouped (ih hy h.of_rebind)
  | weight n a ih =>
    obtain ⟨y, hy, rfl⟩ := List.mem_map.mp hx
    exact .weight (ih hy h)

/-- The place of the phrase in a list of all phrases. -/
def Phrase.number : Phrase → Nat
  | .node k => 100 + k.ctorIdx
  | p => p.ctorIdx

/-- Whether the numbers of a list are new, each after those before it. The numbers that have been
seen are the bits of a number. -/
def areNew (seen : Nat) : List Nat → Bool
  | [] => true
  | n :: ns => !seen.testBit n && areNew (seen ||| 1 <<< n) ns

theorem nodup_of_areNew {seen : Nat} {ns : List Nat} (h : areNew seen ns) :
    ns.Nodup ∧ ∀ n ∈ ns, seen.testBit n = false := by
  induction ns generalizing seen with
  | nil => exact ⟨.nil, nofun⟩
  | cons n ns ih =>
    obtain ⟨hn, hns⟩ := Bool.and_eq_true_iff.mp h
    obtain ⟨hnodup, hseen⟩ := ih hns
    have hfresh (m : Nat) (hm : m ∈ ns) : seen.testBit m = false ∧ m ≠ n := by
      have hbit := hseen m hm
      rw [Nat.testBit_or, Bool.or_eq_false_iff] at hbit
      refine ⟨hbit.1, ?_⟩
      rintro rfl
      simp at hbit
    refine ⟨List.nodup_cons.mpr ⟨fun hmem => (hfresh n hmem).2 rfl, hnodup⟩, fun m hm => ?_⟩
    rcases List.mem_cons.mp hm with rfl | hm
    · simpa using hn
    · exact (hfresh m hm).1

/-- No phrase has two rules. -/
theorem nodup_phrases : (grammar.rules.map Prod.fst).Nodup := by
  have hnumbers : areNew 0 ((grammar.rules.map Prod.fst).map Phrase.number) := by
    decide +kernel
  exact List.Pairwise.of_map _ (fun _ _ => mt (congrArg _)) (nodup_of_areNew hnumbers).1

theorem ruleOf?_of_mem {p : Phrase} {r : JavaRule} (h : (p, r) ∈ grammar.rules) :
    ruleOf? p = some r := by
  obtain ⟨before, after, hrules⟩ := List.append_of_mem h
  refine List.lookup_eq_some_iff.mpr ⟨before, after, hrules, fun x hx => ?_⟩
  have hnodup := nodup_phrases
  rw [hrules, List.map_append, List.map_cons, List.nodup_append] at hnodup
  have hne : x.1 ≠ p := hnodup.2.2 x.1 (List.mem_map_of_mem hx) p (List.mem_cons_self ..)
  simpa using hne.symm

/-- **A production yields what the rule of its phrase yields.** -/
theorem Yields.of_production {p : Production Terminal Phrase Field TokenKind} {ts : List Tree}
    (hp : p ∈ grammar.productions) (h : StepsYield p.steps ts) :
    ∃ r, ruleOf? p.phrase = some r ∧ Yields r ts := by
  obtain ⟨⟨q, r⟩, hrule, hp⟩ := List.mem_flatMap.mp hp
  obtain ⟨x, hx, rfl⟩ := List.mem_map.mp hp
  exact ⟨r, ruleOf?_of_mem hrule, .of_expansion hx h⟩

/-! ## Steps that are dressed -/

/-- Whether each reading of the phrase is one tree. -/
def Phrase.isOne : Phrase → Bool
  | .node _ | .expression | .primary | .literal | .reservedIdentifier | .statement | .declaration
  | .elementValue | .annotationItem => true
  | _ => false

/-- Whether each reading of the symbol is one tree. -/
def isOneTree : Grammar.Symbol Terminal Phrase → Bool
  | .terminal _ => true
  | .phrase p => p.isOne

/-- Whether the step gives a role or a kind to single trees only, and never makes them comments. -/
def isFitting (s : JavaStep) : Bool :=
  (s.label.isNone && s.shown.isNone || isOneTree s.symbol) && s.shown.all fun k => !k.isComment

/-- Whether the production is one step to one tree. -/
def isStraight (p : Production Terminal Phrase Field TokenKind) : Bool :=
  match p.steps with
  | [s] => isOneTree s.symbol
  | _ => false

theorem isFitting_of_mem : ∀ p ∈ grammar.productions, ∀ s ∈ p.steps, isFitting s := by
  decide +kernel

theorem isStraight_of_isOne :
    ∀ p ∈ grammar.productions, p.phrase.isHidden → p.phrase.isOne → isStraight p := by
  decide +kernel

end CodeRisk.Java
