import CodeRisk.Proofs.Lowering.Place
import Mathlib.Data.List.Flatten

/-!
# Branches that are declared

What a file declares is all that is below the body of a type, or below a method or a constructor
(`Java.Tree.declaredSites`). Nothing else is in code (`Java.Tree.codeSites_sublist`). The converse
depends on what stands between the body of a type and the next code: names, types and modifiers, and
the few nodes that hold expressions although no code is looked for in them
(`Java.NodeKind.isBlind`). If there is nothing of interest in these, all that is declared is in code
(`Java.Tree.declaredSites_eq`).
-/
namespace CodeRisk
open Java (Tree Site NodeKind Field)

namespace Java

namespace NodeKind

/-- Whether what is below the node is declared. -/
def declares : NodeKind → Bool
  | enumBody => true
  | k => k.isCallable || k.holdsMembers

/-- Whether the node can hold expressions outside code: the arguments of an annotation, a constant
of an enumeration, the type of an annotation, a parameter for any number of values, or a label of a
switch. -/
def isBlind : NodeKind → Bool
  | annotationArguments | enumConstant | annotationTypeDeclaration | spreadParameter
  | switchLabel => true
  | _ => false

/-- Whether the node can stand outside code where things are declared. -/
def isOuter (k : NodeKind) : Bool :=
  k.isDeclarative || k == .switchLabel

theorem isOuter_of_isApart {k : NodeKind} (h : k.isApart) : k.isOuter := by
  cases k <;> first | rfl | cases h

end NodeKind

namespace Bounds

/-- What can come up below a body with members. -/
def members : Bounds where
  phrase
    | .node .block | .node .staticInitializer | .node .fieldDeclaration
    | .node .constantDeclaration | .classMembers | .interfaceMembers => true
    | p => declaration.phrase p
  role _ := true

/-- What can come up below a declaration of fields. -/
def fields : Bounds where
  phrase
    | .node .variableDeclarator | .declarators => true
    | p => declaration.phrase p
  role _ := true

theorem members_closed : members.Closed := by decide +kernel

theorem fields_closed : fields.Closed := by decide +kernel

theorem members_admits : ∀ x ∈ grammar.rules,
    x.1.hasKind NodeKind.holdsMembers → members.admits x.2 := by
  decide +kernel

theorem fields_admits : ∀ x ∈ grammar.rules,
    x.1.hasKind (fun k => k == .fieldDeclaration || k == .constantDeclaration) →
      fields.admits x.2 := by
  decide +kernel

theorem declaration_admits : ∀ x ∈ grammar.rules,
    x.1.hasKind (fun k => k.isOuter && !k.isBlind && !k.isCallable && !k.holdsMembers) →
      declaration.admits x.2 := by
  decide +kernel

end Bounds

namespace Tree

/-- The marked sites that are declared. -/
def declaredSites (inside : Bool) (p : NodeKind) (t : Tree) : List Site :=
  t.visibleSites (fun inside s => inside || s.parent.declares) id inside p

variable {m : CodePlace} {p k : NodeKind} {f : Option Field} {cs : List Tree} {inside : Bool}

theorem declaredSites_branch :
    (branch k f cs).declaredSites inside p =
      (if inside then [Site.mk p (branch k f cs)].filter Site.isMarked else []) ++
        cs.flatMap fun c => c.declaredSites (inside || k.declares) k :=
  visibleSites_branch

/-! ## What is in code is declared -/

/-- Code begins where things are declared. -/
theorem declares_of_next {c : Tree} (h : CodePlace.outside.next ⟨k, c⟩ ≠ .outside) :
    k.declares := by
  rw [CodePlace.next, CodePlace.below] at h
  by_cases hcallable : k.isCallable
  · cases k <;> first | rfl | cases hcallable
  by_cases hmembers : k.holdsMembers
  · cases k <;> first | rfl | cases hmembers
  rw [if_neg hcallable, if_neg hmembers, ite_self] at h
  exact absurd rfl h

/-- **Nothing is in code that is not declared.** -/
theorem codeSites_sublist {t : Tree} (h : t.Conforms) (m : CodePlace) (p : NodeKind) (inside : Bool)
    (hm : m ≠ .outside → inside) : (t.codeSites m p).Sublist (t.declaredSites inside p) := by
  induction h generalizing m p inside with
  | leaf => exact .refl _
  | @branch k f cs _ _ _ _ _ ih =>
    rw [codeSites_branch, declaredSites_branch]
    refine List.Sublist.append ?_ ?_
    · cases m with
      | code => rw [hm (by simp)]; exact .refl _
      | _ => exact List.nil_sublist _
    · refine List.Sublist.flatMap_right cs fun c hc => ih c hc _ _ _ fun hnext => ?_
      cases m with
      | outside => rw [declares_of_next hnext, Bool.or_true]
      | _ => rw [hm (by simp), Bool.true_or]

/-! ## Nodes outside code -/

theorem isMarked_eq_false (hswitch : k ≠ .switch) (hk : k.construct? = none) :
    Site.isMarked ⟨p, branch k f cs⟩ = false := by
  rw [Site.isMarked, Site.construct?_branch hswitch, hk]
  rfl

/-- Nodes outside code are not marked. -/
theorem isMarked_of_isOuter (hk : k.isOuter) : Site.isMarked ⟨p, branch k f cs⟩ = false := by
  refine isMarked_eq_false ?_ ?_
  · rintro rfl
    cases hk
  · cases k <;> first | rfl | cases hk

theorem isOuter_of_signature {c : Tree} (h : Bounds.signature.Holds c) :
    c.fits NodeKind.isOuter := by
  cases c with
  | leaf => rfl
  | branch j g ds =>
    have hdeclarative : j.isDeclarative := h.kind j g ds rfl
    rw [fits, NodeKind.isOuter, hdeclarative, Bool.true_or]

/-- A node that does not count because of its role belongs to a signature. -/
theorem isOuter_of_isAside (h : (branch k f cs).Conforms) {c : Tree} (hc : c ∈ cs)
    (haside : Site.isAside ⟨k, c⟩) : c.fits NodeKind.isOuter := by
  cases c with
  | leaf => rfl
  | branch j g ds =>
    cases h with
    | branch hr hyields hcomments _ =>
      have hmem := branch_mem_withoutComments hc
      rw [Site.isAside, Bool.or_eq_true, Bool.and_eq_true, Bool.and_eq_true, Bool.and_eq_true]
        at haside
      rcases haside with ⟨hlambda, hrole⟩ | ⟨⟨hloop, hvalue⟩, hbody⟩
      · obtain rfl : k = .lambda := eq_of_beq hlambda
        obtain rfl : g = some .parameters := eq_of_beq hrole
        obtain ⟨q, l, b, hcs, -, hq, hb⟩ := hyields.lambda hr
        have hfield : b.field = some .body := by
          rcases hb with hb | ⟨bs, rfl⟩
          · exact hb.field
          · rfl
        rw [hcs] at hmem
        rcases List.mem_cons.mp hmem with rfl | hmem
        · exact isOuter_of_signature hq
        -- the body of the lambda has another role
        · obtain rfl : branch j (some .parameters) ds = b := by simpa [mark] using hmem
          cases hfield
      · obtain rfl : k = .enhancedForStatement := eq_of_beq hloop
        obtain ⟨us, v, l, b, hcs, hus, hv, hb⟩ := hyields.enhancedForStatement hr
        rw [hcs] at hmem
        rcases List.mem_append.mp hmem with hmem | hmem
        · exact isOuter_of_signature (hus _ hmem)
        · have hmem : branch j g ds = v ∨ branch j g ds = b := by simpa [mark] using hmem
          rcases hmem with rfl | rfl
          · simp [show g = some Field.value from hv.field] at hvalue
          · simp [show g = some Field.body from hb.field] at hbody

end Tree

/-- Whether the node can stand in the place where things are declared. -/
def CodePlace.Allows : CodePlace → Site → Prop
  | .outside, s => s.tree.fits NodeKind.isOuter
  | m, s => m.Admits s

theorem CodePlace.Allows.admits {m : CodePlace} {s : Site} (h : m.Allows s) : m.Admits s := by
  cases m with
  | outside => trivial
  | _ => exact h

namespace Tree
variable {m : CodePlace} {p k : NodeKind} {f : Option Field} {cs : List Tree}

/-- What is not in code below a node outside code, if the node is not blind. -/
theorem isOuter_of_below (h : (branch k f cs).Conforms) (houter : k.isOuter)
    (hblind : k.isBlind = false) {j : NodeKind} {g : Option Field} {ds : List Tree}
    (hc : branch j g ds ∈ cs) (hbelow : CodePlace.outside.below ⟨k, branch j g ds⟩ = .outside) :
    (branch j g ds).fits NodeKind.isOuter := by
  rw [CodePlace.below] at hbelow
  by_cases hcallable : k.isCallable
  · rw [if_pos hcallable] at hbelow
    refine isOuter_of_signature ((h.callable hcallable).signature _ hc fun hrole => ?_)
    rw [if_pos (beq_iff_eq.mpr hrole)] at hbelow
    cases hbelow
  rw [if_neg hcallable] at hbelow
  by_cases hmembers : k.holdsMembers
  · rw [if_pos hmembers] at hbelow
    have hphrase : Bounds.members.phrase (.node j) :=
      h.within Bounds.members_closed Bounds.members_admits hmembers
        (by rintro rfl; cases hmembers) _ hc
    cases j with
    | block | staticInitializer | fieldDeclaration | constantDeclaration => cases hbelow
    | _ => first | rfl | cases hphrase
  · have hphrase : Bounds.declaration.phrase (.node j) := by
      refine h.within Bounds.declaration_closed Bounds.declaration_admits ?_ ?_ _ hc
      · simp [houter, hblind, hcallable, hmembers]
      · rintro rfl
        cases houter
    exact (Bool.or_eq_true ..).mpr (.inl hphrase)

/-- What is outside code below a node that is not blind has no code around it. -/
theorem isOuter_of_next (h : (branch k f cs).Conforms) (hm : m.Allows ⟨p, branch k f cs⟩)
    (hblind : m = .outside → k.isBlind = false) {c : Tree} (hc : c ∈ cs)
    (hnext : m.next ⟨k, c⟩ = .outside) : c.fits NodeKind.isOuter := by
  cases c with
  | leaf => rfl
  | branch j g ds =>
  cases hapart : Site.isApart ⟨k, branch j g ds⟩ with
  | true =>
    rw [Site.isApart, Bool.or_eq_true] at hapart
    rcases hapart with hkind | haside
    · exact NodeKind.isOuter_of_isApart hkind
    · exact isOuter_of_isAside h hc haside
  | false =>
    rw [CodePlace.next_of_not_isApart hapart] at hnext
    cases m with
    | code => cases hnext
    | initializer =>
      obtain rfl : k = .staticInitializer := eq_of_beq hm
      cases h with
      | branch hr hyields _ _ =>
        obtain ⟨l, bs, hcs⟩ := hyields.staticInitializer hr
        have hmem := branch_mem_withoutComments hc
        rw [hcs] at hmem
        obtain ⟨rfl, rfl, rfl⟩ : j = .block ∧ g = none ∧ ds = bs := by simpa [mark] using hmem
        cases hnext
    | declarator =>
      obtain rfl : k = .variableDeclarator := eq_of_beq hm
      refine isOuter_of_signature (h.variableDeclarator.signature _ hc ?_)
      rintro rfl
      cases hnext
    | fields =>
      have hkind : (k == .fieldDeclaration || k == .constantDeclaration) = true := hm
      have hphrase : Bounds.fields.phrase (.node j) :=
        h.within Bounds.fields_closed Bounds.fields_admits hkind (by rintro rfl; cases hkind) _ hc
      cases j with
      | variableDeclarator => cases hnext
      | _ => first | rfl | cases hphrase
    | outside => exact isOuter_of_below h hm (hblind rfl) hc hnext

/-- Where things are declared, the children of a node that is not blind can stand in their
places. -/
theorem allows_next (h : (branch k f cs).Conforms) (hm : m.Allows ⟨p, branch k f cs⟩)
    (hblind : m = .outside → k.isBlind = false) {c : Tree} (hc : c ∈ cs) :
    (m.next ⟨k, c⟩).Allows ⟨k, c⟩ := by
  have hadmits := admits_next h hm.admits hc
  cases hnext : m.next ⟨k, c⟩ with
  | outside => exact isOuter_of_next h hm hblind hc hnext
  | _ =>
    rw [hnext] at hadmits
    exact hadmits

/-! ## What is declared is in code -/

/-- There is nothing of interest below the blind nodes of a tree, down to the next body of a
class. -/
def IsOpen (t : Tree) : Prop :=
  ∀ n ∈ t.nodes, n.hasKind NodeKind.isBlind → n.sitesBelow = []

/-- Where things are declared, the walk over a tree shows what is in code. This holds of each tree
in a place that it can stand in, and outside code also of a tree that could be code but has nothing
of interest. -/
structure Covers (t : Tree) : Prop where
  allowed : ∀ m p, m.Allows ⟨p, t⟩ → t.declaredSites true p = t.codeSites m p
  hollow : ∀ p, t.fits NodeKind.isInert → Site.isApart ⟨p, t⟩ = false → t.sites p = [] →
    t.declaredSites true p = t.codeSites .outside p

theorem next_outside (hcallable : k.isCallable = false) (hmembers : k.holdsMembers = false)
    (c : Tree) : CodePlace.outside.next ⟨k, c⟩ = .outside := by
  rw [CodePlace.next, CodePlace.below, hcallable, hmembers]
  exact ite_self _

/-- Nodes in other places than code are not marked. -/
theorem isMarked_of_allows (hm : m.Allows ⟨p, branch k f cs⟩) (hcode : m.isCode = false) :
    Site.isMarked ⟨p, branch k f cs⟩ = false := by
  cases m with
  | code => cases hcode
  | outside => exact isMarked_of_isOuter hm
  | fields =>
    refine isMarked_eq_false ?_ ?_
    · rintro rfl
      cases hm
    · cases k <;> first | rfl | cases hm
  | declarator =>
    obtain rfl : k = .variableDeclarator := eq_of_beq hm
    rfl
  | initializer =>
    obtain rfl : k = .staticInitializer := eq_of_beq hm
    rfl

/-- The children of a node that could be code and has nothing of interest below it. -/
theorem flatMap_declaredSites_hollow (h : (branch k f cs).Conforms) (ih : ∀ c ∈ cs, Covers c)
    (hk : k.isInert) (hparent : !k.isApart || k == .switchLabel)
    (hsites : (branch k f cs).sitesBelow = []) :
    (cs.flatMap fun c => c.declaredSites true k) =
      cs.flatMap fun c => c.codeSites (CodePlace.outside.next ⟨k, c⟩) k := by
  have hkind : k.isCallable = false ∧ k.holdsMembers = false := by
    cases k with
    | classBody => cases hparent
    | _ => first | exact ⟨rfl, rfl⟩ | cases hk
  rw [sitesBelow_branch, List.flatMap_eq_nil_iff] at hsites
  refine List.flatMap_congr fun c hc => ?_
  rw [next_outside hkind.1 hkind.2]
  cases hapart : Site.isApart ⟨k, c⟩ with
  | true =>
    refine (ih c hc).allowed .outside k ?_
    rw [Site.isApart, Bool.or_eq_true] at hapart
    rcases hapart with hapart | haside
    · cases c with
      | leaf => rfl
      | branch j g ds => exact NodeKind.isOuter_of_isApart hapart
    · exact isOuter_of_isAside h hc haside
  | false =>
    refine (ih c hc).hollow k ?_ hapart (hsites c hc)
    refine h.within Bounds.inert_closed Bounds.inert_admits ?_ ?_ c hc
    · rw [hk, hparent]
      rfl
    · rintro rfl
      cases hk

/-- The walks agree below every node of a conforming file. -/
theorem Conforms.covers {t : Tree} (h : t.Conforms) (hopen : t.IsOpen) : Covers t := by
  induction h with
  | leaf => exact ⟨fun _ _ _ => rfl, fun _ _ _ _ => rfl⟩
  | @branch k f cs r hr hyields hcomments hcs ih =>
    have h : (Tree.branch k f cs).Conforms := .branch hr hyields hcomments hcs
    have ih : ∀ c ∈ cs, Covers c := fun c hc =>
      ih c hc fun n hn => hopen n (mem_nodes_of_mem_children (t := Tree.branch k f cs) hc hn)
    refine ⟨fun m p hm => ?_, fun p hinert hapart hsites => ?_⟩
    · rw [declaredSites_branch, codeSites_branch]
      congr 1
      · cases hcode : m.isCode with
        | true => rfl
        | false =>
          rw [if_pos rfl, List.filter_cons, isMarked_of_allows hm hcode]
          rfl
      · by_cases hblind : m = .outside ∧ k.isBlind
        · obtain ⟨rfl, hblind⟩ := hblind
          have hkind : k.isInert ∧ (!k.isApart || k == .switchLabel) := by
            cases k <;> first | exact ⟨rfl, rfl⟩ | cases hblind
          exact flatMap_declaredSites_hollow h ih hkind.1 hkind.2
            (hopen _ (self_mem_nodes _) hblind)
        · refine List.flatMap_congr fun c hc => (ih c hc).allowed _ _ (allows_next h hm ?_ hc)
          rintro rfl
          exact Bool.eq_false_of_not_eq_true fun hk => hblind ⟨rfl, hk⟩
    · have hapart' := isApart_kind hapart
      rw [sites_of_not_isApart hapart, List.append_eq_nil_iff] at hsites
      rw [declaredSites_branch, codeSites_branch]
      congr 1
      · exact hsites.1
      · exact flatMap_declaredSites_hollow h ih hinert (by rw [hapart']; rfl) hsites.2

/-- **Everything that is declared is in code**, where nothing of interest is below blind nodes. -/
theorem declaredSites_eq {t : Tree} (h : t.Conforms) (hopen : t.IsOpen) (p : NodeKind) :
    t.declaredSites false p = t.codeSites .outside p := by
  induction h generalizing p with
  | leaf => rfl
  | @branch k f cs r hr hyields hcomments hcs ih =>
    have h : (Tree.branch k f cs).Conforms := .branch hr hyields hcomments hcs
    by_cases hdeclares : k.declares
    · have houter : k.isOuter := by
        cases k <;> first | rfl | cases hdeclares
      have hmarked : Site.isMarked ⟨p, Tree.branch k f cs⟩ = false := isMarked_of_isOuter houter
      rw [← (h.covers hopen).allowed .outside p houter, declaredSites_branch, declaredSites_branch,
        List.filter_cons, hmarked, hdeclares]
      rfl
    · have hkind : k.isCallable = false ∧ k.holdsMembers = false := by
        cases k <;> first | exact ⟨rfl, rfl⟩ | exact absurd rfl hdeclares
      rw [declaredSites_branch, codeSites_branch]
      congr 1
      refine List.flatMap_congr fun c hc => ?_
      rw [next_outside hkind.1 hkind.2, Bool.eq_false_of_not_eq_true hdeclares]
      have hopen : IsOpen c := fun n hn =>
        hopen n (mem_nodes_of_mem_children (t := Tree.branch k f cs) hc hn)
      exact ih c hc hopen k

end Tree

end Java

end CodeRisk
