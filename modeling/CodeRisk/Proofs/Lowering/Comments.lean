import CodeRisk.Proofs.Lowering.AlikeNodes

/-!
# Further comments in a tree

Comments may be added to a tree between any two children of a node (`Java.Tree.Commented`). Lowering
takes the tree as before (`Java.Tree.Commented.alike`): each part is chosen by role or by kind, and
no such choice takes a comment, or all children are gone over, and a comment becomes an atom or
nothing.

A few nodes make an exception, since their text is kept as a whole (`Java.NodeKind.isVerbatim`): a
comment in a qualified name would become part of the name.
-/
namespace CodeRisk.Java

/-- Whether the text of the node, or of the nodes right below it, is kept as it is written: a
qualified name, a label of a switch, the exceptions that a method throws, or those of a handler. -/
def NodeKind.isVerbatim : NodeKind → Bool
  | scopedIdentifier | switchLabel | throws | catchType => true
  | _ => false

namespace Tree

mutual

/-- The second tree is the first one with further comments. The tokens may stand in other rows and
behind other blanks. There are no further comments in nodes whose text is kept, and this text stays
the same; `verbatim` tells whether the trees lie in such a node. -/
inductive Commented : Bool → Tree → Tree → Prop where
  | leaf {verbatim : Bool} {k : TokenKind} {f : Option Field} {l l' : Lexeme}
      (h : l'.text = l.text) : Commented verbatim (.leaf k f l) (.leaf k f l')
  | branch {verbatim : Bool} {k : NodeKind} {f : Option Field} {cs cs' : List Tree}
      (hcs : CommentedAll (verbatim || k.isVerbatim) cs cs')
      (htext : verbatim || k.isVerbatim → (branch k f cs').text = (branch k f cs).text) :
      Commented verbatim (.branch k f cs) (.branch k f cs')

/-- The trees of the second list are those of the first one with further comments, in the trees and
between them. -/
inductive CommentedAll : Bool → List Tree → List Tree → Prop where
  | nil {verbatim : Bool} : CommentedAll verbatim [] []
  | cons {verbatim : Bool} {t t' : Tree} {ts ts' : List Tree} (h : Commented verbatim t t')
      (hs : CommentedAll verbatim ts ts') : CommentedAll verbatim (t :: ts) (t' :: ts')
  | comment {k : TokenKind} {l : Lexeme} {ts ts' : List Tree} (hk : k.isComment)
      (hs : CommentedAll false ts ts') : CommentedAll false ts (.leaf k none l :: ts')

end

theorem text_leaf (k : TokenKind) (f : Option Field) (l : Lexeme) :
    (Tree.leaf k f l).text = l.text :=
  String.append_empty

namespace Commented
variable {v : Bool} {t t' : Tree}

theorem look_eq (h : Commented v t t') : t'.look = t.look := by
  cases h <;> rfl

/-- Comments may be added in and between the children of a node whose text is not kept. -/
theorem free {k : NodeKind} {f : Option Field} {cs cs' : List Tree} (hk : k.isVerbatim = false)
    (hcs : CommentedAll false cs cs') :
    Commented false (Tree.branch k f cs) (Tree.branch k f cs') := by
  refine .branch ?_ fun htext => ?_
  · rw [hk]
    exact hcs
  · rw [hk] at htext
    cases htext

/-- Where the text is kept, it is the same. -/
theorem text_eq (h : Commented true t t') : t'.text = t.text := by
  cases h with
  | leaf h => rw [text_leaf, text_leaf, h]
  | branch _ htext => exact htext rfl

end Commented

mutual

/-- A tree is itself with no further comments. -/
theorem Commented.refl (v : Bool) : (t : Tree) → Commented v t t
  | .leaf .. => .leaf rfl
  | .branch _ _ cs => .branch (.refl _ cs) fun _ => rfl

theorem CommentedAll.refl (v : Bool) : (ts : List Tree) → CommentedAll v ts ts
  | [] => .nil
  | t :: ts => .cons (.refl v t) (.refl v ts)

end

theorem CommentedAll.texts_eq {ts ts' : List Tree} (h : CommentedAll true ts ts') :
    (ts'.filter isNamed).map text = (ts.filter isNamed).map text := by
  match ts, ts', h with
  | [], [], .nil => rfl
  | t :: ts, t' :: ts', .cons h hs =>
    rw [List.filter_cons, List.filter_cons, ByLook.named t t' h.look_eq]
    split
    · rw [List.map_cons, List.map_cons, h.text_eq, hs.texts_eq]
    · exact hs.texts_eq

mutual

/-- **Lowering takes a tree like the tree with further comments.** -/
theorem Commented.alike {v : Bool} {t t' : Tree} (h : Commented v t t') (ht : t.Conforms)
    (p : TreePlace) : Alike .ofAtoms p t t' := by
  match h with
  | .leaf _ => exact .leaf ..
  | .branch (k := k) hcs htext =>
    refine .branch ht (hcs.alike ht.child p k) ?_ ?_
    · rintro rfl
      exact .inr (htext (Bool.or_true _)).symm
    · rintro rfl
      have hverbatim : (v || NodeKind.catchType.isVerbatim) = true := Bool.or_true v
      rw [hverbatim] at hcs
      exact .inr hcs.texts_eq.symm

theorem CommentedAll.alike {v : Bool} {ts ts' : List Tree} (h : CommentedAll v ts ts')
    (hts : ∀ t ∈ ts, t.Conforms) (p : TreePlace) (k : NodeKind) :
    AlikeChildren .ofAtoms p k ts ts' := by
  match h with
  | .nil => exact .nil
  | .cons (t := t) h hs =>
    rw [List.forall_mem_cons] at hts
    exact .cons (h.alike hts.1 (p.below k t)) (hs.alike hts.2 p k)
  | .comment hk hs => exact .comment rfl hk rfl (hs.alike hts p k)

end

/-! ## Nodes and children -/

/-- The first tree conforms to the grammar, and the second one is the first one with further
comments. -/
structure Further (t t' : Tree) : Prop where
  conforms : t.Conforms
  commented : ∃ v, Commented v t t'

theorem CommentedAll.matched {v : Bool} {ts ts' : List Tree} (h : CommentedAll v ts ts')
    (hts : ∀ t ∈ ts, t.Conforms) : Matched true Further ts ts' := by
  match h with
  | .nil => exact .nil
  | .cons h hs =>
    rw [List.forall_mem_cons] at hts
    exact .cons ⟨hts.1, _, h⟩ (hs.matched hts.2)
  | .comment hk hs => exact .comment rfl hk rfl (hs.matched hts)

namespace Further
variable {t t' : Tree}

theorem look_eq (h : Further t t') : t'.look = t.look := by
  obtain ⟨v, h⟩ := h.commented
  exact h.look_eq

theorem alike (h : Further t t') (p : TreePlace) : Alike .ofAtoms p t t' := by
  obtain ⟨v, hcommented⟩ := h.commented
  exact hcommented.alike h.conforms p

theorem children (h : Further t t') : Matched true Further t.children t'.children := by
  obtain ⟨hconforms, v, h⟩ := h
  cases h with
  | leaf => exact .nil
  | branch hcs _ => exact hcs.matched hconforms.child

theorem find? (h : Further t t') {q : Tree → Bool} (hq : ByLook q) (hskips : Skips q) :
    Option.Rel (fun c c' => (c ∈ t.children ∧ q c) ∧ Further c c') (t.children.find? q)
      (t'.children.find? q) :=
  h.children.find? (fun _ _ h => h.look_eq) hq hskips

theorem child? (h : Further t t') (g : Field) :
    Option.Rel (fun c c' => (c ∈ t.children ∧ c.field == some g) ∧ Further c c') (t.child? g)
      (t'.child? g) :=
  h.find? (.role (some g)) (.role g)

theorem childOfKind? (h : Further t t') (k : NodeKind) :
    Option.Rel (fun c c' => (c ∈ t.children ∧ c.isNode k) ∧ Further c c') (t.childOfKind? k)
      (t'.childOfKind? k) :=
  h.find? (.node k) (.node k)

/-- A token and a qualified name keep their texts. -/
theorem text_eq (h : Further t t') (ht : t.fits (· == .scopedIdentifier)) : t'.text = t.text := by
  obtain ⟨v, hcommented⟩ := h.commented
  cases hcommented with
  | leaf htext => rw [text_leaf, text_leaf, htext]
  | branch _ htext =>
    refine htext ?_
    rw [eq_of_beq ht]
    exact Bool.or_true v

/-- A name stays the same. -/
theorem name_eq (h : Further t t') : (t'.child? .name).map text = (t.child? .name).map text := by
  have hname := h.child? .name
  generalize hc : t.child? .name = o, t'.child? .name = o' at hname
  cases hname with
  | none => rfl
  | @some c c' hname =>
    obtain ⟨⟨hmem, hrole⟩, hfurther⟩ := hname
    cases t with
    | leaf => cases hmem
    | branch k f cs =>
      have hfits := h.conforms.name hmem (eq_of_beq hrole)
      exact congrArg some (hfurther.text_eq hfits)

end Further

mutual

/-- The nodes of a tree with further comments are the nodes of the tree and comments. -/
theorem Commented.nodes {v : Bool} {t t' : Tree} (h : Commented v t t') :
    Matched true (fun n n' => ∃ w, Commented w n n') t.nodes t'.nodes := by
  match h with
  | .leaf htext => exact .cons ⟨v, .leaf htext⟩ .nil
  | .branch hcs htext =>
    rw [Tree.nodes, Tree.nodes]
    exact .cons ⟨v, .branch hcs htext⟩ hcs.nodes

theorem CommentedAll.nodes {v : Bool} {ts ts' : List Tree} (h : CommentedAll v ts ts') :
    Matched true (fun n n' => ∃ w, Commented w n n') (forestNodes ts) (forestNodes ts') := by
  match h with
  | .nil => exact .nil
  | .cons h hs =>
    rw [forestNodes, forestNodes]
    exact h.nodes.append hs.nodes
  | .comment hk hs =>
    rw [forestNodes, Tree.nodes]
    exact .comment rfl hk rfl hs.nodes

end

theorem Further.nodes {t t' : Tree} (h : Further t t') :
    Matched true Further t.nodes t'.nodes := by
  obtain ⟨v, hcommented⟩ := h.commented
  exact hcommented.nodes.imp_mem fun n hn n' hn' => ⟨h.conforms.of_mem_nodes hn, hn'⟩

end Tree

end CodeRisk.Java
