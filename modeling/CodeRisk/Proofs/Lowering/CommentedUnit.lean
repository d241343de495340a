import CodeRisk.Proofs.Business
import CodeRisk.Proofs.Lowering.Collected
import CodeRisk.Proofs.Lowering.Comments
import CodeRisk.Proofs.Lowering.Method

/-!
# Comments do not change the analysis

Of two files, one with further comments, the same declarations are collected, with the same names,
and their code is alike (`Java.Tree.Further.likeCode`). So the figures are the same, and so are the
business methods (`SourceUnit.analysis_eq_of_commented`).
-/
namespace CodeRisk
open Java (Tree NodeKind TokenKind Field)
open Java.Tree (ByLook Skips Further)

namespace Java.Tree

theorem ByLook.or {q r : Tree → Bool} (hq : ByLook q) (hr : ByLook r) :
    ByLook fun c => q c || r c := by
  intro t t' h
  show (q t' || r t') = (q t || r t)
  rw [hq t t' h, hr t t' h]

theorem Skips.token {k : TokenKind} (hk : k.isComment = false) : Skips (isToken k) := by
  intro c hc _
  obtain ⟨j, f, l, rfl⟩ := eq_leaf_of_isComment hc
  refine beq_false_of_ne ?_
  rintro rfl
  exact absurd (hk.symm.trans hc) Bool.false_ne_true

namespace Further
variable {t t' : Tree}

/-- What is made of the named children is related. -/
theorem filterMap {α : Type} {g : Tree → Option α} {S : α → α → Prop} (h : Further t t')
    (hg : ∀ c c', Further c c' → Option.Rel S (g c) (g c'))
    (hleaf : ∀ k f l, g (leaf k f l) = none) :
    List.Forall₂ S (t.namedChildren.filterMap g) (t'.namedChildren.filterMap g) := by
  rw [namedChildren, namedChildren, List.filterMap_filter, List.filterMap_filter]
  refine h.children.filterMap (fun c c' hc => ?_) fun c hc _ => ?_
  · rw [ByLook.named c c' hc.look_eq]
    split
    · exact hg c c' hc
    · exact .none
  · obtain ⟨k, f, l, rfl⟩ := eq_leaf_of_isComment hc
    rw [hleaf, ite_self]

theorem filterMap_eq {α : Type} {g : Tree → Option α} (h : Further t t')
    (hg : ∀ c c', Further c c' → g c' = g c) (hleaf : ∀ k f l, g (leaf k f l) = none) :
    t'.namedChildren.filterMap g = t.namedChildren.filterMap g := by
  have hrel := h.filterMap (S := Eq) (fun c c' hc => ?_) hleaf
  · rw [List.forall₂_eq_eq_eq] at hrel
    exact hrel.symm
  · rw [hg c c' hc]
    cases g c with
    | none => exact .none
    | some a => exact .some rfl

/-- What is found among the named children is the same. -/
theorem named_find? (h : Further t t') {q : Tree → Bool} (hq : ByLook q) (hskips : Skips q) :
    Option.Rel (fun c c' => q c ∧ Further c c') (t.namedChildren.find? q)
      (t'.namedChildren.find? q) := by
  have hfound := h.find? (hq.and .named) (hskips.and isNamed)
  rw [← List.head?_filter, ← List.filter_filter, ← List.head?_filter, ← List.filter_filter,
    List.head?_filter, List.head?_filter, ← namedChildren, ← namedChildren] at hfound
  generalize t.namedChildren.find? q = o, t'.namedChildren.find? q = o' at hfound
  cases hfound with
  | none => exact .none
  | some hfound => exact .some ⟨(Bool.and_eq_true_iff.mp hfound.1.2).1, hfound.2⟩

end Further

end Java.Tree

/-! ## Names -/

section Names
variable {t t' : Tree}

theorem nameOf_eq (h : Further t t') : nameOf t' = nameOf t := by
  rw [nameOf, nameOf, h.name_eq]

theorem annotationNames_eq (h : Further t t') : annotationNames t' = annotationNames t := by
  have hmodifiers := h.childOfKind? .modifiers
  rw [annotationNames, annotationNames]
  generalize t.childOfKind? .modifiers = o, t'.childOfKind? .modifiers = o' at hmodifiers
  cases hmodifiers with
  | none => rfl
  | some hmodifiers =>
    simp only [List.filterMap_filter]
    refine hmodifiers.2.filterMap_eq (fun c c' hc => ?_) fun _ _ _ => rfl
    rw [ByLook.node _ c c' hc.look_eq, ByLook.node _ c c' hc.look_eq, hc.name_eq]

theorem parameterName?_eq (h : Further t t') : parameterName? t' = parameterName? t := by
  have hdeclarator := h.childOfKind? .variableDeclarator
  have hnames : (t'.childOfKind? .variableDeclarator >>= fun d => d.child? .name).map Tree.text =
      (t.childOfKind? .variableDeclarator >>= fun d => d.child? .name).map Tree.text := by
    generalize t.childOfKind? .variableDeclarator = o,
      t'.childOfKind? .variableDeclarator = o' at hdeclarator
    cases hdeclarator with
    | none => rfl
    | some hd => exact hd.2.name_eq
  rw [parameterName?, parameterName?, ByLook.node _ t t' h.look_eq, ByLook.node _ t t' h.look_eq,
    h.name_eq, hnames]

theorem qualifiedName?_eq (h : Further t t') : qualifiedName? t' = qualifiedName? t := by
  have hname := h.named_find? ((ByLook.node .scopedIdentifier).or (.token .identifier))
    ((Skips.node _).or (.token rfl))
  rw [qualifiedName?, qualifiedName?]
  generalize t.namedChildren.find? _ = o, t'.namedChildren.find? _ = o' at hname
  cases hname with
  | none => rfl
  | @some c c' hname =>
    obtain ⟨hc, hfurther⟩ := hname
    -- the texts of just these two kinds of trees stay the same
    have hfits : c.fits (· == .scopedIdentifier) := by
      cases c with
      | leaf => rfl
      | branch k f cs => exact (Bool.or_false _).symm.trans hc
    exact congrArg some (hfurther.text_eq hfits)

theorem packageOf_eq (h : Further t t') : packageOf t' = packageOf t := by
  have hpackage := h.named_find? (.node .packageDeclaration) (.node .packageDeclaration)
  rw [packageOf, packageOf]
  generalize t.namedChildren.find? _ = o, t'.namedChildren.find? _ = o' at hpackage
  cases hpackage with
  | none => rfl
  | some hpackage => exact qualifiedName?_eq hpackage.2

theorem importsOf_eq (h : Further t t') : importsOf t' = importsOf t := by
  rw [importsOf, importsOf, List.filterMap_filter, List.filterMap_filter]
  refine h.filterMap_eq (fun c c' hc => ?_) fun _ _ _ => rfl
  rw [ByLook.node _ c c' hc.look_eq, qualifiedName?_eq hc]

end Names

/-! ## Declarations -/

/-- The types have the same name, the same kind and the same annotations. -/
def TypeDecl.SameHead (d d' : TypeDecl) : Prop :=
  d'.name = d.name ∧ d'.kind = d.kind ∧ d'.annotations = d.annotations

/-- The methods have the same name, the same parameters, the same exceptions and the same
annotations. -/
def MethodDecl.SameHead (m m' : MethodDecl) : Prop :=
  m'.name = m.name ∧ m'.parameters = m.parameters ∧ m'.throws = m.throws ∧
    m'.annotations = m.annotations

section Declarations
variable {t t' : Tree}

theorem typeDecl?_rel (h : Further t t') :
    Option.Rel TypeDecl.SameHead (typeDecl? t) (typeDecl? t') := by
  rw [typeDecl?, typeDecl?, typeKind?, typeKind?, ByLook.node _ t t' h.look_eq,
    ByLook.node _ t t' h.look_eq]
  generalize (if t.isNode .classDeclaration then _ else _) = kind
  cases kind with
  | none => exact .none
  | some k => exact .some ⟨nameOf_eq h, rfl, annotationNames_eq h⟩

/-- A clause that is kept as it is written has the same names in it. -/
theorem Java.Tree.Further.texts_eq (h : Further t t') (ht : t.hasKind NodeKind.isVerbatim) :
    t'.namedChildren.map Tree.text = t.namedChildren.map Tree.text := by
  obtain ⟨v, hcommented⟩ := h.commented
  cases hcommented with
  | leaf => cases ht
  | @branch _ k _ _ _ hcs _ =>
    have hverbatim : (v || k.isVerbatim) = true := by
      rw [show k.isVerbatim = true from ht, Bool.or_true]
    rw [hverbatim] at hcs
    exact hcs.texts_eq

theorem MethodDecl.sameHead_ofTree (h : Further t t') :
    MethodDecl.SameHead (.ofTree t) (.ofTree t') := by
  refine ⟨nameOf_eq h, ?_, ?_, annotationNames_eq h⟩
  -- parameters are read one by one, the clause of exceptions is kept as it is written
  · have hparameters := h.child? .parameters
    rw [ofTree, ofTree]
    dsimp only
    generalize t.child? .parameters = o, t'.child? .parameters = o' at hparameters
    cases hparameters with
    | none => rfl
    | some hparameters =>
      exact hparameters.2.filterMap_eq (fun _ _ hc => parameterName?_eq hc) fun _ _ _ => rfl
  · have hthrows := h.childOfKind? .throws
    rw [ofTree, ofTree]
    dsimp only
    generalize t.childOfKind? .throws = o, t'.childOfKind? .throws = o' at hthrows
    cases hthrows with
    | none => rfl
    | some hthrows => exact hthrows.2.texts_eq (Tree.hasKind_of_isNode hthrows.1.2 rfl)

/-- The bodies of methods and constructors are alike. -/
theorem body_rel (h : Further t t') (ht : t.hasKind NodeKind.isCallable) :
    Option.Rel (fun b b' : Tree =>
      Stmt.LikeAll .ofAtoms (Stmt.ofBlock b.children) (Stmt.ofBlock b'.children))
      (t.child? .body) (t'.child? .body) := by
  have hbody := h.child? .body
  generalize t.child? .body = o, t'.child? .body = o' at hbody
  cases hbody with
  | none => exact .none
  | @some b b' hbody =>
    obtain ⟨⟨hmem, hrole⟩, hfurther⟩ := hbody
    refine .some ((hfurther.alike .statement).block rfl ?_)
    cases t with
    | leaf => cases hmem
    | branch k f cs =>
      obtain ⟨j, bs, rfl, hj⟩ := (h.conforms.callable ht).role b hmem (eq_of_beq hrole)
      exact hj

theorem MethodDecl.likeBody_ofTree (h : Further t t') (ht : t.isNode .methodDeclaration) :
    MethodDecl.LikeBody .ofAtoms (.ofTree t) (.ofTree t') :=
  rel_map (body_rel h (Tree.hasKind_of_isNode ht rfl)) fun _ _ hb => hb

end Declarations

/-! ## Code outside methods -/

section Code
variable {t t' : Tree}

theorem initialValues_further (h : Further t t') :
    List.Forall₂ Further (initialValues t) (initialValues t') := by
  rw [initialValues, initialValues, List.filterMap_filter, List.filterMap_filter]
  refine h.filterMap (fun c c' hc => ?_) fun _ _ _ => rfl
  rw [ByLook.node _ c c' hc.look_eq]
  split
  · have hvalue := hc.child? .value
    generalize c.child? .value = o, c'.child? .value = o' at hvalue
    cases hvalue with
    | none => exact .none
    | some hvalue => exact .some hvalue.2
  · exact .none

theorem Expr.LikeIn.of_further {vs vs' : List Tree} (h : List.Forall₂ Further vs vs') :
    Expr.LikeIn .ofAtoms (vs.map Expr.ofTree) (vs'.map Expr.ofTree) := by
  induction h with
  | nil => exact .nil
  | cons hv _ ih => exact .cons ((hv.alike .expression).expression rfl) ih

theorem memberCode_like (h : Further t t') :
    Stmt.LikeAll .ofAtoms (memberCode t) (memberCode t') := by
  have hvalues := (Expr.LikeIn.of_further (initialValues_further h)).ofParts
  have hblock := h.childOfKind? .block
  simp only [memberCode, ← initialValues.eq_1, ByLook.node _ t t' h.look_eq]
  split
  next hkind =>
    exact .cons (.block ((h.alike .statement).block rfl (Tree.hasKind_of_isNode hkind rfl))) .nil
  split
  next =>
    generalize t.childOfKind? .block = o, t'.childOfKind? .block = o' at hblock
    cases hblock with
    | none => exact .nil
    | some hblock =>
      obtain ⟨⟨_, hkind⟩, hfurther⟩ := hblock
      have hlike := (hfurther.alike .statement).block rfl (Tree.hasKind_of_isNode hkind rfl)
      exact .cons (.block hlike) .nil
  split
  next =>
    rw [hvalues.isAtom_eq]
    split
    · exact .nil
    · exact .cons (.simple (.cons hvalues .nil)) .nil
  next => exact .nil

theorem Stmt.LikeAll.append {x : Leeway} {ss ss' us us' : List Stmt} (h : Stmt.LikeAll x ss ss')
    (hus : Stmt.LikeAll x us us') : Stmt.LikeAll x (ss ++ us) (ss' ++ us') := by
  induction ss generalizing ss' with
  | nil =>
    cases h
    exact hus
  | cons s ss ih =>
    cases h with
    | cons hs hss => exact .cons hs (ih hss)

/-- The statements that are made of all trees of a list, where comments yield none. -/
theorem Stmt.LikeAll.ofMatched {g : Tree → List Stmt} {cs cs' : List Tree}
    (h : Tree.Matched true Further cs cs')
    (hg : ∀ c c', Further c c' → Stmt.LikeAll .ofAtoms (g c) (g c'))
    (hleaf : ∀ k f l, g (.leaf k f l) = []) :
    Stmt.LikeAll .ofAtoms (cs.flatMap g) (cs'.flatMap g) := by
  induction h with
  | nil => exact .nil
  | @cons c c' _ _ hc _ ih =>
    rw [List.flatMap_cons, List.flatMap_cons]
    exact (hg c c' hc).append ih
  | @comment c _ _ _ hc _ _ ih =>
    obtain ⟨k, f, l, rfl⟩ := Tree.eq_leaf_of_isComment hc
    rw [List.flatMap_cons, hleaf]
    exact ih

theorem members_like {cs cs' : List Tree} (h : Tree.Matched true Further cs cs') :
    Stmt.LikeAll .ofAtoms ((cs.filter Tree.isNamed).flatMap memberCode)
      ((cs'.filter Tree.isNamed).flatMap memberCode) := by
  have hnamed (ts : List Tree) :
      (ts.filter Tree.isNamed).flatMap memberCode = ts.flatMap memberCode := by
    refine Tree.flatMap_filter_eq (fun _ _ _ => rfl) fun c _ hc => ?_
    cases c with
    | leaf => rfl
    | branch => cases hc
  rw [hnamed, hnamed]
  exact .ofMatched h (fun _ _ hc => memberCode_like hc) fun _ _ _ => rfl

theorem constructor_like (h : Further t t') (ht : t.hasKind NodeKind.isCallable) :
    Stmt.LikeAll .ofAtoms
      ((t.child? .body).map fun b => Stmt.block (Stmt.ofBlock b.children)).toList
      ((t'.child? .body).map fun b => Stmt.block (Stmt.ofBlock b.children)).toList := by
  have hbody := body_rel h ht
  generalize t.child? .body = o, t'.child? .body = o' at hbody
  cases hbody with
  | none => exact .nil
  | some hb => exact .cons (.block hb) .nil

theorem Findings.otherCode_ofNode_like (h : Further t t') :
    Stmt.LikeAll .ofAtoms (ofNode t).otherCode (ofNode t').otherCode := by
  have hchildren := h.children
  obtain ⟨v, hcommented⟩ := h.commented
  cases hcommented with
  | leaf => exact .nil
  | @branch _ k f cs cs' _ _ =>
    cases k with
    | constructorDeclaration | compactConstructorDeclaration => exact constructor_like h rfl
    | classBody | interfaceBody | enumBodyDeclarations => exact members_like hchildren
    | _ => exact .nil

end Code

/-! ## Units -/

namespace SourceUnit
variable {root root' : Tree}

theorem types_rel (h : Further root root') :
    List.Forall₂ TypeDecl.SameHead (Findings.ofTree root).types (Findings.ofTree root').types := by
  rw [Findings.types_ofTree, Findings.types_ofTree]
  refine h.nodes.filterMap (fun _ _ hn => typeDecl?_rel hn) fun c hc _ => ?_
  obtain ⟨k, f, l, rfl⟩ := Tree.eq_leaf_of_isComment hc
  rfl

theorem methods_rel (h : Further root root') :
    List.Forall₂ (fun m m' => m.SameHead m' ∧ m.LikeBody .ofAtoms m')
      (Findings.ofTree root).methods (Findings.ofTree root').methods := by
  rw [Findings.methods_ofTree, Findings.methods_ofTree, ← List.filterMap_eq_map,
    List.filterMap_filter, List.filterMap_filter]
  refine h.nodes.filterMap (fun n n' hn => ?_) fun c hc _ => ?_
  · rw [ByLook.node _ n n' hn.look_eq]
    split
    next hkind =>
      exact .some ⟨MethodDecl.sameHead_ofTree hn, MethodDecl.likeBody_ofTree hn hkind⟩
    next => exact .none
  · obtain ⟨k, f, l, rfl⟩ := Tree.eq_leaf_of_isComment hc
    rfl

theorem otherCode_like (h : Further root root') :
    Stmt.LikeAll .ofAtoms (Findings.ofTree root).otherCode (Findings.ofTree root').otherCode := by
  have hnodes (t : Tree) : (Findings.ofTree t).otherCode =
      t.nodes.flatMap fun n => (Findings.ofNode n).otherCode := by
    rw [Findings.otherCode_ofTree, List.filterMap_flatMap]
    exact List.flatMap_congr fun n _ => (Findings.otherCode_ofNode n).symm
  rw [hnodes, hnodes]
  exact .ofMatched h.nodes (fun _ _ hn => Findings.otherCode_ofNode_like hn) fun _ _ _ => rfl

/-- The business methods are those with certain names. -/
theorem businessMethods_eq {ν : Type} [Scale ν] {u u' : SourceUnit}
    (h : List.Forall₂ (fun m m' : MethodDecl => m'.name = m.name) u.methods u'.methods) :
    (u'.business : BusinessComplexity ν).businessMethods =
      (u.business : BusinessComplexity ν).businessMethods := by
  have hnames (w : SourceUnit) : (w.business : BusinessComplexity ν).businessMethods =
      (w.methods.map (·.name)).filter isBusinessMethodName := by
    refine w.filterMap_methodName?_businessSigns.trans ?_
    rw [List.filter_map]
    rfl
  have hmap : u.methods.map (·.name) = u'.methods.map (·.name) := by
    rw [← List.forall₂_eq_eq_eq, List.forall₂_map_left_iff, List.forall₂_map_right_iff]
    exact h.imp fun _ _ hname => hname.symm
  rw [hnames, hnames, hmap]

/-- **Comments do not change the analysis.** -/
theorem analysis_eq_of_commented {ν : Type} [Scale ν] (n n' : Nat) (root root' : Tree)
    (hroot : root.Conforms) (hcommented : Tree.Commented false root root') :
    let u := ofTree n root
    let u' := ofTree n' root'
    u'.package = u.package ∧ u'.imports = u.imports ∧
      List.Forall₂ TypeDecl.SameHead u.types u'.types ∧
      List.Forall₂ (fun m m' => m.SameHead m' ∧ m.LikeBody .ofAtoms m') u.methods u'.methods ∧
      Stmt.LikeAll .ofAtoms u.otherCode u'.otherCode ∧
      (u'.complexity : CodeComplexity ν).cyclomatic =
        (u.complexity : CodeComplexity ν).cyclomatic ∧
      (u'.complexity : CodeComplexity ν).cognitive = (u.complexity : CodeComplexity ν).cognitive ∧
      (u'.complexity : CodeComplexity ν).maxNestingDepth =
        (u.complexity : CodeComplexity ν).maxNestingDepth ∧
      (u'.business : BusinessComplexity ν).exceptionHandling =
        (u.business : BusinessComplexity ν).exceptionHandling ∧
      (u'.business : BusinessComplexity ν).businessMethods =
        (u.business : BusinessComplexity ν).businessMethods := by
  intro u u'
  have h : Further root root' := ⟨hroot, false, hcommented⟩
  have hmethods : List.Forall₂ (fun m m' => m.SameHead m' ∧ m.LikeBody .ofAtoms m') u.methods
      u'.methods := methods_rel h
  have hcode : u.LikeCode .ofAtoms u' :=
    ⟨hmethods.imp fun _ _ hm => hm.2, otherCode_like h⟩
  obtain ⟨hcyclomatic, hcognitive, hnesting⟩ := hcode.figures_eq (ν := ν)
  exact ⟨packageOf_eq h, importsOf_eq h, types_rel h, hmethods, hcode.otherCode, hcyclomatic,
    hcognitive, hnesting, hcode.handlesExceptions_eq,
    businessMethods_eq (hmethods.imp fun _ _ hm => hm.1.1)⟩

end SourceUnit

namespace Java.Tree

/-- A loop with comments in its header. -/
def sampleLoop (comments : List Tree) : Tree :=
  branch .forStatement none
    (sampleMark "for" :: sampleMark "(" :: (comments ++ [sampleMark ";", sampleMark ";",
      sampleMark ")", leaf .fixed (some .body) ⟨" ", ";", 0, false⟩]))

/-- A method with this loop. -/
def sampleLoopFile (comments : List Tree) : Tree :=
  branch .program none [
    branch .methodDeclaration none [
      leaf .voidType none ⟨"", "void", 0, false⟩,
      sampleName (some .name) "run",
      branch .formalParameters (some .parameters) [sampleMark "(", sampleMark ")"],
      branch .block (some .body) [
        sampleMark "\x7b", sampleLoop comments, sampleMark "\x7d"]]]

def sampleComment : Tree :=
  leaf .blockComment none ⟨" ", "/* for ever */", 0, false⟩

theorem commented_sampleLoopFile :
    Commented false (sampleLoopFile []) (sampleLoopFile [sampleComment]) := by
  have hloop : Commented false (sampleLoop []) (sampleLoop [sampleComment]) :=
    .free rfl (.cons (.refl ..) (.cons (.refl ..) (.comment rfl (.refl ..))))
  have hblock : CommentedAll false [sampleMark "\x7b", sampleLoop [], sampleMark "\x7d"]
      [sampleMark "\x7b", sampleLoop [sampleComment], sampleMark "\x7d"] :=
    .cons (.refl ..) (.cons hloop (.refl ..))
  refine .free rfl (.cons (.free rfl ?_) .nil)
  exact .cons (.refl ..) (.cons (.refl ..) (.cons (.refl ..) (.cons (.free rfl hblock) .nil)))

end Java.Tree

namespace SourceUnit

/-- The comment becomes an atom in the header of the loop, and this changes no figure. -/
theorem analysis_eq_of_commented_sample :
    (Tree.sampleLoopFile []).Conforms ∧
    Tree.Commented false (Tree.sampleLoopFile []) (Tree.sampleLoopFile [Tree.sampleComment]) ∧
    (ofTree 1 (Tree.sampleLoopFile [])).methods.map MethodDecl.statements =
      [[.forLoop [] (.simple [])]] ∧
    (ofTree 1 (Tree.sampleLoopFile [Tree.sampleComment])).methods.map MethodDecl.statements =
      [[.forLoop [.atom] (.simple [])]] ∧
    ((ofTree 1 (Tree.sampleLoopFile [Tree.sampleComment])).complexity :
      CodeComplexity Float).cyclomatic = 2 := by
  have hroot : (Tree.sampleLoopFile []).Conforms := Tree.conforms_of_check 8 _ (by decide +kernel)
  obtain ⟨-, -, -, -, -, hcyclomatic, -⟩ :=
    analysis_eq_of_commented (ν := Float) 1 1 (Tree.sampleLoopFile [])
      (Tree.sampleLoopFile [Tree.sampleComment]) hroot Tree.commented_sampleLoopFile
  exact ⟨hroot, Tree.commented_sampleLoopFile, rfl, rfl, hcyclomatic.trans (by decide +kernel)⟩

end SourceUnit

end CodeRisk
