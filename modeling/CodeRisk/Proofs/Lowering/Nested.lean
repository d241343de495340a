import CodeRisk.Proofs.Complexity.Method
import CodeRisk.Proofs.Lowering.AlikeNodes
import CodeRisk.Proofs.Lowering.Collected
import CodeRisk.Proofs.Lowering.Method

/-!
# Nested classes do not leak into a method

What is inside a nested class has no part in the code of the method around it, whatever the way from
the body of the method to the class: through expressions, lambdas, switches, loops or handlers. Of
two trees that differ in nested classes only (`Java.Tree.DiffersInside`), lowering makes the same
(`Java.Tree.DiffersInside.alike`).

There is one thing to say about texts. A label of a switch is kept as it is written, and so are the
types that a handler takes. A class in one of them shows in the text
(`MethodDecl.nested_class_in_text`), which no figure depends on.
-/
namespace CodeRisk.Java

namespace NodeKind

/-- Whether the text of the node, or of the nodes right below it, is kept in a statement. -/
def isQuoted : NodeKind → Bool
  | switchLabel | catchType => true
  | _ => false

/-- Whether the node declares a type that can be local to a block. -/
def declaresLocally : NodeKind → Bool
  | classDeclaration | interfaceDeclaration | enumDeclaration | recordDeclaration => true
  | _ => false

end NodeKind

/-- How a token is written, wherever it stands. -/
def Lexeme.spelling (l : Lexeme) : String × String :=
  (l.blank, l.text)

theorem Lexeme.join_eq_of_spelling {ls ls' : List Lexeme}
    (h : ls'.map spelling = ls.map spelling) : join ls' = join ls := by
  have hwritten (ms : List Lexeme) :
      ms.map written = (ms.map spelling).map fun s => s.1 ++ s.2 := by
    rw [List.map_map]
    rfl
  cases ls with
  | nil => rw [List.map_eq_nil_iff.mp h]
  | cons l ls =>
    cases ls' with
    | nil => cases h
    | cons l' ls' =>
      obtain ⟨hhead, htail⟩ := List.cons_eq_cons.mp h
      have htext : l'.text = l.text := congrArg Prod.snd hhead
      rw [join, join, htext, hwritten, hwritten, htail]

namespace Tree

mutual

/-- The second tree differs from the first one inside nested classes only: in bodies of classes, and
in declarations of types that stand as statements. The tokens may stand in other rows. `inside`
tells whether the trees may differ at all where they stand: in labels of switches and in the types
of handlers they may do so only if `labels` allows it. -/
inductive DiffersInside (labels : Bool) : Bool → TreePlace → Tree → Tree → Prop where
  | leaf {inside : Bool} {p : TreePlace} {k : TokenKind} {f : Option Field} {l l' : Lexeme}
      (h : l'.spelling = l.spelling) : DiffersInside labels inside p (.leaf k f l) (.leaf k f l')
  | branch {inside : Bool} {p : TreePlace} {k : NodeKind} {f : Option Field} {cs cs' : List Tree}
      (hcs : AllDifferInside labels (inside && (labels || !k.isQuoted)) p k cs cs') :
      DiffersInside labels inside p (.branch k f cs) (.branch k f cs')
  | classBody {p : TreePlace} {f : Option Field} (cs cs' : List Tree) :
      DiffersInside labels true p (.branch .classBody f cs) (.branch .classBody f cs')
  | declaration {k : NodeKind} {f : Option Field} (cs cs' : List Tree) (hk : k.declaresLocally) :
      DiffersInside labels true .statement (.branch k f cs) (.branch k f cs')

/-- The children of two nodes of kind `k` in the place `p` differ inside nested classes only. -/
inductive AllDifferInside (labels : Bool) :
    Bool → TreePlace → NodeKind → List Tree → List Tree → Prop where
  | nil {inside : Bool} {p : TreePlace} {k : NodeKind} : AllDifferInside labels inside p k [] []
  | cons {inside : Bool} {p : TreePlace} {k : NodeKind} {t t' : Tree} {ts ts' : List Tree}
      (h : DiffersInside labels inside (p.below k t) t t')
      (hs : AllDifferInside labels inside p k ts ts') :
      AllDifferInside labels inside p k (t :: ts) (t' :: ts')

end

variable {labels inside : Bool} {p : TreePlace} {k : NodeKind}

mutual

/-- A tree does not differ from itself. -/
theorem DiffersInside.refl (labels inside : Bool) (p : TreePlace) :
    (t : Tree) → DiffersInside labels inside p t t
  | .leaf .. => .leaf rfl
  | .branch k _ cs => .branch (.refl labels _ p k cs)

theorem AllDifferInside.refl (labels inside : Bool) (p : TreePlace) (k : NodeKind) :
    (ts : List Tree) → AllDifferInside labels inside p k ts ts
  | [] => .nil
  | t :: ts => .cons (.refl labels inside (p.below k t) t) (.refl labels inside p k ts)

end

theorem DiffersInside.look_eq {t t' : Tree} (h : DiffersInside labels inside p t t') :
    t'.look = t.look := by
  cases h <;> rfl

mutual

/-- Where nothing may differ, all tokens are written in the same way. -/
theorem DiffersInside.leaves_eq {p : TreePlace} {t t' : Tree}
    (h : DiffersInside labels false p t t') :
    t'.leaves.map Lexeme.spelling = t.leaves.map Lexeme.spelling := by
  match h with
  | .leaf h => exact congrArg (fun s => [s]) h
  | .branch hcs => exact hcs.leaves_eq

theorem AllDifferInside.leaves_eq {p : TreePlace} {k : NodeKind} {ts ts' : List Tree}
    (h : AllDifferInside labels false p k ts ts') :
    (forestLeaves ts').map Lexeme.spelling = (forestLeaves ts).map Lexeme.spelling := by
  match h with
  | .nil => rfl
  | .cons h hs => rw [forestLeaves, forestLeaves, List.map_append, List.map_append, h.leaves_eq,
      hs.leaves_eq]

end

theorem AllDifferInside.texts_eq {ts ts' : List Tree}
    (h : AllDifferInside labels false p k ts ts') :
    (ts'.filter isNamed).map text = (ts.filter isNamed).map text := by
  match ts, ts', h with
  | [], [], .nil => rfl
  | t :: ts, t' :: ts', .cons h hs =>
    have htext : t'.text = t.text := Lexeme.join_eq_of_spelling h.leaves_eq
    rw [List.filter_cons, List.filter_cons, ByLook.named t t' h.look_eq]
    split
    · rw [List.map_cons, List.map_cons, htext, hs.texts_eq]
    · exact hs.texts_eq

end Tree

end CodeRisk.Java

namespace CodeRisk
open Java (Tree NodeKind TokenKind Field TreePlace Lexeme)
open Java.Tree (DiffersInside AllDifferInside)

/-- A class body yields an atom, whatever is in it. -/
theorem Alike.classBody (x : Leeway) (p : TreePlace) (f : Option Field) (cs cs' : List Tree) :
    Alike x p (.branch .classBody f cs) (.branch .classBody f cs') where
  look := rfl
  expression _ := .atom
  resources _ h := nomatch h
  statement _ h := nomatch h
  block _ h := nomatch h
  cases _ h := nomatch h
  entry _ h := by rcases h with h | h <;> cases h
  handler _ h := nomatch h
  finish _ h := nomatch h
  label h := nomatch h
  types h := nomatch h
  parameter h := nomatch h

/-- A declaration that stands as a statement yields an empty statement, whatever is in it. -/
theorem Alike.declaration (x : Leeway) {k : NodeKind} (f : Option Field) (cs cs' : List Tree)
    (hk : k.declaresLocally) : Alike x .statement (.branch k f cs) (.branch k f cs') := by
  cases k with
  | classDeclaration | interfaceDeclaration | enumDeclaration | recordDeclaration =>
    constructor
    · rfl
    · exact nofun
    · exact nofun
    · exact fun _ _ => .simple .nil
    · exact fun _ h => nomatch h
    · exact fun _ h => nomatch h
    · intro _ h
      rcases h with h | h <;> cases h
    · exact fun _ h => nomatch h
    · exact fun _ h => nomatch h
    · exact fun h => nomatch h
    · exact fun h => nomatch h
    · exact fun h => nomatch h
  | _ => cases hk

mutual

/-- **Lowering takes trees alike that differ inside nested classes only**: up to the texts of labels
and of the types of handlers, if these may differ. The induction goes over both trees at once and
stops at the nested classes. -/
theorem Java.Tree.DiffersInside.alike {labels inside : Bool} {p : TreePlace} {t t' : Tree}
    (h : DiffersInside labels inside p t t') (ht : t.Conforms) :
    Alike (.ofLabels labels) p t t' := by
  match h with
  | .leaf _ => exact .leaf ..
  | .classBody cs cs' => exact .classBody ..
  | .declaration cs cs' hk => exact .declaration _ _ cs cs' hk
  | .branch (k := k) hcs =>
    -- below a node whose text is kept nothing differs, unless the labels may
    have hquoted : k.isQuoted → labels = true ∨ (inside && (labels || !k.isQuoted)) = false := by
      intro hk
      rw [hk]
      cases labels with
      | true => exact .inl rfl
      | false => exact .inr (Bool.and_false _)
    refine .branch ht (hcs.alike ht.child) ?_ ?_
    · rintro rfl
      refine (hquoted rfl).imp_right fun hnone => ?_
      rw [hnone] at hcs
      exact (Lexeme.join_eq_of_spelling hcs.leaves_eq).symm
    · rintro rfl
      refine (hquoted rfl).imp_right fun hnone => ?_
      rw [hnone] at hcs
      exact hcs.texts_eq.symm

theorem Java.Tree.AllDifferInside.alike {labels inside : Bool} {p : TreePlace} {k : NodeKind}
    {ts ts' : List Tree} (h : AllDifferInside labels inside p k ts ts')
    (hts : ∀ t ∈ ts, t.Conforms) : AlikeChildren (.ofLabels labels) p k ts ts' := by
  match h with
  | .nil => exact .nil
  | .cons h hs =>
    rw [List.forall_mem_cons] at hts
    exact .cons (h.alike hts.1) (hs.alike hts.2)

end

/-! ## Methods -/

namespace MethodDecl

/-- Methods with bodies that are alike contribute the same to the figures of their files. -/
theorem likeCode_alone {x : Leeway} {m m' : MethodDecl} (h : m.LikeBody x m') :
    m.alone.LikeCode x m'.alone where
  methods := .cons h .nil
  otherCode := .nil

theorem mem_methods_ofTree {root m : Tree} (n : Nat) (hm : m ∈ root.nodes)
    (hmethod : m.isNode .methodDeclaration) :
    MethodDecl.ofTree m ∈ (SourceUnit.ofTree n root).methods := by
  show MethodDecl.ofTree m ∈ (Findings.ofTree root).methods
  rw [Findings.methods_ofTree]
  exact List.mem_map_of_mem (List.mem_filter.mpr ⟨hm, hmethod⟩)

/-- **Nested classes do not leak into a method.** -/
theorem block_eq_of_differsInside {ν : Type} [Scale ν] (labels : Bool) (n n' : Nat)
    (root root' m m' b b' : Tree) (hroot : root.Conforms) (hm : m ∈ root.nodes)
    (hm' : m' ∈ root'.nodes) (hmethod : m.isNode .methodDeclaration)
    (hmethod' : m'.isNode .methodDeclaration) (hb : m.child? .body = some b)
    (hb' : m'.child? .body = some b') (hdiffers : DiffersInside labels true .statement b b') :
    ∃ d ∈ (SourceUnit.ofTree n root).methods, ∃ d' ∈ (SourceUnit.ofTree n' root').methods,
      d = MethodDecl.ofTree m ∧ d' = MethodDecl.ofTree m' ∧
      (∃ block block' : Block, d.body = some ⟨b.text, block⟩ ∧ d'.body = some ⟨b'.text, block'⟩ ∧
        Stmt.LikeAll (.ofLabels labels) block block' ∧ (labels = false → block' = block)) ∧
      d'.complexity.cyclomatic = d.complexity.cyclomatic ∧
      d'.complexity.cognitive = d.complexity.cognitive ∧
      (d'.alone.complexity : CodeComplexity ν).maxNestingDepth =
        (d.alone.complexity : CodeComplexity ν).maxNestingDepth ∧
      (d'.alone.business : BusinessComplexity ν).exceptionHandling =
        (d.alone.business : BusinessComplexity ν).exceptionHandling := by
  have hbody : (MethodDecl.ofTree m).body = some ⟨b.text, Stmt.ofBlock b.children⟩ := by
    show (m.child? .body).map _ = _
    rw [hb]
    rfl
  have hbody' : (MethodDecl.ofTree m').body = some ⟨b'.text, Stmt.ofBlock b'.children⟩ := by
    show (m'.child? .body).map _ = _
    rw [hb']
    rfl
  have hconforms := hroot.of_mem_nodes hm
  -- the grammar has nothing but a block in this role
  have hblock : b.hasKind NodeKind.isBlock ∧ b.Conforms := by
    cases m with
    | leaf => cases hmethod
    | branch k f cs =>
      obtain rfl : k = .methodDeclaration := eq_of_beq hmethod
      obtain ⟨hmem, -, j, bs, rfl, hj⟩ := Tree.of_child? (hconforms.callable rfl) hb
      exact ⟨hj, hconforms.child _ hmem⟩
  have hlike : Stmt.LikeAll (.ofLabels labels) (Stmt.ofBlock b.children)
      (Stmt.ofBlock b'.children) :=
    (hdiffers.alike hblock.2).block rfl hblock.1
  have hmethods : MethodDecl.LikeBody (.ofLabels labels) (.ofTree m) (.ofTree m') := by
    rw [LikeBody, hbody, hbody']
    exact .some hlike
  have halone := likeCode_alone hmethods
  refine ⟨_, mem_methods_ofTree n hm hmethod, _, mem_methods_ofTree n' hm' hmethod', rfl, rfl,
    ⟨_, _, hbody, hbody', hlike, ?_⟩, hmethods.cyclomatic_eq, hmethods.cognitive_eq,
    (halone.figures_eq (ν := ν)).2.2, halone.handlesExceptions_eq⟩
  rintro rfl
  exact hlike.eq

end MethodDecl

/-! ## Samples -/

namespace Java.Tree

/-- An initializer with a loop. -/
def sampleInitializer : Tree :=
  branch .block none [
    sampleMark "\x7b",
    branch .whileStatement none [
      sampleMark "while", sampleCondition "y", leaf .fixed (some .body) ⟨" ", ";", 0, false⟩],
    sampleMark "\x7d"]

/-- The body of a class. -/
def sampleClassBody (f : Option Field) (members : List Tree) : Tree :=
  branch .classBody f (sampleMark "\x7b" :: (members ++ [sampleMark "\x7d"]))

/-- A new object of a class without a name. -/
def sampleAnonymous (members : List Tree) : Tree :=
  branch .objectCreation none [
    sampleMark "new",
    leaf .typeIdentifier none ⟨" ", "Task", 0, false⟩,
    branch .argumentList none [sampleMark "(", sampleMark ")"],
    sampleClassBody none members]

/-- A block with a local class, and with a class without a name behind it. -/
def sampleNested (members : List Tree) : Tree :=
  branch .block (some .body) [
    sampleMark "\x7b",
    branch .classDeclaration none [
      sampleMark "class", sampleName (some .name) "Local", sampleClassBody (some .body) members],
    branch .returnStatement none [
      sampleMark "return", sampleAnonymous members, sampleMark ";"],
    sampleMark "\x7d"]

/-- A method with the body. -/
def sampleMethodOf (body : Tree) : Tree :=
  branch .methodDeclaration none [
    leaf .voidType none ⟨"", "void", 0, false⟩,
    sampleName (some .name) "run",
    branch .formalParameters (some .parameters) [sampleMark "(", sampleMark ")"],
    body]

/-- A file with the method. -/
def sampleFileOf (body : Tree) : Tree :=
  branch .program none [sampleMethodOf body]

def sampleLabel (members : List Tree) : Tree :=
  branch .switchLabel none [sampleMark "case", sampleAnonymous members]

/-- A type with an annotation on its argument, and a class without a name in the annotation. -/
def sampleHandledType (members : List Tree) : Tree :=
  branch .genericType none [
    leaf .typeIdentifier none ⟨" ", "Fault", 0, false⟩,
    branch .typeArguments none [
      sampleMark "<",
      branch .annotatedType none [
        branch .annotationForm none [
          sampleMark "@",
          sampleName (some .name) "Cause",
          branch .annotationArguments none [
            sampleMark "(", sampleAnonymous members, sampleMark ")"]],
        leaf .typeIdentifier none ⟨" ", "Object", 0, false⟩],
      sampleMark ">"]]

/-- A switch with the label. -/
def sampleLabelSwitch (members : List Tree) : Tree :=
  branch .switch none [
    sampleMark "switch",
    sampleCondition "x",
    branch .switchBlock (some .body) [
      sampleMark "\x7b",
      branch .switchGroup none [sampleLabel members, sampleMark ":"],
      sampleMark "\x7d"]]

/-- A handler for the type. -/
def sampleTypeHandler (members : List Tree) : Tree :=
  branch .catchClause none [
    sampleMark "catch",
    sampleMark "(",
    branch .catchFormalParameter none [
      branch .catchType none [sampleHandledType members],
      sampleName (some .name) "e"],
    sampleMark ")",
    branch .block (some .body) [sampleMark "\x7b", sampleMark "\x7d"]]

/-- The switch with the handler behind it. -/
def sampleQuoted (inLabel inType : List Tree) : Tree :=
  branch .block (some .body) [
    sampleMark "\x7b",
    branch .tryStatement none [
      sampleMark "try",
      branch .block (some .body) [
        sampleMark "\x7b", sampleLabelSwitch inLabel, sampleMark "\x7d"],
      sampleTypeHandler inType],
    sampleMark "\x7d"]

variable {labels : Bool} {p : TreePlace}

theorem differsInside_sampleAnonymous (members members' : List Tree) :
    DiffersInside labels true p (sampleAnonymous members) (sampleAnonymous members') := by
  have hinside : (true && (labels || !NodeKind.objectCreation.isQuoted)) = true :=
    Bool.or_true labels
  refine .branch ?_
  rw [hinside]
  exact .cons (.refl ..) (.cons (.refl ..) (.cons (.refl ..) (.cons (.classBody ..) .nil)))

theorem differsInside_sampleNested (members members' : List Tree) :
    DiffersInside false true .statement (sampleNested members) (sampleNested members') := by
  have hreturn : DiffersInside false true .statement
      (branch .returnStatement none [sampleMark "return", sampleAnonymous members, sampleMark ";"])
      (branch .returnStatement none
        [sampleMark "return", sampleAnonymous members', sampleMark ";"]) :=
    .branch (.cons (.refl ..) (.cons (differsInside_sampleAnonymous ..) (.refl ..)))
  exact .branch (.cons (.refl ..) (.cons (.declaration _ _ rfl) (.cons hreturn (.refl ..))))

theorem differsInside_sampleLabelSwitch (members members' : List Tree) :
    DiffersInside true true p (sampleLabelSwitch members) (sampleLabelSwitch members') := by
  have hlabel (q : TreePlace) :
      DiffersInside true true q (sampleLabel members) (sampleLabel members') :=
    .branch (.cons (.refl ..) (.cons (differsInside_sampleAnonymous ..) .nil))
  refine .branch (.cons (.refl ..) (.cons (.refl ..) (.cons (.branch ?_) .nil)))
  exact .cons (.refl ..) (.cons (.branch (.cons (hlabel _) (.refl ..))) (.refl ..))

theorem differsInside_sampleTypeHandler (members members' : List Tree) :
    DiffersInside true true p (sampleTypeHandler members) (sampleTypeHandler members') := by
  have harguments (q : TreePlace) : DiffersInside true true q
      (branch .annotationArguments none [
        sampleMark "(", sampleAnonymous members, sampleMark ")"])
      (branch .annotationArguments none [
        sampleMark "(", sampleAnonymous members', sampleMark ")"]) :=
    .branch (.cons (.refl ..) (.cons (differsInside_sampleAnonymous ..) (.refl ..)))
  have htype (q : TreePlace) :
      DiffersInside true true q (sampleHandledType members) (sampleHandledType members') := by
    refine .branch (.cons (.refl ..) (.cons (.branch (.cons (.refl ..) ?_)) .nil))
    refine .cons (.branch (.cons (.branch ?_) (.refl ..))) (.refl ..)
    exact .cons (.refl ..) (.cons (.refl ..) (.cons (harguments _) .nil))
  refine .branch (.cons (.refl ..) (.cons (.refl ..) (.cons (.branch ?_) (.refl ..))))
  exact .cons (.branch (.cons (htype _) .nil)) (.refl ..)

theorem differsInside_sampleQuoted (ls ls' ts ts' : List Tree) :
    DiffersInside true true .statement (sampleQuoted ls ts) (sampleQuoted ls' ts') := by
  refine .branch (.cons (.refl ..) (.cons (.branch (.cons (.refl ..) ?_)) (.refl ..)))
  refine .cons (.branch (.cons (.refl ..) (.cons ?_ (.refl ..)))) (.cons ?_ .nil)
  · exact differsInside_sampleLabelSwitch ls ls'
  · exact differsInside_sampleTypeHandler ts ts'

end Java.Tree

namespace MethodDecl

theorem block_eq_of_differsInside_sample :
    (Tree.sampleFileOf (Tree.sampleNested [])).Conforms ∧
    DiffersInside false true .statement (Tree.sampleNested [])
      (Tree.sampleNested [Tree.sampleInitializer]) ∧
    (MethodDecl.ofTree (Tree.sampleMethodOf (Tree.sampleNested []))).complexity.cyclomatic = 1 ∧
    (MethodDecl.ofTree (Tree.sampleMethodOf
      (Tree.sampleNested [Tree.sampleInitializer]))).complexity.cyclomatic = 1 := by
  have hroot : (Tree.sampleFileOf (Tree.sampleNested [])).Conforms :=
    Tree.conforms_of_check 8 _ (by decide +kernel)
  have hmem (body : Tree) : Tree.sampleMethodOf body ∈ (Tree.sampleFileOf body).nodes :=
    List.mem_cons_of_mem _ (List.mem_cons_self ..)
  have hdiffers := Tree.differsInside_sampleNested [] [Tree.sampleInitializer]
  obtain ⟨_, -, _, -, rfl, rfl, -, hcyclomatic, -⟩ :=
    block_eq_of_differsInside (ν := Float) false 1 1 (Tree.sampleFileOf (Tree.sampleNested []))
      (Tree.sampleFileOf (Tree.sampleNested [Tree.sampleInitializer])) _ _ _ _ hroot (hmem _)
      (hmem _) rfl rfl rfl rfl hdiffers
  have hone : (MethodDecl.ofTree (Tree.sampleMethodOf
      (Tree.sampleNested []))).complexity.cyclomatic = 1 := by
    decide +kernel
  exact ⟨hroot, hdiffers, hone, hcyclomatic.trans hone⟩

/-- A label and the type of a handler are kept with the class in it. -/
theorem nested_class_in_text :
    (Tree.sampleFileOf (Tree.sampleQuoted [] [])).Conforms ∧
    (Tree.sampleFileOf (Tree.sampleQuoted [Tree.sampleInitializer] [])).Conforms ∧
    (Tree.sampleFileOf (Tree.sampleQuoted [] [Tree.sampleInitializer])).Conforms ∧
    DiffersInside true true .statement (Tree.sampleQuoted [] [])
      (Tree.sampleQuoted [Tree.sampleInitializer] []) ∧
    DiffersInside true true .statement (Tree.sampleQuoted [] [])
      (Tree.sampleQuoted [] [Tree.sampleInitializer]) ∧
    (MethodDecl.ofTree (Tree.sampleMethodOf
        (Tree.sampleQuoted [Tree.sampleInitializer] []))).body.map MethodBody.block ≠
      (MethodDecl.ofTree (Tree.sampleMethodOf
        (Tree.sampleQuoted [] []))).body.map MethodBody.block ∧
    (MethodDecl.ofTree (Tree.sampleMethodOf
        (Tree.sampleQuoted [] [Tree.sampleInitializer]))).body.map MethodBody.block ≠
      (MethodDecl.ofTree (Tree.sampleMethodOf
        (Tree.sampleQuoted [] []))).body.map MethodBody.block := by
  have hblock (ls ts : List Tree) :
      (MethodDecl.ofTree (Tree.sampleMethodOf (Tree.sampleQuoted ls ts))).body.map
          MethodBody.block =
        some [.tryCatch [] [.switch .atom [.mk (Tree.sampleLabel ls).text []]]
          [.mk [(Tree.sampleHandledType ts).text] []] none] := rfl
  refine ⟨Tree.conforms_of_check 8 _ (by decide +kernel),
    Tree.conforms_of_check 8 _ (by decide +kernel), Tree.conforms_of_check 8 _ (by decide +kernel),
    Tree.differsInside_sampleQuoted .., Tree.differsInside_sampleQuoted .., ?_, ?_⟩
  · have htext : (Tree.sampleLabel [Tree.sampleInitializer]).text ≠ (Tree.sampleLabel []).text := by
      decide +kernel
    rw [hblock, hblock]
    simp [htext]
  · have htext : (Tree.sampleHandledType [Tree.sampleInitializer]).text ≠
        (Tree.sampleHandledType []).text := by
      decide +kernel
    rw [hblock, hblock]
    simp [htext]

end MethodDecl

end CodeRisk
