import CodeRisk.Proofs.Constructs

/-!
# Code that is alike

Two pieces of code are alike if one is the other up to a leeway (`Leeway`): there may be further
atoms in the headers of loops and among the resources of try statements, or other texts for the
labels of switches and the types that handlers take. None of this counts, so what is alike leaves
the same marks (`Stmt.Like.marks_eq`), and by them the same figures. Without any leeway, what is
alike is equal (`Stmt.Like.eq`).
-/
namespace CodeRisk

/-- In what respects two pieces of code may differ and still be alike. -/
structure Leeway where
  /-- The second one may have further atoms in headers and among resources. -/
  atoms : Bool
  /-- The texts of labels and of the types of handlers may be others. -/
  labels : Bool

/-- Further atoms are allowed. -/
def Leeway.ofAtoms : Leeway := ⟨true, false⟩

/-- If `labels` holds, other texts of labels and types are allowed, and nothing else. -/
def Leeway.ofLabels (labels : Bool) : Leeway := ⟨false, labels⟩

/-- Nothing is allowed. -/
def Leeway.exact : Leeway := ⟨false, false⟩

mutual

/-- The statements are alike. -/
inductive Stmt.Like (x : Leeway) : Stmt → Stmt → Prop where
  | ifThen {c c' : Expr} {a a' : Stmt} (hc : Expr.Like x c c') (ha : Stmt.Like x a a') :
      Stmt.Like x (.ifElse c a none) (.ifElse c' a' none)
  | ifElse {c c' : Expr} {a a' b b' : Stmt} (hc : Expr.Like x c c') (ha : Stmt.Like x a a')
      (hb : Stmt.Like x b b') : Stmt.Like x (.ifElse c a (some b)) (.ifElse c' a' (some b'))
  | whileLoop {c c' : Expr} {b b' : Stmt} (hc : Expr.Like x c c') (hb : Stmt.Like x b b') :
      Stmt.Like x (.whileLoop c b) (.whileLoop c' b')
  | doWhile {b b' : Stmt} {c c' : Expr} (hb : Stmt.Like x b b') (hc : Expr.Like x c c') :
      Stmt.Like x (.doWhile b c) (.doWhile b' c')
  | forLoop {es es' : List Expr} {b b' : Stmt} (hes : Expr.LikeIn x es es')
      (hb : Stmt.Like x b b') : Stmt.Like x (.forLoop es b) (.forLoop es' b')
  | forEach {e e' : Expr} {b b' : Stmt} (he : Expr.Like x e e') (hb : Stmt.Like x b b') :
      Stmt.Like x (.forEach e b) (.forEach e' b')
  | switch {e e' : Expr} {cs cs' : List SwitchCase} (he : Expr.Like x e e')
      (hcs : SwitchCase.LikeAll x cs cs') : Stmt.Like x (.switch e cs) (.switch e' cs')
  | tryCatch {rs rs' : List Expr} {b b' : Block} {cs cs' : List CatchClause}
      (hrs : Expr.LikeIn x rs rs') (hb : Stmt.LikeAll x b b') (hcs : CatchClause.LikeAll x cs cs') :
      Stmt.Like x (.tryCatch rs b cs none) (.tryCatch rs' b' cs' none)
  | tryFinally {rs rs' : List Expr} {b b' f f' : Block} {cs cs' : List CatchClause}
      (hrs : Expr.LikeIn x rs rs') (hb : Stmt.LikeAll x b b') (hcs : CatchClause.LikeAll x cs cs')
      (hf : Stmt.LikeAll x f f') :
      Stmt.Like x (.tryCatch rs b cs (some f)) (.tryCatch rs' b' cs' (some f'))
  | throw {e e' : Expr} (he : Expr.Like x e e') : Stmt.Like x (.throw e) (.throw e')
  | block {b b' : Block} (hb : Stmt.LikeAll x b b') : Stmt.Like x (.block b) (.block b')
  | synchronized {e e' : Expr} {b b' : Block} (he : Expr.Like x e e') (hb : Stmt.LikeAll x b b') :
      Stmt.Like x (.synchronized e b) (.synchronized e' b')
  | simple {es es' : List Expr} (hes : Expr.LikeAll x es es') :
      Stmt.Like x (.simple es) (.simple es')

/-- The expressions are alike. -/
inductive Expr.Like (x : Leeway) : Expr → Expr → Prop where
  | conditional {c c' a a' b b' : Expr} (hc : Expr.Like x c c') (ha : Expr.Like x a a')
      (hb : Expr.Like x b b') : Expr.Like x (.conditional c a b) (.conditional c' a' b')
  | lambda {s s' : Stmt} (hs : Stmt.Like x s s') : Expr.Like x (.lambda s) (.lambda s')
  | switch {e e' : Expr} {cs cs' : List SwitchCase} (he : Expr.Like x e e')
      (hcs : SwitchCase.LikeAll x cs cs') : Expr.Like x (.switch e cs) (.switch e' cs')
  | compound {es es' : List Expr} (hes : Expr.LikeAll x es es') :
      Expr.Like x (.compound es) (.compound es')
  | atom : Expr.Like x .atom .atom

/-- The statements are alike, one by one. -/
inductive Stmt.LikeAll (x : Leeway) : List Stmt → List Stmt → Prop where
  | nil : Stmt.LikeAll x [] []
  | cons {s s' : Stmt} {ss ss' : List Stmt} (hs : Stmt.Like x s s') (hss : Stmt.LikeAll x ss ss') :
      Stmt.LikeAll x (s :: ss) (s' :: ss')

/-- The expressions are alike, one by one. -/
inductive Expr.LikeAll (x : Leeway) : List Expr → List Expr → Prop where
  | nil : Expr.LikeAll x [] []
  | cons {e e' : Expr} {es es' : List Expr} (he : Expr.Like x e e') (hes : Expr.LikeAll x es es') :
      Expr.LikeAll x (e :: es) (e' :: es')

/-- The expressions are alike, apart from further atoms where these are allowed. -/
inductive Expr.LikeIn (x : Leeway) : List Expr → List Expr → Prop where
  | nil : Expr.LikeIn x [] []
  | cons {e e' : Expr} {es es' : List Expr} (he : Expr.Like x e e') (hes : Expr.LikeIn x es es') :
      Expr.LikeIn x (e :: es) (e' :: es')
  | atom {es es' : List Expr} (hx : x.atoms = true) (hes : Expr.LikeIn x es es') :
      Expr.LikeIn x es (.atom :: es')

/-- The cases are alike, one by one. -/
inductive SwitchCase.LikeAll (x : Leeway) : List SwitchCase → List SwitchCase → Prop where
  | nil : SwitchCase.LikeAll x [] []
  | cons {l l' : String} {b b' : List Stmt} {cs cs' : List SwitchCase}
      (hl : x.labels = true ∨ l = l') (hb : Stmt.LikeAll x b b')
      (hcs : SwitchCase.LikeAll x cs cs') :
      SwitchCase.LikeAll x (.mk l b :: cs) (.mk l' b' :: cs')

/-- The handlers are alike, one by one. -/
inductive CatchClause.LikeAll (x : Leeway) : List CatchClause → List CatchClause → Prop where
  | nil : CatchClause.LikeAll x [] []
  | cons {ts ts' : List String} {b b' : Block} {cs cs' : List CatchClause}
      (hts : x.labels = true ∨ ts = ts') (hb : Stmt.LikeAll x b b')
      (hcs : CatchClause.LikeAll x cs cs') :
      CatchClause.LikeAll x (.mk ts b :: cs) (.mk ts' b' :: cs')

end

/-! ## Marks -/

theorem SwitchCase.LikeAll.length_eq {x : Leeway} {cs cs' : List SwitchCase}
    (h : SwitchCase.LikeAll x cs cs') : cs'.length = cs.length := by
  match h with
  | .nil => rfl
  | .cons _ _ hcs => exact congrArg (· + 1) hcs.length_eq

section Marks
variable {x : Leeway}

mutual

/-- **Statements that are alike leave the same marks.** -/
theorem Stmt.Like.marks_eq {s s' : Stmt} (d : Nat) : Stmt.Like x s s' → s'.marks d = s.marks d
  | .ifThen hc ha => by
    rw [Stmt.marks_ifElse, Stmt.marks_ifElse, hc.marks_eq, ha.marks_eq]
  | .ifElse hc ha hb => by
    rw [Stmt.marks_ifElse, Stmt.marks_ifElse, hc.marks_eq, ha.marks_eq, Option.toList_some,
      Option.toList_some, List.flatMap_singleton, List.flatMap_singleton, hb.marks_eq]
  | .whileLoop hc hb => by
    rw [Stmt.marks_whileLoop, Stmt.marks_whileLoop, hc.marks_eq, hb.marks_eq]
  | .doWhile hb hc => by
    rw [Stmt.marks_doWhile, Stmt.marks_doWhile, hb.marks_eq, hc.marks_eq]
  | .forLoop hes hb => by
    rw [Stmt.marks_forLoop, Stmt.marks_forLoop, hes.marks_eq, hb.marks_eq]
  | .forEach he hb => by
    rw [Stmt.marks_forEach, Stmt.marks_forEach, he.marks_eq, hb.marks_eq]
  | .switch he hcs => by
    rw [Stmt.marks_switch, Stmt.marks_switch, he.marks_eq, hcs.marks_eq, hcs.length_eq]
  | .tryCatch hrs hb hcs => by
    rw [Stmt.marks_tryCatch, Stmt.marks_tryCatch, hrs.marks_eq, hb.marks_eq, hcs.marks_eq]
  | .tryFinally hrs hb hcs hf => by
    rw [Stmt.marks_tryCatch, Stmt.marks_tryCatch, hrs.marks_eq, hb.marks_eq, hcs.marks_eq,
      Option.getD_some, Option.getD_some, hf.marks_eq]
  | .throw he => by rw [Stmt.marks_throw, Stmt.marks_throw, he.marks_eq]
  | .block hb => by rw [Stmt.marks_block, Stmt.marks_block, hb.marks_eq]
  | .synchronized he hb => by
    rw [Stmt.marks_synchronized, Stmt.marks_synchronized, he.marks_eq, hb.marks_eq]
  | .simple hes => by rw [Stmt.marks_simple, Stmt.marks_simple, hes.marks_eq]

theorem Expr.Like.marks_eq {e e' : Expr} (d : Nat) : Expr.Like x e e' → e'.marks d = e.marks d
  | .conditional hc ha hb => by
    rw [Expr.marks_conditional, Expr.marks_conditional, hc.marks_eq, ha.marks_eq, hb.marks_eq]
  | .lambda hs => by rw [Expr.marks_lambda, Expr.marks_lambda, hs.marks_eq]
  | .switch he hcs => by
    rw [Expr.marks_switch, Expr.marks_switch, he.marks_eq, hcs.marks_eq]
  | .compound hes => by rw [Expr.marks_compound, Expr.marks_compound, hes.marks_eq]
  | .atom => rfl

theorem Stmt.LikeAll.marks_eq {ss ss' : List Stmt} (d : Nat) :
    Stmt.LikeAll x ss ss' → ss'.flatMap (Stmt.marks d) = ss.flatMap (Stmt.marks d)
  | .nil => rfl
  | .cons hs hss => by rw [List.flatMap_cons, List.flatMap_cons, hs.marks_eq, hss.marks_eq]

theorem Expr.LikeAll.marks_eq {es es' : List Expr} (d : Nat) :
    Expr.LikeAll x es es' → es'.flatMap (Expr.marks d) = es.flatMap (Expr.marks d)
  | .nil => rfl
  | .cons he hes => by rw [List.flatMap_cons, List.flatMap_cons, he.marks_eq, hes.marks_eq]

theorem Expr.LikeIn.marks_eq {es es' : List Expr} (d : Nat) :
    Expr.LikeIn x es es' → es'.flatMap (Expr.marks d) = es.flatMap (Expr.marks d)
  | .nil => rfl
  | .cons he hes => by rw [List.flatMap_cons, List.flatMap_cons, he.marks_eq, hes.marks_eq]
  | .atom _ hes => by rw [List.flatMap_cons, hes.marks_eq, Expr.marks_atom, List.nil_append]

theorem SwitchCase.LikeAll.marks_eq {cs cs' : List SwitchCase} (d : Nat) :
    SwitchCase.LikeAll x cs cs' → cs'.flatMap (SwitchCase.marks d) = cs.flatMap (SwitchCase.marks d)
  | .nil => rfl
  | .cons _ hb hcs => by
    rw [List.flatMap_cons, List.flatMap_cons, hcs.marks_eq]
    exact congrArg (· ++ _) (hb.marks_eq d)

theorem CatchClause.LikeAll.marks_eq {cs cs' : List CatchClause} (d : Nat) :
    CatchClause.LikeAll x cs cs' →
      cs'.flatMap (CatchClause.marks d) = cs.flatMap (CatchClause.marks d)
  | .nil => rfl
  | .cons _ hb hcs => by
    rw [List.flatMap_cons, List.flatMap_cons, hcs.marks_eq]
    exact congrArg (⟨.handler, d⟩ :: · ++ _) (hb.marks_eq d)

end

end Marks

/-! ## Without any leeway -/

mutual

/-- **Statements that are alike without any leeway are equal.** -/
theorem Stmt.Like.eq {s s' : Stmt} : Stmt.Like .exact s s' → s' = s
  | .ifThen hc ha => by rw [hc.eq, ha.eq]
  | .ifElse hc ha hb => by rw [hc.eq, ha.eq, hb.eq]
  | .whileLoop hc hb => by rw [hc.eq, hb.eq]
  | .doWhile hb hc => by rw [hb.eq, hc.eq]
  | .forLoop hes hb => by rw [hes.eq, hb.eq]
  | .forEach he hb => by rw [he.eq, hb.eq]
  | .switch he hcs => by rw [he.eq, hcs.eq]
  | .tryCatch hrs hb hcs => by rw [hrs.eq, hb.eq, hcs.eq]
  | .tryFinally hrs hb hcs hf => by rw [hrs.eq, hb.eq, hcs.eq, hf.eq]
  | .throw he => by rw [he.eq]
  | .block hb => by rw [hb.eq]
  | .synchronized he hb => by rw [he.eq, hb.eq]
  | .simple hes => by rw [hes.eq]

theorem Expr.Like.eq {e e' : Expr} : Expr.Like .exact e e' → e' = e
  | .conditional hc ha hb => by rw [hc.eq, ha.eq, hb.eq]
  | .lambda hs => by rw [hs.eq]
  | .switch he hcs => by rw [he.eq, hcs.eq]
  | .compound hes => by rw [hes.eq]
  | .atom => rfl

theorem Stmt.LikeAll.eq {ss ss' : List Stmt} : Stmt.LikeAll .exact ss ss' → ss' = ss
  | .nil => rfl
  | .cons hs hss => by rw [hs.eq, hss.eq]

theorem Expr.LikeAll.eq {es es' : List Expr} : Expr.LikeAll .exact es es' → es' = es
  | .nil => rfl
  | .cons he hes => by rw [he.eq, hes.eq]

theorem Expr.LikeIn.eq {es es' : List Expr} : Expr.LikeIn .exact es es' → es' = es
  | .nil => rfl
  | .cons he hes => by rw [he.eq, hes.eq]
  | .atom hx _ => absurd hx Bool.false_ne_true

theorem SwitchCase.LikeAll.eq {cs cs' : List SwitchCase} :
    SwitchCase.LikeAll .exact cs cs' → cs' = cs
  | .nil => rfl
  | .cons hl hb hcs => by rw [hl.resolve_left Bool.false_ne_true, hb.eq, hcs.eq]

theorem CatchClause.LikeAll.eq {cs cs' : List CatchClause} :
    CatchClause.LikeAll .exact cs cs' → cs' = cs
  | .nil => rfl
  | .cons hts hb hcs => by rw [hts.resolve_left Bool.false_ne_true, hb.eq, hcs.eq]

end

/-! ## Figures -/

namespace Stmt.LikeAll
variable {x : Leeway} {ss ss' : List Stmt}

theorem marksIn_eq (h : Stmt.LikeAll x ss ss') (d : Nat) :
    Outline.marksIn d (Stmt.outlines ss') = Outline.marksIn d (Stmt.outlines ss) := by
  rw [Stmt.marksIn_outlines, Stmt.marksIn_outlines, h.marks_eq]

theorem chargesIn_eq (h : Stmt.LikeAll x ss ss') (d : Nat) :
    Outline.chargesIn d (Stmt.outlines ss') = Outline.chargesIn d (Stmt.outlines ss) := by
  rw [Outline.chargesIn_eq, Outline.chargesIn_eq, h.marksIn_eq]

theorem branches_eq (h : Stmt.LikeAll x ss ss') :
    Outline.branches (Stmt.occurrences ss') = Outline.branches (Stmt.occurrences ss) := by
  rw [Stmt.occurrences, Stmt.occurrences, Outline.branches_occurrencesIn,
    Outline.branches_occurrencesIn, h.chargesIn_eq]

theorem cognition_eq (h : Stmt.LikeAll x ss ss') :
    Outline.cognition (Stmt.occurrences ss') = Outline.cognition (Stmt.occurrences ss) := by
  rw [Stmt.occurrences, Stmt.occurrences, Outline.cognition_occurrencesIn,
    Outline.cognition_occurrencesIn, h.chargesIn_eq]

theorem level_eq (h : Stmt.LikeAll x ss ss') : Stmt.level ss' = Stmt.level ss := by
  rw [Stmt.level, Stmt.level, h.chargesIn_eq]

theorem constructs_eq (h : Stmt.LikeAll x ss ss') :
    Stmt.constructs ss' = Stmt.constructs ss := by
  rw [Stmt.constructs_eq 0, Stmt.constructs_eq 0, h.marksIn_eq]

theorem anyHandles_eq (h : Stmt.LikeAll x ss ss') :
    Stmt.anyHandles ss' = Stmt.anyHandles ss := by
  have hconstructs (ts : List Stmt) :
      Stmt.anyHandles ts = (Stmt.constructs ts).any Construct.handlesExceptions := by
    rw [Stmt.anyHandles_eq, Stmt.constructs, Construct.any_handlesExceptions_filter]
  rw [hconstructs, hconstructs, h.constructs_eq]

end Stmt.LikeAll

/-- The bodies of the methods are alike, or both have none. -/
def MethodDecl.LikeBody (x : Leeway) (m m' : MethodDecl) : Prop :=
  Option.Rel (fun b b' => Stmt.LikeAll x b.block b'.block) m.body m'.body

namespace MethodDecl.LikeBody
variable {x : Leeway} {m m' : MethodDecl}

theorem statements (h : m.LikeBody x m') : Stmt.LikeAll x m.statements m'.statements := by
  unfold LikeBody at h
  unfold MethodDecl.statements
  generalize m.body = b, m'.body = b' at h
  cases h with
  | none => exact .nil
  | some h => exact h

theorem cyclomatic_eq (h : m.LikeBody x m') :
    m'.complexity.cyclomatic = m.complexity.cyclomatic := by
  rw [m.cyclomatic_eq, m'.cyclomatic_eq, MethodDecl.occurrences, MethodDecl.occurrences,
    h.statements.branches_eq]

theorem cognitive_eq (h : m.LikeBody x m') : m'.complexity.cognitive = m.complexity.cognitive := by
  rw [m.cognitive_eq, m'.cognitive_eq, MethodDecl.occurrences, MethodDecl.occurrences,
    h.statements.cognition_eq]

end MethodDecl.LikeBody

/-- The code of the units is alike: that of their methods, one by one, and that outside methods. -/
structure SourceUnit.LikeCode (x : Leeway) (u u' : SourceUnit) : Prop where
  methods : List.Forall₂ (MethodDecl.LikeBody x) u.methods u'.methods
  otherCode : Stmt.LikeAll x u.otherCode u'.otherCode

namespace SourceUnit.LikeCode
variable {x : Leeway} {u u' : SourceUnit} {ν : Type} [Scale ν]

/-- What is equal for methods with bodies that are alike is so for all methods. -/
theorem map_methods {α : Type} {f : MethodDecl → α} (h : u.LikeCode x u')
    (hf : ∀ m m' : MethodDecl, m.LikeBody x m' → f m' = f m) :
    u'.methods.map f = u.methods.map f := by
  have hmethods := h.methods
  generalize u.methods = ms, u'.methods = ms' at hmethods
  induction hmethods with
  | nil => rfl
  | cons hm _ ih => rw [List.map_cons, List.map_cons, hf _ _ hm, ih]

theorem exactCyclomatic_eq (h : u.LikeCode x u') : u'.exactCyclomatic = u.exactCyclomatic := by
  rw [exactCyclomatic, exactCyclomatic, h.otherCode.branches_eq,
    h.map_methods (f := fun m => Outline.branches m.occurrences) fun _ _ hm =>
      hm.statements.branches_eq]

theorem exactCognitive_eq (h : u.LikeCode x u') : u'.exactCognitive = u.exactCognitive := by
  rw [exactCognitive, exactCognitive,
    h.map_methods (f := fun m => Outline.cognition m.occurrences) fun _ _ hm =>
      hm.statements.cognition_eq]

/-- **The figures of a unit are those of code that is alike.** -/
theorem figures_eq (h : u.LikeCode x u') :
    (u'.complexity : CodeComplexity ν).cyclomatic = (u.complexity : CodeComplexity ν).cyclomatic ∧
    (u'.complexity : CodeComplexity ν).cognitive = (u.complexity : CodeComplexity ν).cognitive ∧
    (u'.complexity : CodeComplexity ν).maxNestingDepth =
      (u.complexity : CodeComplexity ν).maxNestingDepth := by
  have hlevels := h.map_methods (f := fun m => Stmt.level m.statements) fun _ _ hm =>
    hm.statements.level_eq
  show u'.tally.cyclomatic = u.tally.cyclomatic ∧ u'.tally.cognitive = u.tally.cognitive ∧
    u'.tally.maxNesting = u.tally.maxNesting
  simp only [tally_eq, h.exactCyclomatic_eq, h.exactCognitive_eq, h.otherCode.level_eq, hlevels,
    and_self]

theorem handlesExceptions_eq (h : u.LikeCode x u') :
    u'.handlesExceptions = u.handlesExceptions := by
  have hany (v : SourceUnit) : v.handlesExceptions =
      ((v.methods.map fun m => Stmt.anyHandles m.statements).any id ||
        Stmt.anyHandles v.otherCode) := by
    have hmethods (ms : List MethodDecl) :
        ((ms.filterMap (·.body)).any fun b => Stmt.anyHandles b.block) =
          (ms.map fun m => Stmt.anyHandles m.statements).any id := by
      induction ms with
      | nil => rfl
      | cons m ms ih =>
        rw [List.map_cons, List.any_cons, ← ih, List.filterMap_cons, MethodDecl.statements]
        cases m.body <;> rfl
    rw [SourceUnit.handlesExceptions, hmethods]
  rw [hany, hany, h.otherCode.anyHandles_eq,
    h.map_methods (f := fun m => Stmt.anyHandles m.statements) fun _ _ hm =>
      hm.statements.anyHandles_eq]

end SourceUnit.LikeCode

end CodeRisk
