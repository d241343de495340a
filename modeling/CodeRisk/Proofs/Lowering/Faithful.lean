import CodeRisk.Proofs.Complexity.Construct
import CodeRisk.Proofs.Lowering.Children

/-!
# Lowering keeps what counts

A tree is **faithful** when what stands for it after lowering leaves the marks that the tree itself
leaves, at every depth and below every node. Lowering looks at one tree in several ways, as an
expression, as a statement, as a block or as an entry of a switch, and there is a clause for each of
them.

The lemmas below take it for granted that the children of a node are faithful. Those on roles say
which marks a child leaves that lowering picks out of the children. Those on expressions say that a
node is then faithful where it stands as an expression, with a case for each kind of node that
lowering knows and one case for all that it does not know.
-/
namespace CodeRisk.Java.Tree

/-! ## Faithful trees -/

/-- What stands for the tree after lowering leaves the marks of the tree, in whichever of the
possible ways the tree is looked at. A switch is a statement or an expression by where it stands. -/
structure Faithful (t : Tree) : Prop where
  expression : ∀ d p, t.isExpressive → Site.isAside ⟨p, t⟩ = false →
    (t.isNode .switch → Site.isStatement ⟨p, t⟩ = false) →
      (Expr.ofTree t).marks d = t.marks d p
  statement : ∀ d p, t.isStatement → t.isNode .annotationTypeDeclaration = false →
    Site.isAside ⟨p, t⟩ = false → (t.isNode .switch → Site.isStatement ⟨p, t⟩ = true) →
      (Stmt.ofTree t).marks d = t.marks d p
  block : ∀ {k f cs}, t = branch k f cs → k.isBlock → ∀ d,
    (Stmt.ofBlock cs).flatMap (Stmt.marks d) = cs.flatMap (marks d k)
  switchBlock : t.isNode .switchBlock → ∀ d,
    (SwitchCase.ofEntries t.children).flatMap (SwitchCase.marks d) =
        t.children.flatMap (marks d .switchBlock) ∧
      (SwitchCase.ofEntries t.children).length = (t.children.map entryLabels).sum
  entry : t.isNode .switchGroup ∨ t.isNode .switchRule → ∀ d,
    (SwitchCase.ofEntry t).flatMap (SwitchCase.marks d) = t.marks d .switchBlock ∧
      (SwitchCase.ofEntry t).length = t.entryLabels
  handler : t.isNode .catchClause → ∀ d p, Site.isAside ⟨p, t⟩ = false →
    (CatchClause.ofTree t).marks d = t.marks d p
  finish : t.isNode .finallyClause → ∀ d p, Site.isAside ⟨p, t⟩ = false →
    ((Stmt.inFirstBlock? t.children).getD []).flatMap (Stmt.marks d) = t.marks d p

theorem Faithful.leaf (k : TokenKind) (f : Option Field) (l : Lexeme) : Faithful (.leaf k f l) where
  expression d p _ _ _ := (Expr.marks_atom d).trans (marks_leaf d p k f l).symm
  statement d p _ _ _ _ := (Stmt.marks_simple d []).trans (marks_leaf d p k f l).symm
  block h := by cases h
  switchBlock h := by cases h
  entry h := by rcases h with h | h <;> cases h
  handler h := by cases h
  finish h := by cases h

/-! ## Children in roles -/

section Branches
variable {k : NodeKind} {f : Option Field} {cs : List Tree} {d : Nat} {p : NodeKind}

theorem isPlain_parent (hk : k.isPlain) (c : Tree) :
    Site.isAside ⟨k, c⟩ = false ∧ Site.isStatement ⟨k, c⟩ = false := by
  have hkind : k.hasAside = false ∧ k.isSequence = false ∧ k.isControl = false := by
    cases k <;> first | exact ⟨rfl, rfl, rfl⟩ | cases hk
  exact ⟨Site.isAside_eq_false hkind.1, Site.isStatement_eq_false hkind.2.1 hkind.2.2⟩

/-- The expressions of a plain node are those of its children. -/
theorem flatMap_marks_ofNamed (hk : k.isPlain) (h : Follows k cs)
    (ih : ∀ c ∈ cs, Faithful c) :
    (Expr.ofNamed cs).flatMap (Expr.marks d) = cs.flatMap (marks d k) := by
  obtain ⟨r, hr, hyields⟩ := h.derived
  rw [Expr.ofNamed_eq, List.flatMap_map]
  refine flatMap_filter_eq (fun c hc _ => ?_) fun c _ hc => marks_of_isNamed_eq_false hc
  obtain ⟨haside, hstatement⟩ := isPlain_parent hk c
  have hexpressive : c.isExpressive := by
    cases c with
    | leaf j g l => rfl
    | branch j g ds =>
      exact hyields.isExpressive_of_isPlain hr hk _ (branch_mem_withoutComments hc)
  exact (ih c hc).expression d k hexpressive haside fun _ => hstatement

/-- The expression in a role that one child has. -/
theorem marks_inRole {g : Field} {c : Tree} (h : Follows k cs)
    (hc : (withoutComments cs).find? (fun c => c.field == some g) = some c)
    (ih : ∀ c ∈ cs, Faithful c) (hexpressive : c.isExpressive)
    (haside : Site.isAside ⟨k, c⟩ = false)
    (hstatement : Site.isStatement ⟨k, c⟩ = false) :
    (Expr.inRole g cs).marks d = c.marks d k := by
  rw [Expr.inRole_eq, h.find? (.role g), hc]
  have hmem : c ∈ cs := (List.mem_filter.mp (List.mem_of_find?_eq_some hc)).1
  exact (ih c hmem).expression d k hexpressive haside fun _ => hstatement

/-- The statement in a role that one child has. -/
theorem marks_stmt_inRole? {g : Field} {c : Tree} (h : Follows k cs)
    (hc : (withoutComments cs).find? (fun c => c.field == some g) = some c)
    (ih : ∀ c ∈ cs, Faithful c) (hkind : c.isStatement)
    (haside : Site.isAside ⟨k, c⟩ = false) (hstatement : Site.isStatement ⟨k, c⟩ = true) :
    (Stmt.inRole? g cs).toList.flatMap (Stmt.marks d) = c.marks d k := by
  rw [Stmt.inRole?_eq, h.find? (.role g), hc]
  have hmem : c ∈ cs := (List.mem_filter.mp (List.mem_of_find?_eq_some hc)).1
  exact (List.flatMap_singleton ..).trans
    ((ih c hmem).statement d k hkind
      (h.plain (Site.holdsStatements_of_isStatement hstatement) c hmem) haside fun _ => hstatement)

theorem marks_stmt_inRole (g : Field) (cs : List Tree) (d : Nat) :
    (Stmt.inRole g cs).marks d = (Stmt.inRole? g cs).toList.flatMap (Stmt.marks d) := by
  rw [Stmt.inRole_eq]
  cases Stmt.inRole? g cs with
  | none => exact Stmt.marks_simple d []
  | some s => exact (List.flatMap_singleton ..).symm

/-- The statement in the role of a body. -/
theorem marks_stmt_body {c : Tree} (h : Follows k cs)
    (hc : (withoutComments cs).find? (fun c => c.field == some .body) = some c)
    (ih : ∀ c ∈ cs, Faithful c) (hkind : c.IsStatement (some .body)) (hk : k.isControl) :
    (Stmt.inRole .body cs).marks d = c.marks d k := by
  have haside : Site.isAside ⟨k, c⟩ = false := by
    have hlambda : (k == .lambda) = false := by
      cases k <;> first | rfl | cases hk
    simp [Site.isAside, hkind.field, hlambda]
  rw [marks_stmt_inRole]
  exact marks_stmt_inRole? h hc ih hkind.statement haside
    (Site.isStatement_of_isControl hk (.inr (.inr hkind.field)))

/-! ## Expressions -/

theorem expression_ternary (h : Follows .ternary cs) (ih : ∀ c ∈ cs, Faithful c)
    (haside : Site.isAside ⟨p, branch .ternary f cs⟩ = false) :
    (Expr.ofTree (branch .ternary f cs)).marks d = (branch .ternary f cs).marks d p := by
  obtain ⟨r, hr, hyields⟩ := h.derived
  obtain ⟨c, l, a, m, b, hcs, hc, ha, hb⟩ := hyields.ternary hr
  have hsite (t : Tree) : Site.isAside ⟨.ternary, t⟩ = false ∧
      Site.isStatement ⟨.ternary, t⟩ = false :=
    ⟨Site.isAside_eq_false rfl, Site.isStatement_eq_false rfl rfl⟩
  have hfindc : (withoutComments cs).find? (fun c => c.field == some .condition) = some c := by
    simp [hcs, hc.field]
  have hfinda : (withoutComments cs).find? (fun c => c.field == some .consequence) = some a := by
    simp [hcs, hc.field, ha.field]
  have hfindb : (withoutComments cs).find? (fun c => c.field == some .alternative) = some b := by
    simp [hcs, hc.field, ha.field, hb.field]
  show (Expr.conditional (Expr.inRole .condition cs) (Expr.inRole .consequence cs)
    (Expr.inRole .alternative cs)).marks d = _
  rw [Expr.marks_conditional,
    marks_inRole h hfindc ih hc.expressive (hsite c).1 (hsite c).2,
    marks_inRole h hfinda ih ha.expressive (hsite a).1 (hsite a).2,
    marks_inRole h hfindb ih hb.expressive (hsite b).1 (hsite b).2,
    marks_of_kind haside rfl, flatMap_marks, hcs]
  simp

/-- The parts of a switch, wherever it stands. -/
theorem marks_switch_parts (h : Follows .switch cs) (ih : ∀ c ∈ cs, Faithful c) :
    (Expr.inRole .condition cs).marks d ++
        (SwitchCase.inBody cs).flatMap (SwitchCase.marks d) = cs.flatMap (marks d .switch) ∧
      (SwitchCase.inBody cs).length = (branch .switch f cs).labelCount := by
  obtain ⟨r, hr, hyields⟩ := h.derived
  obtain ⟨l, ps, bs, hcs⟩ := hyields.switch hr
  have hsite (t : Tree) : Site.isAside ⟨.switch, t⟩ = false ∧
      Site.isStatement ⟨.switch, t⟩ = false :=
    ⟨Site.isAside_eq_false rfl, Site.isStatement_eq_false rfl rfl⟩
  have hcondition : (withoutComments cs).find? (fun c => c.field == some .condition) =
      some (branch .parenthesized (some .condition) ps) := by
    simp [hcs]
  -- the cases are lowered from the block, which stands in the role of the body
  have hbody : SwitchCase.inBody cs = SwitchCase.ofEntries bs := by
    rw [SwitchCase.inBody_eq, h.find? (.branchInRole .body), hcs]
    rfl
  have hmem : branch .switchBlock (some .body) bs ∈ cs :=
    mem_of_withoutComments_eq hcs (by simp)
  obtain ⟨hcases, hlength⟩ := (ih _ hmem).switchBlock rfl d
  constructor
  · rw [marks_inRole h hcondition ih rfl (hsite _).1 (hsite _).2, hbody,
      flatMap_marks cs, hcs]
    have hblock : (branch .switchBlock (some .body) bs).marks d .switch =
        bs.flatMap (marks d .switchBlock) :=
      marks_of_isTransparent (hsite _).1 rfl
    simpa [hblock, children] using hcases
  · rw [hbody]
    refine hlength.trans ?_
    rw [labelCount]
    simp [children, h.filter (.node .switchBlock), hcs]

theorem expression_lambda (h : Follows .lambda cs) (ih : ∀ c ∈ cs, Faithful c)
    (haside : Site.isAside ⟨p, branch .lambda f cs⟩ = false) :
    (Expr.ofTree (branch .lambda f cs)).marks d = (branch .lambda f cs).marks d p := by
  obtain ⟨r, hr, hyields⟩ := h.derived
  obtain ⟨q, l, b, hcs, hq, -, hb⟩ := hyields.lambda hr
  have hbody : b.field = some .body := by
    rcases hb with hb | ⟨bs, rfl⟩
    · exact hb.field
    · rfl
  have hlowered : Stmt.ofLambdaBody cs =
      if b.isNode .block then Stmt.ofTree b else .simple [Expr.ofTree b] := by
    rw [Stmt.ofLambdaBody_eq, h.find? (.role .body), hcs]
    simp [hq, hbody]
  have hparameters : q.marks d .lambda = [] :=
    marks_of_isAside (by simp [Site.isAside, hq])
  have hsite : Site.isAside ⟨.lambda, b⟩ = false := by
    simp [Site.isAside, hbody]
  have hfaithful : Faithful b := ih b (mem_of_withoutComments_eq hcs (by simp))
  show (Expr.lambda (Stmt.ofLambdaBody cs)).marks d = _
  rw [Expr.marks_lambda, hlowered, marks_of_isTransparent haside rfl,
    flatMap_marks cs, hcs]
  -- an expression as a body becomes a statement of its own, a block stays one
  rcases hb with hb | ⟨bs, rfl⟩
  · have hblock : b.isNode .block = false := by
      cases b with
      | leaf => rfl
      | branch k g bs =>
        cases k with
        | block => cases hb.expressive
        | _ => rfl
    have hexpression := hfaithful.expression d .lambda hb.expressive hsite
      fun _ => Site.isStatement_eq_false rfl rfl
    simp [hblock, hparameters, Stmt.marks_simple, hexpression]
  · have hstatement := hfaithful.statement d .lambda rfl rfl hsite (by simp)
    simp [hparameters, hstatement]

theorem ofTree_of_isPlain (hk : k.isPlain) :
    Expr.ofTree (branch k f cs) = .ofParts (Expr.ofNamed cs) := by
  cases k <;> first | rfl | cases hk

theorem expression_plain (hk : k.isPlain) (h : Follows k cs) (ih : ∀ c ∈ cs, Faithful c)
    (haside : Site.isAside ⟨p, branch k f cs⟩ = false) :
    (Expr.ofTree (branch k f cs)).marks d = (branch k f cs).marks d p := by
  have htransparent : k.isTransparent := by
    cases k <;> first | rfl | cases hk
  rw [ofTree_of_isPlain hk, Expr.marks_ofParts, flatMap_marks_ofNamed hk h ih,
    marks_of_isTransparent haside htransparent]

theorem expression_branch (h : Follows k cs) (ih : ∀ c ∈ cs, Faithful c)
    (hk : k.isExpressive) (haside : Site.isAside ⟨p, branch k f cs⟩ = false)
    (hswitch : (branch k f cs).isNode .switch → Site.isStatement ⟨p, branch k f cs⟩ = false) :
    (Expr.ofTree (branch k f cs)).marks d = (branch k f cs).marks d p := by
  by_cases hplain : k.isPlain
  · exact expression_plain hplain h ih haside
  cases k with
  | ternary => exact expression_ternary h ih haside
  | lambda => exact expression_lambda h ih haside
  | switch =>
    show (Expr.switch (Expr.inRole .condition cs) (SwitchCase.inBody cs)).marks d = _
    rw [Expr.marks_switch, (marks_switch_parts (f := f) h ih).1,
      marks_of_construct?_eq_none haside rfl]
    rw [Site.construct?_switch, hswitch rfl]
    rfl
  | classBody => exact (Expr.marks_atom d).trans (marks_of_isApart rfl).symm
  | _ => exact absurd hk hplain

end Branches

end CodeRisk.Java.Tree
