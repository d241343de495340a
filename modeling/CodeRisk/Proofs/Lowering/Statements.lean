import CodeRisk.Proofs.Lowering.Faithful

/-!
# Lowering of statements

Every kind of statement keeps what counts, given that its children do. The lemmas have the shape of
those on expressions: the rule of the node tells its children, what lowering picks out of them
leaves the marks that they leave, and the rest leaves none. Blocks come first, then the cases of a
switch and the handlers of a try statement, which are lists of trees of their own, and then one
lemma for each kind of statement. They make the step of the induction over the tree
(`Conforms.faithful`).
-/
namespace CodeRisk.Java.Tree

section Branches
variable {k : NodeKind} {f : Option Field} {cs : List Tree} {d : Nat} {p : NodeKind}

/-! ## Blocks -/

/-- The statements of a block are its children. -/
theorem flatMap_marks_ofBlock (hk : k.isBlock) (h : Follows k cs) (ih : ∀ c ∈ cs, Faithful c) :
    (Stmt.ofBlock cs).flatMap (Stmt.marks d) = cs.flatMap (marks d k) := by
  have hkind : k.isSequence ∧ k.hasAside = false := by
    cases k <;> first | exact ⟨rfl, rfl⟩ | cases hk
  obtain ⟨r, hr, hyields⟩ := h.derived
  obtain ⟨l, us, m, hcs, hus⟩ := hyields.block hr hk
  rw [Stmt.ofBlock_eq, List.flatMap_map]
  refine flatMap_filter_eq (fun c hc _ => ?_) fun c _ hc => marks_of_not_isSubstantial hc
  have hstatement : c.isStatement := by
    cases c with
    | leaf j g l => rfl
    | branch j g ds =>
      have hmem := branch_mem_withoutComments hc
      rw [hcs] at hmem
      have hmem : branch j g ds ∈ us := by simpa [mark] using hmem
      exact (hus _ hmem).statement
  have hsite : Site.isStatement ⟨k, c⟩ := Site.isStatement_of_isSequence hkind.1
  have hplain := h.plain (Site.holdsStatements_of_isStatement hsite) c hc
  exact (ih c hc).statement d k hstatement hplain (Site.isAside_eq_false hkind.2) fun _ => hsite

/-- The block in the role of a body. -/
theorem marks_inBody (bs : List Tree) (h : Follows k cs)
    (hfind : (withoutComments cs).find? (isBranchInRole .body) =
      some (branch .block (some .body) bs))
    (ih : ∀ c ∈ cs, Faithful c) (hk : k.hasAside = false) :
    (Stmt.inBody cs).flatMap (Stmt.marks d) = (branch .block (some .body) bs).marks d k := by
  rw [Stmt.inBody_eq, h.find? (.branchInRole .body), hfind]
  have hmem : branch .block (some .body) bs ∈ cs :=
    (List.mem_filter.mp (List.mem_of_find?_eq_some hfind)).1
  refine ((ih _ hmem).block rfl rfl d).trans ?_
  exact (marks_of_isTransparent (Site.isAside_eq_false hk) rfl).symm

/-! ## Cases and handlers -/

/-- The statements of a group or rule are those of its children that are no labels. -/
theorem flatMap_marks_entryStatements (h : Follows k cs) (ih : ∀ c ∈ cs, Faithful c)
    (hk : k.isSequence)
    (hcs : ∀ c ∈ withoutComments cs,
      (∃ l, c = mark l) ∨ (∃ ls, c = branch .switchLabel none ls) ∨ c.IsStatement none) :
    ((cs.filter isEntryStatement).map Stmt.ofTree).flatMap (Stmt.marks d) =
      cs.flatMap (marks d k) := by
  rw [List.flatMap_map]
  refine flatMap_filter_eq (fun c hc hentry => ?_) fun c _ hc => ?_
  · have hstatement : c.isStatement := by
      cases c with
      | leaf j g l => rfl
      | branch j g ds =>
        rcases hcs _ (branch_mem_withoutComments hc) with ⟨l, hl⟩ | ⟨ls, hls⟩ | hs
        · cases hl
        · cases hls
          cases hentry
        · exact hs.statement
    have haside : k.hasAside = false := by
      cases k <;> first | rfl | cases hk
    have hsite : Site.isStatement ⟨k, c⟩ := Site.isStatement_of_isSequence hk
    have hplain := h.plain (Site.holdsStatements_of_isStatement hsite) c hc
    exact (ih c hc).statement d k hstatement hplain (Site.isAside_eq_false haside) fun _ => hsite
  · cases c with
    | leaf j g l => exact marks_leaf d k j g l
    | branch j g ds =>
      cases j with
      | switchLabel => exact marks_of_isApart rfl
      | _ => cases hc

theorem entry_switchGroup (h : Follows .switchGroup cs) (ih : ∀ c ∈ cs, Faithful c) :
    (SwitchCase.ofEntry (branch .switchGroup f cs)).flatMap (SwitchCase.marks d) =
      (branch .switchGroup f cs).marks d .switchBlock := by
  obtain ⟨r, hr, hyields⟩ := h.derived
  obtain ⟨ls, us, hcs, hus⟩ := hyields.switchGroup hr
  -- a group begins with a label, so no statement is left over in front of the first case
  have hfst : (SwitchCase.ofGroup cs).1 = [] := by
    refine SwitchCase.ofGroup_fst cs (t := branch .switchLabel none ls) rfl ?_
    rw [h.find? ((Skips.node .switchLabel).or .substantial), hcs]
    rfl
  have hstatements := SwitchCase.ofGroup_statements cs
  rw [hfst, List.nil_append] at hstatements
  have hentry : (SwitchCase.ofEntry (branch .switchGroup f cs)).flatMap (SwitchCase.marks d) =
      ((SwitchCase.ofGroup cs).2.flatMap SwitchCase.body).flatMap (Stmt.marks d) :=
    List.flatMap_assoc.symm
  rw [hentry, hstatements, flatMap_marks_entryStatements h ih rfl,
    marks_of_isTransparent (Site.isAside_eq_false rfl) rfl]
  intro c hc
  rw [hcs] at hc
  rcases List.mem_cons.mp hc with rfl | hc
  · exact .inr (.inl ⟨ls, rfl⟩)
  · exact hus c hc

theorem entry_switchRule (h : Follows .switchRule cs) (ih : ∀ c ∈ cs, Faithful c) :
    (SwitchCase.ofEntry (branch .switchRule f cs)).flatMap (SwitchCase.marks d) =
      (branch .switchRule f cs).marks d .switchBlock := by
  obtain ⟨r, hr, hyields⟩ := h.derived
  obtain ⟨ls, l, s, hcs, hs⟩ := hyields.switchRule hr
  have hentry : (SwitchCase.ofEntry (branch .switchRule f cs)).flatMap (SwitchCase.marks d) =
      (SwitchCase.ofRule cs).body.flatMap (Stmt.marks d) :=
    List.flatMap_singleton ..
  rw [hentry, SwitchCase.ofRule_body, flatMap_marks_entryStatements h ih rfl,
    marks_of_isTransparent (Site.isAside_eq_false rfl) rfl]
  intro c hc
  rw [hcs] at hc
  simp only [List.mem_cons, List.not_mem_nil, or_false] at hc
  rcases hc with rfl | rfl | rfl
  · exact .inr (.inl ⟨ls, rfl⟩)
  · exact .inl ⟨l, rfl⟩
  · exact .inr (.inr hs)

theorem switchBlock_marks (h : Follows .switchBlock cs) (ih : ∀ c ∈ cs, Faithful c) :
    (SwitchCase.ofEntries cs).flatMap (SwitchCase.marks d) =
        cs.flatMap (marks d .switchBlock) ∧
      (SwitchCase.ofEntries cs).length = (cs.map entryLabels).sum := by
  obtain ⟨r, hr, hyields⟩ := h.derived
  obtain ⟨l, us, m, hcs, hus⟩ := hyields.switchBlock hr
  have hentry : ∀ c ∈ cs,
      (SwitchCase.ofEntry c).flatMap (SwitchCase.marks d) = c.marks d .switchBlock ∧
        (SwitchCase.ofEntry c).length = c.entryLabels := by
    intro c hc
    cases c with
    | leaf j g l => exact ⟨(marks_leaf d _ j g l).symm, rfl⟩
    | branch j g ds =>
      have hmem := branch_mem_withoutComments hc
      rw [hcs] at hmem
      have hmem : branch j g ds ∈ us := by simpa [mark] using hmem
      refine (ih _ hc).entry ?_ d
      rcases hus _ hmem with ⟨es, hes⟩ | ⟨es, hes⟩
      · cases hes
        exact .inl rfl
      · cases hes
        exact .inr rfl
  rw [SwitchCase.ofEntries_eq]
  constructor
  · rw [List.flatMap_assoc]
    exact List.flatMap_congr fun c hc => (hentry c hc).1
  · rw [List.length_flatMap]
    exact congrArg List.sum (List.map_congr_left fun c hc => (hentry c hc).2)

theorem handler_marks (h : Follows .catchClause cs) (ih : ∀ c ∈ cs, Faithful c)
    (haside : Site.isAside ⟨p, branch .catchClause f cs⟩ = false) :
    (CatchClause.ofTree (branch .catchClause f cs)).marks d =
      (branch .catchClause f cs).marks d p := by
  obtain ⟨r, hr, hyields⟩ := h.derived
  obtain ⟨l, m, ps, n, bs, hcs⟩ := hyields.catchClause hr
  have hfind : (withoutComments cs).find? (isBranchInRole .body) =
      some (branch .block (some .body) bs) := by
    rw [hcs]
    rfl
  have hbody := marks_inBody (d := d) bs h hfind ih rfl
  -- the parameter is the only other child with something below it, and it is apart
  have hparameter : (branch .catchFormalParameter none ps).marks d .catchClause = [] :=
    marks_of_isApart rfl
  rw [marks_of_kind haside rfl, flatMap_marks cs, hcs]
  show ⟨.handler, d⟩ :: (Stmt.inBody cs).flatMap (Stmt.marks d) = _
  rw [hbody]
  simp [hparameter]

theorem finish_marks (h : Follows .finallyClause cs) (ih : ∀ c ∈ cs, Faithful c)
    (haside : Site.isAside ⟨p, branch .finallyClause f cs⟩ = false) :
    ((Stmt.inFirstBlock? cs).getD []).flatMap (Stmt.marks d) =
      (branch .finallyClause f cs).marks d p := by
  obtain ⟨r, hr, hyields⟩ := h.derived
  obtain ⟨l, bs, hcs⟩ := hyields.finallyClause hr
  have hlowered : Stmt.inFirstBlock? cs = some (Stmt.ofBlock bs) := by
    rw [Stmt.inFirstBlock?_eq, h.find? (.node .block), hcs]
    rfl
  have hblock : (branch .block none bs).marks d .finallyClause = bs.flatMap (marks d .block) :=
    marks_of_isTransparent (Site.isAside_eq_false rfl) rfl
  have hmem : branch .block none bs ∈ cs := mem_of_withoutComments_eq hcs (by simp)
  have hstatements := (ih _ hmem).block rfl rfl d
  rw [hlowered, Option.getD_some, marks_of_isTransparent haside rfl,
    flatMap_marks cs, hcs]
  simpa [hblock, children] using hstatements

/-! ## Statements -/

theorem statement_ifStatement (h : Follows .ifStatement cs) (ih : ∀ c ∈ cs, Faithful c)
    (haside : Site.isAside ⟨p, branch .ifStatement f cs⟩ = false) :
    (Stmt.ofTree (branch .ifStatement f cs)).marks d =
      (branch .ifStatement f cs).marks d p := by
  obtain ⟨r, hr, hyields⟩ := h.derived
  obtain ⟨l, ps, a, us, hcs, ha, hus⟩ := hyields.ifStatement hr
  have hsite (t : Tree) : Site.isAside ⟨.ifStatement, t⟩ = false :=
    Site.isAside_eq_false rfl
  have hcondition := marks_inRole (d := d + 1) (g := .condition)
    (c := branch .parenthesized (some .condition) ps) h (by simp [hcs]) ih rfl (hsite _) rfl
  have hconsequence := marks_stmt_inRole? (d := d + 1) (g := .consequence) (c := a) h
    (by simp [hcs, ha.field]) ih ha.statement (hsite a)
    (Site.isStatement_of_isControl rfl (.inl ha.field))
  show (Stmt.ifElse (Expr.inRole .condition cs) (Stmt.inRole .consequence cs)
    (Stmt.inRole? .alternative cs)).marks d = _
  rw [Stmt.marks_ifElse, marks_stmt_inRole, hcondition, hconsequence,
    marks_of_kind haside rfl, flatMap_marks cs, hcs]
  rcases hus with rfl | ⟨m, b, rfl, hb⟩
  -- without an alternative nothing is lowered in its place; an else-if is lowered like any other
  · have halternative : Stmt.inRole? .alternative cs = none := by
      rw [Stmt.inRole?_eq, h.find? (.role .alternative), hcs]
      simp [ha.field]
    simp [halternative]
  · have halternative := marks_stmt_inRole? (d := d + 1) (g := .alternative) (c := b) h
      (by simp [hcs, ha.field, hb.field]) ih hb.statement (hsite b)
      (Site.isStatement_of_isControl rfl (.inr (.inl hb.field)))
    simp [halternative]

theorem statement_whileStatement (h : Follows .whileStatement cs) (ih : ∀ c ∈ cs, Faithful c)
    (haside : Site.isAside ⟨p, branch .whileStatement f cs⟩ = false) :
    (Stmt.ofTree (branch .whileStatement f cs)).marks d =
      (branch .whileStatement f cs).marks d p := by
  obtain ⟨r, hr, hyields⟩ := h.derived
  obtain ⟨l, ps, b, hcs, hb⟩ := hyields.whileStatement hr
  have hcondition := marks_inRole (d := d + 1) (g := .condition)
    (c := branch .parenthesized (some .condition) ps) h (by simp [hcs]) ih rfl rfl rfl
  have hbody := marks_stmt_body (d := d + 1) (c := b) h (by simp [hcs, hb.field]) ih hb rfl
  show (Stmt.whileLoop (Expr.inRole .condition cs) (Stmt.inRole .body cs)).marks d = _
  rw [Stmt.marks_whileLoop, hcondition, hbody, marks_of_kind haside rfl,
    flatMap_marks cs, hcs]
  simp

theorem statement_doStatement (h : Follows .doStatement cs) (ih : ∀ c ∈ cs, Faithful c)
    (haside : Site.isAside ⟨p, branch .doStatement f cs⟩ = false) :
    (Stmt.ofTree (branch .doStatement f cs)).marks d =
      (branch .doStatement f cs).marks d p := by
  obtain ⟨r, hr, hyields⟩ := h.derived
  obtain ⟨l, b, m, ps, n, hcs, hb⟩ := hyields.doStatement hr
  have hcondition := marks_inRole (d := d) (g := .condition)
    (c := branch .parenthesized (some .condition) ps) h (by simp [hcs, hb.field]) ih rfl rfl rfl
  have hbody := marks_stmt_body (d := d) (c := b) h (by simp [hcs, hb.field]) ih hb rfl
  show (Stmt.doWhile (Stmt.inRole .body cs) (Expr.inRole .condition cs)).marks d = _
  rw [Stmt.marks_doWhile, hcondition, hbody,
    marks_of_isTransparent haside rfl, flatMap_marks cs, hcs]
  simp

/-- The header of a loop: all children but the body. -/
theorem flatMap_marks_ofHeader {us : List Tree} {b : Tree}
    (hcs : withoutComments cs = us ++ [b])
    (hus : ∀ t ∈ us, t.isExpressive ∧ (t.field = none ∨ t.field = some .condition))
    (hb : b.field = some .body) (ih : ∀ c ∈ cs, Faithful c) :
    (Expr.ofHeader cs).flatMap (Expr.marks d) = us.flatMap (marks d .forStatement) := by
  have hheader : (Expr.ofHeader cs).flatMap (Expr.marks d) =
      cs.flatMap fun c => if c.field == some .body then [] else c.marks d .forStatement := by
    rw [Expr.ofHeader_eq, List.flatMap_map]
    refine flatMap_filter_eq (fun c hc hheader => ?_) fun c hc hheader => ?_
    · have hbody : (c.field == some .body) = false := by
        simpa using (Bool.and_eq_true_iff.mp hheader).2
      rw [hbody, if_neg Bool.false_ne_true]
      cases c with
      | leaf j g l => exact (Expr.marks_atom d).trans (marks_leaf d _ j g l).symm
      | branch j g ds =>
        have hmem := branch_mem_withoutComments hc
        rw [hcs] at hmem
        rcases List.mem_append.mp hmem with hmem | hmem
        · obtain ⟨hexpressive, hrole⟩ := hus _ hmem
          refine (ih _ hc).expression d _ hexpressive
            (Site.isAside_eq_false rfl) fun _ => ?_
          rcases hrole with hrole | hrole <;> simp [Site.isStatement, NodeKind.isSequence, hrole]
        -- the body is not part of the header
        · rw [List.mem_singleton.mp hmem, hb] at hbody
          cases hbody
    · cases c with
      | leaf j g l => simp
      | branch j g ds =>
        have hbody : g = some .body := by simpa [isNamed] using hheader
        simp [hbody]
  have hall : (us.flatMap fun c =>
      if c.field == some .body then [] else c.marks d .forStatement) =
      us.flatMap (marks d .forStatement) := by
    refine List.flatMap_congr fun c hc => ?_
    rcases (hus c hc).2 with hrole | hrole <;> simp [hrole]
  rw [hheader, flatMap_withoutComments cs (by simp), hcs, List.flatMap_append, hall]
  simp [hb]

theorem statement_forStatement (h : Follows .forStatement cs) (ih : ∀ c ∈ cs, Faithful c)
    (haside : Site.isAside ⟨p, branch .forStatement f cs⟩ = false) :
    (Stmt.ofTree (branch .forStatement f cs)).marks d =
      (branch .forStatement f cs).marks d p := by
  obtain ⟨r, hr, hyields⟩ := h.derived
  obtain ⟨us, b, hcs, hus, hb⟩ := hyields.forStatement hr
  have hfind : (withoutComments cs).find? (fun c => c.field == some .body) = some b := by
    have hnone : us.find? (fun c => c.field == some .body) = none := by
      rw [List.find?_eq_none]
      intro c hc
      rcases (hus c hc).2 with hrole | hrole <;> simp [hrole]
    rw [hcs, List.find?_append, hnone]
    simp [hb.field]
  have hbody := marks_stmt_body (d := d + 1) h hfind ih hb rfl
  show (Stmt.forLoop (Expr.ofHeader cs) (Stmt.inRole .body cs)).marks d = _
  rw [Stmt.marks_forLoop, flatMap_marks_ofHeader hcs hus hb.field ih, hbody,
    marks_of_kind haside rfl, flatMap_marks cs, hcs]
  simp

theorem statement_enhancedForStatement (h : Follows .enhancedForStatement cs)
    (ih : ∀ c ∈ cs, Faithful c)
    (haside : Site.isAside ⟨p, branch .enhancedForStatement f cs⟩ = false) :
    (Stmt.ofTree (branch .enhancedForStatement f cs)).marks d =
      (branch .enhancedForStatement f cs).marks d p := by
  obtain ⟨r, hr, hyields⟩ := h.derived
  obtain ⟨us, v, m, b, hcs, hsignature, hv, hb⟩ := hyields.enhancedForStatement hr
  have hus : ∀ c ∈ us, c.field ≠ some .value ∧ c.field ≠ some .body := fun c hc =>
    ⟨(hsignature c hc).field_ne rfl, (hsignature c hc).field_ne rfl⟩
  -- the declaration of the variable has none of the roles that count
  have hvariable (e : Nat) : us.flatMap (marks e .enhancedForStatement) = [] := by
    rw [List.flatMap_eq_nil_iff]
    intro c hc
    exact marks_of_isAside (by simp [Site.isAside, (hus c hc).1, (hus c hc).2])
  have hfind (g : Field) (hg : g = .value ∨ g = .body) :
      us.find? (fun c => c.field == some g) = none := by
    rw [List.find?_eq_none]
    intro c hc
    rcases hg with rfl | rfl
    · simpa using (hus c hc).1
    · simpa using (hus c hc).2
  have hvalue := marks_inRole (d := d + 1) (g := .value) (c := v) h
    (by simp [hcs, hfind .value (.inl rfl), hv.field]) ih hv.expressive
    (by simp [Site.isAside, hv.field]) (by simp [Site.isStatement, hv.field]; rfl)
  have hbody := marks_stmt_body (d := d + 1) (c := b) h
    (by simp [hcs, hfind .body (.inr rfl), hv.field, hb.field]) ih hb rfl
  show (Stmt.forEach (Expr.inRole .value cs) (Stmt.inRole .body cs)).marks d = _
  rw [Stmt.marks_forEach, hvalue, hbody, marks_of_kind haside rfl,
    flatMap_marks cs, hcs]
  simp [hvariable]

/-- The handlers and what is done at the end of a try statement. -/
theorem marks_handlers (ts : List Tree) {us : List Tree} (h : Follows k cs)
    (hcs : withoutComments cs = ts ++ us)
    (hts : ∀ t ∈ ts, t.isNode .catchClause = false ∧ t.isNode .finallyClause = false)
    (hus : Yields.IsHandlers us) (hk : ∀ t, Site.isAside ⟨k, t⟩ = false)
    (ih : ∀ c ∈ cs, Faithful c) :
    (CatchClause.ofNamed cs).flatMap (CatchClause.marks d) ++
        ((Stmt.inFinally? cs).getD []).flatMap (Stmt.marks d) = us.flatMap (marks d k) := by
  obtain ⟨hs, fs, rfl, hhs, hfs⟩ := hus
  have hmem : ∀ c ∈ hs ++ fs, c ∈ cs := fun c hc =>
    mem_of_withoutComments_eq hcs (List.mem_append_right _ hc)
  have hhandlers : cs.filter (isNode .catchClause) = hs := by
    have hnone : ts.filter (isNode .catchClause) = [] :=
      List.filter_eq_nil_iff.mpr fun t ht => by simp [hts t ht]
    have hself : hs.filter (isNode .catchClause) = hs := by
      refine List.filter_eq_self.mpr fun t ht => ?_
      obtain ⟨ds, rfl⟩ := hhs t ht
      rfl
    rw [h.filter (.node _), hcs, List.filter_append, List.filter_append, hnone, hself]
    rcases hfs with rfl | ⟨ds, rfl⟩ <;> simp
  have hfinish : cs.find? (isNode .finallyClause) = fs.head? := by
    have hnone : ts.find? (isNode .finallyClause) = none :=
      List.find?_eq_none.mpr fun t ht => by simp [hts t ht]
    have hnone' : hs.find? (isNode .finallyClause) = none := by
      refine List.find?_eq_none.mpr fun t ht => ?_
      obtain ⟨ds, rfl⟩ := hhs t ht
      simp
    rw [h.find? (.node _), hcs, List.find?_append, List.find?_append, hnone, hnone']
    rcases hfs with rfl | ⟨ds, rfl⟩ <;> simp
  rw [CatchClause.ofNamed_eq, hhandlers, Stmt.inFinally?_eq, hfinish, List.flatMap_map,
    List.flatMap_append]
  congr 1
  · refine List.flatMap_congr fun c hc => ?_
    obtain ⟨ds, rfl⟩ := hhs c hc
    exact (ih _ (hmem _ (List.mem_append_left _ hc))).handler rfl d k (hk _)
  · rcases hfs with rfl | ⟨ds, rfl⟩
    · rfl
    · have hfaithful := (ih _ (hmem _ (List.mem_append_right _ (List.mem_singleton_self _)))).finish
        rfl d k (hk _)
      simpa [children] using hfaithful

theorem statement_tryStatement (h : Follows .tryStatement cs) (ih : ∀ c ∈ cs, Faithful c)
    (haside : Site.isAside ⟨p, branch .tryStatement f cs⟩ = false) :
    (Stmt.ofTree (branch .tryStatement f cs)).marks d =
      (branch .tryStatement f cs).marks d p := by
  obtain ⟨r, hr, hyields⟩ := h.derived
  obtain ⟨l, bs, us, hcs, hus⟩ := hyields.tryStatement hr
  have hsite (t : Tree) : Site.isAside ⟨.tryStatement, t⟩ = false :=
    Site.isAside_eq_false rfl
  have hresources : Expr.ofResources cs = [] := by
    have hnone : us.find? (isBranchInRole .resources) = none := by
      refine List.find?_eq_none.mpr fun t ht => ?_
      simp [isBranchInRole_eq_false, hus.field_eq_none t ht]
    rw [Expr.ofResources_eq, h.find? (.branchInRole .resources), hcs]
    simp [hnone]
  have hbody := marks_inBody (d := d) bs h (by rw [hcs]; rfl) ih rfl
  have hhandlers := marks_handlers (d := d) [mark l, branch .block (some .body) bs] h hcs
    (by simp) hus hsite ih
  show (Stmt.tryCatch (Expr.ofResources cs) (Stmt.inBody cs) (CatchClause.ofNamed cs)
    (Stmt.inFinally? cs)).marks d = _
  rw [Stmt.marks_tryCatch, hresources, hbody, List.append_assoc, hhandlers,
    marks_of_kind haside rfl, flatMap_marks cs, hcs]
  simp

theorem statement_tryWithResources (h : Follows .tryWithResources cs)
    (ih : ∀ c ∈ cs, Faithful c)
    (haside : Site.isAside ⟨p, branch .tryWithResources f cs⟩ = false) :
    (Stmt.ofTree (branch .tryWithResources f cs)).marks d =
      (branch .tryWithResources f cs).marks d p := by
  obtain ⟨r, hr, hyields⟩ := h.derived
  obtain ⟨l, rs, bs, us, hcs, hus⟩ := hyields.tryWithResources hr
  have hsite (t : Tree) : Site.isAside ⟨.tryWithResources, t⟩ = false :=
    Site.isAside_eq_false rfl
  have hresources : (Expr.ofResources cs).flatMap (Expr.marks d) =
      (branch .resourceSpecification (some .resources) rs).marks d .tryWithResources := by
    have hmem := mem_of_withoutComments_eq
      (c := branch .resourceSpecification (some .resources) rs) hcs (by simp)
    rw [Expr.ofResources_eq, h.find? (.branchInRole .resources), hcs]
    refine (Expr.marks_ofParts d _).symm.trans ?_
    exact (ih _ hmem).expression d _ rfl (hsite _) (by simp)
  have hbody := marks_inBody (d := d) bs h (by rw [hcs]; rfl) ih rfl
  have hhandlers := marks_handlers (d := d)
    [mark l, branch .resourceSpecification (some .resources) rs, branch .block (some .body) bs]
    h hcs (by simp) hus hsite ih
  show (Stmt.tryCatch (Expr.ofResources cs) (Stmt.inBody cs) (CatchClause.ofNamed cs)
    (Stmt.inFinally? cs)).marks d = _
  rw [Stmt.marks_tryCatch, hresources, hbody, List.append_assoc, hhandlers,
    marks_of_kind haside rfl, flatMap_marks cs, hcs]
  simp

theorem statement_throwStatement (h : Follows .throwStatement cs) (ih : ∀ c ∈ cs, Faithful c)
    (haside : Site.isAside ⟨p, branch .throwStatement f cs⟩ = false) :
    (Stmt.ofTree (branch .throwStatement f cs)).marks d =
      (branch .throwStatement f cs).marks d p := by
  obtain ⟨r, hr, hyields⟩ := h.derived
  obtain ⟨l, e, m, hcs, he⟩ := hyields.throwStatement hr
  have hfirst : (Expr.ofFirst cs).marks d = e.marks d .throwStatement := by
    rw [Expr.ofFirst_eq, h.find? .substantial, hcs]
    cases hsubstantial : e.isSubstantial with
    | true =>
      simpa [hsubstantial] using (ih e (mem_of_withoutComments_eq hcs (by simp))).expression d
        .throwStatement he.expressive (Site.isAside_eq_false rfl) fun _ => rfl
    | false => simp [hsubstantial, marks_of_not_isSubstantial hsubstantial]
  show (Stmt.throw (Expr.ofFirst cs)).marks d = _
  rw [Stmt.marks_throw, hfirst, marks_of_kind haside rfl,
    flatMap_marks cs, hcs]
  simp

theorem statement_synchronizedStatement (h : Follows .synchronizedStatement cs)
    (ih : ∀ c ∈ cs, Faithful c)
    (haside : Site.isAside ⟨p, branch .synchronizedStatement f cs⟩ = false) :
    (Stmt.ofTree (branch .synchronizedStatement f cs)).marks d =
      (branch .synchronizedStatement f cs).marks d p := by
  obtain ⟨r, hr, hyields⟩ := h.derived
  obtain ⟨l, ps, bs, hcs⟩ := hyields.synchronizedStatement hr
  have hlock : (Expr.ofParenthesized cs).marks d =
      (branch .parenthesized none ps).marks d .synchronizedStatement := by
    rw [Expr.ofParenthesized_eq, h.find? (.node .parenthesized), hcs]
    exact (ih (branch .parenthesized none ps) (mem_of_withoutComments_eq hcs (by simp))).expression
      d .synchronizedStatement rfl (Site.isAside_eq_false rfl) (by simp)
  have hbody := marks_inBody (d := d) bs h (by rw [hcs]; rfl) ih rfl
  show (Stmt.synchronized (Expr.ofParenthesized cs) (Stmt.inBody cs)).marks d = _
  rw [Stmt.marks_synchronized, hlock, hbody,
    marks_of_isTransparent haside rfl, flatMap_marks cs, hcs]
  simp

theorem statement_labeledStatement (h : Follows .labeledStatement cs)
    (ih : ∀ c ∈ cs, Faithful c)
    (haside : Site.isAside ⟨p, branch .labeledStatement f cs⟩ = false) :
    (Stmt.ofTree (branch .labeledStatement f cs)).marks d =
      (branch .labeledStatement f cs).marks d p := by
  obtain ⟨r, hr, hyields⟩ := h.derived
  obtain ⟨l, m, s, hcs, hs⟩ := hyields.labeledStatement hr
  have hmem : s ∈ cs := mem_of_withoutComments_eq hcs (by simp)
  have hlast : ((Stmt.ofLast? cs).getD (.simple [])).marks d = s.marks d .labeledStatement := by
    rw [Stmt.ofLast?_eq, h.filter (Skips.substantial.and _), hcs]
    -- the label and the colon are passed over, so the last node is the statement or there is none
    have honly : [leaf .identifier none l, mark m, s].filter
        (fun c => c.isSubstantial && !c.isToken .identifier) =
        [s].filter fun c => c.isSubstantial && !c.isToken .identifier := rfl
    rw [honly, List.filter_cons]
    cases hcounts : s.isSubstantial && !s.isToken .identifier with
    | true =>
      exact (ih s hmem).statement d .labeledStatement hs.statement (h.plain rfl s hmem)
        (Site.isAside_eq_false rfl) fun _ => Site.isStatement_of_isSequence rfl
    | false =>
      cases s with
      | leaf j g n => exact (Stmt.marks_simple d []).trans (marks_leaf d _ j g n).symm
      | branch j g ds => cases hcounts
  show ((Stmt.ofLast? cs).getD (.simple [])).marks d = _
  rw [hlast, marks_of_isTransparent haside rfl, flatMap_marks cs,
    hcs]
  simp

theorem statement_switch (h : Follows .switch cs) (ih : ∀ c ∈ cs, Faithful c)
    (haside : Site.isAside ⟨p, branch .switch f cs⟩ = false)
    (hsite : Site.isStatement ⟨p, branch .switch f cs⟩ = true) :
    (Stmt.ofTree (branch .switch f cs)).marks d = (branch .switch f cs).marks d p := by
  obtain ⟨hparts, hlength⟩ := marks_switch_parts (d := d + 1) (f := f) h ih
  show (Stmt.switch (Expr.inRole .condition cs) (SwitchCase.inBody cs)).marks d = _
  rw [Stmt.marks_switch, hparts, hlength, marks_switch haside hsite]

/-- A statement that holds expressions only. -/
theorem statement_plain (hk : k.isPlain) (h : Follows k cs) (ih : ∀ c ∈ cs, Faithful c)
    (haside : Site.isAside ⟨p, branch k f cs⟩ = false) :
    (Stmt.ofTree (branch k f cs)).marks d = (branch k f cs).marks d p := by
  have hlowered : Stmt.ofTree (branch k f cs) =
      .simple ((Expr.ofNamed cs).filter fun e => !e.isAtom) := by
    cases k <;> first | rfl | cases hk
  rw [hlowered, Stmt.marks_simple, Expr.flatMap_marks_filter, ← Expr.marks_ofParts,
    ← ofTree_of_isPlain (f := f) hk, expression_plain hk h ih haside]

theorem statement_branch (h : Follows k cs) (ih : ∀ c ∈ cs, Faithful c)
    (hk : k.isStatement) (hdeclares : k ≠ .annotationTypeDeclaration)
    (haside : Site.isAside ⟨p, branch k f cs⟩ = false)
    (hswitch : (branch k f cs).isNode .switch → Site.isStatement ⟨p, branch k f cs⟩ = true) :
    (Stmt.ofTree (branch k f cs)).marks d = (branch k f cs).marks d p := by
  by_cases hplain : k.isPlain
  · exact statement_plain hplain h ih haside
  cases k with
  | block =>
    show (Stmt.block (Stmt.ofBlock cs)).marks d = _
    rw [Stmt.marks_block, flatMap_marks_ofBlock rfl h ih,
      marks_of_isTransparent haside rfl]
  | ifStatement => exact statement_ifStatement h ih haside
  | whileStatement => exact statement_whileStatement h ih haside
  | doStatement => exact statement_doStatement h ih haside
  | forStatement => exact statement_forStatement h ih haside
  | enhancedForStatement => exact statement_enhancedForStatement h ih haside
  | switch => exact statement_switch h ih haside (hswitch rfl)
  | tryStatement => exact statement_tryStatement h ih haside
  | tryWithResources => exact statement_tryWithResources h ih haside
  | throwStatement => exact statement_throwStatement h ih haside
  | synchronizedStatement => exact statement_synchronizedStatement h ih haside
  | labeledStatement => exact statement_labeledStatement h ih haside
  | classDeclaration | interfaceDeclaration | enumDeclaration | recordDeclaration =>
    rw [marks_of_isApart rfl]
    exact Stmt.marks_simple d []
  | annotationTypeDeclaration => exact absurd rfl hdeclares
  | _ => first | exact absurd rfl hplain | cases hk

end Branches

/-! ## All trees -/

/-- **Lowering is faithful**: what stands for a conforming tree leaves what the tree leaves, for
every tree in which no annotation type is declared as a statement. The induction goes over the
tree. -/
theorem Conforms.faithful {t : Tree} (h : t.Conforms)
    (hplain : ∀ n ∈ t.nodes, n.declaresAnnotationType = false) : Faithful t := by
  induction h with
  | leaf h => exact .leaf ..
  | @branch k f cs r hr hyields hcomments hcs ih =>
    have hbelow : ∀ c ∈ cs, ∀ n ∈ c.nodes, n ∈ (Tree.branch k f cs).nodes := fun c hc n hn =>
      mem_nodes_of_mem_children (t := Tree.branch k f cs) hc hn
    have ih : ∀ c ∈ cs, Faithful c := fun c hc => ih c hc fun n hn => hplain n (hbelow c hc n hn)
    have h : Follows k cs :=
      ⟨⟨r, hr, hyields⟩, hcomments, fun hk c hc => by
        have hroot := hplain (Tree.branch k f cs) (self_mem_nodes _)
        rw [declaresAnnotationType, hasKind, hk, Bool.true_and, List.any_eq_false] at hroot
        simpa using hroot c hc⟩
    have hkind {j : NodeKind} (hj : (Tree.branch k f cs).isNode j) : k = j := eq_of_beq hj
    -- one clause for each way in which lowering looks at the tree
    constructor
    · intro d p hk haside hswitch
      exact expression_branch h ih hk haside hswitch
    · intro d p hk hdeclares haside hswitch
      refine statement_branch h ih hk ?_ haside hswitch
      rintro rfl
      cases hdeclares
    · rintro j g ds ⟨⟩ hj d
      exact flatMap_marks_ofBlock hj h ih
    · intro hj d
      obtain rfl := hkind hj
      exact switchBlock_marks h ih
    · intro hj d
      rcases hj with hj | hj
      · obtain rfl := hkind hj
        exact ⟨entry_switchGroup h ih, SwitchCase.length_ofGroup cs⟩
      · obtain rfl := hkind hj
        exact ⟨entry_switchRule h ih, rfl⟩
    · intro hj d p haside
      obtain rfl := hkind hj
      exact handler_marks h ih haside
    · intro hj d p haside
      obtain rfl := hkind hj
      exact finish_marks h ih haside

end CodeRisk.Java.Tree
