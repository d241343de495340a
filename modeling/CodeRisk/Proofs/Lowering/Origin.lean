import CodeRisk.Proofs.Lowering.Collected
import CodeRisk.Proofs.Lowering.Lists
import CodeRisk.Proofs.Pieces

/-!
# Where code comes from

Every statement and every expression in a unit, however deep, is what some nodes of the file were
lowered to (`Piece.LoweredFrom`). The parts of what a node is lowered to are what nodes below it are
lowered to (`Piece.LoweredFrom.part`), so this goes from the statements of a body down to all that
they contain (`SourceUnit.loweredFrom_of_contains`). A handler is found in a try statement only, and
it comes from a node of its own (`SourceUnit.exists_handler_node`).
-/
namespace CodeRisk
open Java (Tree NodeKind Field)

/-- The handlers of a try statement. -/
def Piece.handlers : Piece → List CatchClause
  | stmt (.tryCatch _ _ cs _) => cs
  | _ => []

/-- The piece is what some of the nodes are lowered to: a node as a statement, the statements of a
node as a block, nothing at all, or the values of some nodes, joined. -/
inductive Piece.LoweredFrom (ns : List Tree) : Piece → Prop where
  | stmt {t : Tree} (ht : t ∈ ns) : LoweredFrom ns (.stmt (Stmt.ofTree t))
  | block {t : Tree} (ht : t ∈ ns) : LoweredFrom ns (.stmt (.block (Stmt.ofBlock t.children)))
  | nothing : LoweredFrom ns (.stmt (.simple []))
  | values {ts : List Tree} (hts : ts ⊆ ns) :
      LoweredFrom ns (.stmt (.simple [.ofParts (ts.map Expr.ofTree)]))
  | expr {ts : List Tree} (hts : ts ⊆ ns) : LoweredFrom ns (.expr (.ofParts (ts.map Expr.ofTree)))

/-- With each node there are the nodes right below it. -/
def Java.Tree.ClosedBelow (ns : List Tree) : Prop :=
  ∀ t ∈ ns, t.children ⊆ ns

theorem Java.Tree.closedBelow_nodes (root : Tree) : Tree.ClosedBelow root.nodes :=
  fun _ ht _ hc => Tree.mem_nodes_of_child ht hc

theorem Expr.ofParts_singleton (e : Expr) : ofParts [e] = e := by
  cases e <;> rfl

namespace Piece.LoweredFrom
variable {ns cs : List Tree}

/-! ## What lowering picks -/

theorem node {t : Tree} (ht : t ∈ ns) : LoweredFrom ns (.expr (Expr.ofTree t)) := by
  have h : LoweredFrom ns (.expr (.ofParts ([t].map Expr.ofTree))) :=
    .expr (List.cons_subset.mpr ⟨ht, List.nil_subset ns⟩)
  rwa [List.map_singleton, Expr.ofParts_singleton] at h

theorem atom : LoweredFrom ns (.expr .atom) := by
  have h : LoweredFrom ns (.expr (.ofParts ([].map Expr.ofTree))) := .expr (List.nil_subset ns)
  exact h

theorem value {t : Tree} (ht : t ∈ ns) : LoweredFrom ns (.stmt (.simple [Expr.ofTree t])) := by
  have h : LoweredFrom ns (.stmt (.simple [.ofParts ([t].map Expr.ofTree)])) :=
    .values (List.cons_subset.mpr ⟨ht, List.nil_subset ns⟩)
  rwa [List.map_singleton, Expr.ofParts_singleton] at h

section Picks
variable (hcs : cs ⊆ ns)
include hcs

theorem elim_find? (q : Tree → Bool) :
    LoweredFrom ns (.expr ((cs.find? q).elim .atom Expr.ofTree)) := by
  cases h : cs.find? q with
  | none => exact .atom
  | some t => exact .node (hcs (List.mem_of_find?_eq_some h))

theorem inRole (f : Field) : LoweredFrom ns (.expr (Expr.inRole f cs)) := by
  rw [Expr.inRole_eq]
  exact elim_find? hcs _

theorem ofFirst : LoweredFrom ns (.expr (Expr.ofFirst cs)) := by
  rw [Expr.ofFirst_eq]
  exact elim_find? hcs _

theorem ofParenthesized : LoweredFrom ns (.expr (Expr.ofParenthesized cs)) := by
  rw [Expr.ofParenthesized_eq]
  exact elim_find? hcs _

theorem map_filter (q : Tree → Bool) :
    ∀ e ∈ (cs.filter q).map Expr.ofTree, LoweredFrom ns (.expr e) := by
  intro e he
  obtain ⟨t, ht, rfl⟩ := List.mem_map.mp he
  exact .node (hcs (List.mem_filter.mp ht).1)

theorem ofNamed : ∀ e ∈ Expr.ofNamed cs, LoweredFrom ns (.expr e) := by
  rw [Expr.ofNamed_eq]
  exact map_filter hcs _

theorem ofHeader : ∀ e ∈ Expr.ofHeader cs, LoweredFrom ns (.expr e) := by
  rw [Expr.ofHeader_eq]
  exact map_filter hcs _

theorem stmts_map_filter (q : Tree → Bool) :
    ∀ s ∈ (cs.filter q).map Stmt.ofTree, LoweredFrom ns (.stmt s) := by
  intro s hs
  obtain ⟨t, ht, rfl⟩ := List.mem_map.mp hs
  exact .stmt (hcs (List.mem_filter.mp ht).1)

theorem ofBlock : ∀ s ∈ Stmt.ofBlock cs, LoweredFrom ns (.stmt s) := by
  rw [Stmt.ofBlock_eq]
  exact stmts_map_filter hcs _

theorem stmt_inRole? (f : Field) : ∀ s ∈ Stmt.inRole? f cs, LoweredFrom ns (.stmt s) := by
  intro s hs
  rw [Stmt.inRole?_eq] at hs
  obtain ⟨t, ht, rfl⟩ := Option.map_eq_some_iff.mp hs
  exact .stmt (hcs (List.mem_of_find?_eq_some ht))

theorem stmt_inRole (f : Field) : LoweredFrom ns (.stmt (Stmt.inRole f cs)) := by
  rw [Stmt.inRole_eq]
  cases h : Stmt.inRole? f cs with
  | none => exact .nothing
  | some s => exact stmt_inRole? hcs f s h

theorem inFirstBlock? (hns : Tree.ClosedBelow ns) :
    ∀ s ∈ (Stmt.inFirstBlock? cs).getD [], LoweredFrom ns (.stmt s) := by
  rw [Stmt.inFirstBlock?_eq]
  cases h : cs.find? (Tree.isNode .block) with
  | none => nofun
  | some b => exact ofBlock (hns b (hcs (List.mem_of_find?_eq_some h)))

theorem inFinally? (hns : Tree.ClosedBelow ns) :
    ∀ s ∈ (Stmt.inFinally? cs).getD [], LoweredFrom ns (.stmt s) := by
  rw [Stmt.inFinally?_eq]
  cases h : cs.find? (Tree.isNode .finallyClause) with
  | none => nofun
  | some c => exact inFirstBlock? (hns c (hcs (List.mem_of_find?_eq_some h))) hns

theorem ofLambdaBody : LoweredFrom ns (.stmt (Stmt.ofLambdaBody cs)) := by
  rw [Stmt.ofLambdaBody_eq]
  cases h : cs.find? fun c => c.field == some .body with
  | none => exact .nothing
  | some b =>
    have hb := hcs (List.mem_of_find?_eq_some h)
    rw [Option.elim_some]
    split
    · exact .stmt hb
    · exact .value hb

variable (hns : Tree.ClosedBelow ns)
include hns

theorem ofResources : ∀ e ∈ Expr.ofResources cs, LoweredFrom ns (.expr e) := by
  rw [Expr.ofResources_eq]
  cases h : cs.find? (Tree.isBranchInRole .resources) with
  | none => nofun
  | some r => exact ofNamed (hns r (hcs (List.mem_of_find?_eq_some h)))

theorem inBody : ∀ s ∈ Stmt.inBody cs, LoweredFrom ns (.stmt s) := by
  rw [Stmt.inBody_eq]
  cases h : cs.find? (Tree.isBranchInRole .body) with
  | none => nofun
  | some b => exact ofBlock (hns b (hcs (List.mem_of_find?_eq_some h)))

end Picks

/-- The statements of a group or a rule are in its cases. -/
theorem ofEntry {e : Tree} (he : e.children ⊆ ns) :
    ∀ p ∈ ofCases (SwitchCase.ofEntry e), LoweredFrom ns p := by
  have hbodies : ∀ s ∈ (SwitchCase.ofEntry e).flatMap SwitchCase.body,
      LoweredFrom ns (.stmt s) := by
    intro s hs
    refine stmts_map_filter he Tree.isEntryStatement s ?_
    rw [SwitchCase.ofEntry] at hs
    split at hs
    · rw [← SwitchCase.ofGroup_statements]
      exact List.mem_append_right _ hs
    · split at hs
      · rwa [List.flatMap_singleton, SwitchCase.ofRule_body] at hs
      · cases hs
  intro p hp
  obtain ⟨c, hc, hp⟩ := List.mem_flatMap.mp hp
  obtain ⟨s, hs, rfl⟩ := List.mem_map.mp hp
  exact hbodies s (List.mem_flatMap.mpr ⟨c, hc, hs⟩)

theorem cases_inBody (hns : Tree.ClosedBelow ns) (hcs : cs ⊆ ns) :
    ∀ p ∈ ofCases (SwitchCase.inBody cs), LoweredFrom ns p := by
  rw [SwitchCase.inBody_eq]
  cases h : cs.find? (Tree.isBranchInRole .body) with
  | none => nofun
  | some b =>
    have hb := hns b (hcs (List.mem_of_find?_eq_some h))
    intro p hp
    rw [Option.elim_some, SwitchCase.ofEntries_eq, ofCases, List.flatMap_assoc] at hp
    obtain ⟨e, he, hp⟩ := List.mem_flatMap.mp hp
    exact ofEntry (hns e (hb he)) p hp

theorem handlers_ofNamed (hns : Tree.ClosedBelow ns) (hcs : cs ⊆ ns) :
    ∀ p ∈ ofHandlers (CatchClause.ofNamed cs), LoweredFrom ns p := by
  intro p hp
  obtain ⟨c, hc, hp⟩ := List.mem_flatMap.mp hp
  obtain ⟨s, hs, rfl⟩ := List.mem_map.mp hp
  rw [CatchClause.ofNamed_eq] at hc
  obtain ⟨t, ht, rfl⟩ := List.mem_map.mp hc
  exact inBody (hns t (hcs (List.mem_filter.mp ht).1)) hns s hs

/-! ## One step -/

/-- The parts of joined values are parts of one of them, or the values themselves. -/
theorem part_ofParts {es : List Expr} (hes : ∀ e ∈ es, LoweredFrom ns (.expr e))
    (hparts : ∀ e ∈ es, ∀ q ∈ (Piece.expr e).parts, LoweredFrom ns q) :
    ∀ q ∈ (Piece.expr (.ofParts es)).parts, LoweredFrom ns q := by
  have hmem : ∀ e ∈ es.filter (fun e => !e.isAtom), e ∈ es := fun e he =>
    (List.mem_filter.mp he).1
  rw [Expr.ofParts]
  split
  next => exact List.forall_mem_nil _
  next e hone => exact hparts e (hmem e (hone ▸ List.mem_singleton_self e))
  next =>
    intro q hq
    obtain ⟨e, he, rfl⟩ := List.mem_map.mp hq
    exact hes e (hmem e he)

theorem part_expr (hns : Tree.ClosedBelow ns) : (t : Tree) → t ∈ ns →
    ∀ q ∈ (Piece.expr (Expr.ofTree t)).parts, LoweredFrom ns q
  | .leaf .., _ => nofun
  | .branch k f cs, ht => by
    have hcs : cs ⊆ ns := hns _ ht
    have ih : ∀ c ∈ cs, ∀ q ∈ (Piece.expr (Expr.ofTree c)).parts, LoweredFrom ns q :=
      fun c hc => part_expr hns c (hcs hc)
    cases k with
    | ternary =>
      exact List.forall_mem_cons.mpr ⟨inRole hcs _, List.forall_mem_cons.mpr
        ⟨inRole hcs _, List.forall_mem_singleton.mpr (inRole hcs _)⟩⟩
    | lambda => exact List.forall_mem_singleton.mpr (ofLambdaBody hcs)
    | switch => exact List.forall_mem_cons.mpr ⟨inRole hcs _, cases_inBody hns hcs⟩
    | classBody => nofun
    | _ =>
      show ∀ q ∈ (Piece.expr (.ofParts (Expr.ofNamed cs))).parts, LoweredFrom ns q
      refine part_ofParts (ofNamed hcs) fun e he => ?_
      rw [Expr.ofNamed_eq] at he
      obtain ⟨c, hc, rfl⟩ := List.mem_map.mp he
      exact ih c (List.mem_filter.mp hc).1

/-- A node that stands for a simple statement keeps its values. -/
theorem part_simple (hcs : cs ⊆ ns) :
    ∀ q ∈ (Piece.stmt (.simple ((Expr.ofNamed cs).filter fun e => !e.isAtom))).parts,
      LoweredFrom ns q :=
  List.forall_mem_map.mpr fun e he => ofNamed hcs e (List.mem_filter.mp he).1

/-- A try statement keeps its resources, and the statements of its block, of its handlers and of
what is done at the end. -/
theorem part_tryCatch (hns : Tree.ClosedBelow ns) (hcs : cs ⊆ ns) :
    ∀ q ∈ (Piece.stmt (.tryCatch (Expr.ofResources cs) (Stmt.inBody cs) (CatchClause.ofNamed cs)
      (Stmt.inFinally? cs))).parts, LoweredFrom ns q := by
  rw [parts, List.forall_mem_append, List.forall_mem_append, List.forall_mem_append,
    List.forall_mem_map, List.forall_mem_map, List.forall_mem_map]
  exact ⟨⟨⟨ofResources hcs hns, inBody hcs hns⟩, handlers_ofNamed hns hcs⟩, inFinally? hcs hns⟩

/-- What a labeled statement or nothing is lowered to: one of its children, as a statement. -/
theorem ofLast?_cases (cs : List Tree) :
    (Stmt.ofLast? cs).getD (.simple []) = .simple [] ∨
      ∃ c ∈ cs, (Stmt.ofLast? cs).getD (.simple []) = Stmt.ofTree c := by
  rw [Stmt.ofLast?_eq]
  cases h : (cs.filter fun c => c.isSubstantial && !c.isToken .identifier).getLast? with
  | none => exact .inl rfl
  | some c => exact .inr ⟨c, (List.mem_filter.mp (List.mem_of_getLast? h)).1, rfl⟩

theorem part_stmt (hns : Tree.ClosedBelow ns) : (t : Tree) → t ∈ ns →
    ∀ q ∈ (Piece.stmt (Stmt.ofTree t)).parts, LoweredFrom ns q
  | .leaf .., _ => nofun
  | .branch k f cs, ht => by
    have hcs : cs ⊆ ns := hns _ ht
    have ih : ∀ c ∈ cs, ∀ q ∈ (Piece.stmt (Stmt.ofTree c)).parts, LoweredFrom ns q :=
      fun c hc => part_stmt hns c (hcs hc)
    cases k with
    | block | constructorBody => exact List.forall_mem_map.mpr (ofBlock hcs)
    | ifStatement =>
      refine List.forall_mem_cons.mpr ⟨inRole hcs _, List.forall_mem_cons.mpr
        ⟨stmt_inRole hcs _, List.forall_mem_map.mpr fun s hs => ?_⟩⟩
      exact stmt_inRole? hcs .alternative s (Option.mem_toList.mp hs)
    | whileStatement | enhancedForStatement =>
      exact List.forall_mem_cons.mpr
        ⟨inRole hcs _, List.forall_mem_singleton.mpr (stmt_inRole hcs _)⟩
    | doStatement =>
      exact List.forall_mem_cons.mpr
        ⟨stmt_inRole hcs _, List.forall_mem_singleton.mpr (inRole hcs _)⟩
    | forStatement =>
      exact List.forall_mem_append.mpr ⟨List.forall_mem_map.mpr (ofHeader hcs),
        List.forall_mem_singleton.mpr (stmt_inRole hcs _)⟩
    | switch => exact List.forall_mem_cons.mpr ⟨inRole hcs _, cases_inBody hns hcs⟩
    | tryStatement | tryWithResources => exact part_tryCatch hns hcs
    | throwStatement => exact List.forall_mem_singleton.mpr (ofFirst hcs)
    | synchronizedStatement =>
      exact List.forall_mem_cons.mpr
        ⟨ofParenthesized hcs, List.forall_mem_map.mpr (inBody hcs hns)⟩
    -- a label adds nothing, so the parts are those of the statement behind it
    | labeledStatement =>
      show ∀ q ∈ (Piece.stmt ((Stmt.ofLast? cs).getD (.simple []))).parts, LoweredFrom ns q
      rcases ofLast?_cases cs with h | ⟨c, hc, h⟩
      · rw [h]
        nofun
      · rw [h]
        exact ih c hc
    | classDeclaration | interfaceDeclaration | enumDeclaration | recordDeclaration => nofun
    | _ => exact part_simple hcs

/-- **What a lowered piece is made of** has been lowered too. -/
theorem part (hns : Tree.ClosedBelow ns) {p : Piece} (h : LoweredFrom ns p) :
    ∀ q ∈ p.parts, LoweredFrom ns q := by
  cases h with
  | stmt ht => exact part_stmt hns _ ht
  | block ht => exact List.forall_mem_map.mpr (ofBlock (hns _ ht))
  | nothing => nofun
  | values hts => exact List.forall_mem_singleton.mpr (.expr hts)
  | expr hts =>
    refine part_ofParts (fun e he => ?_) fun e he => ?_
    · obtain ⟨t, ht, rfl⟩ := List.mem_map.mp he
      exact .node (hts ht)
    · obtain ⟨t, ht, rfl⟩ := List.mem_map.mp he
      exact part_expr hns t (hts ht)

/-- **So is all that it contains.** -/
theorem contains (hns : Tree.ClosedBelow ns) {p q : Piece} (h : LoweredFrom ns p)
    (hq : p.Contains q) : LoweredFrom ns q := by
  induction hq with
  | refl => exact h
  | tail _ hpart ih => exact ih.part hns _ hpart

/-! ## Handlers -/

theorem handlers_stmt (hns : Tree.ClosedBelow ns) : (t : Tree) → t ∈ ns →
    ∀ c ∈ (Piece.stmt (Stmt.ofTree t)).handlers,
      ∃ n ∈ ns, n.isNode .catchClause ∧ c = CatchClause.ofTree n
  | .leaf .., _ => nofun
  | .branch k f cs, ht => by
    have hcs : cs ⊆ ns := hns _ ht
    have ih : ∀ c ∈ cs, ∀ h ∈ (Piece.stmt (Stmt.ofTree c)).handlers,
        ∃ n ∈ ns, n.isNode .catchClause ∧ h = CatchClause.ofTree n :=
      fun c hc => handlers_stmt hns c (hcs hc)
    cases k with
    | tryStatement | tryWithResources =>
      show ∀ c ∈ CatchClause.ofNamed cs, _
      rw [CatchClause.ofNamed_eq]
      intro c hc
      obtain ⟨n, hn, rfl⟩ := List.mem_map.mp hc
      obtain ⟨hn, hkind⟩ := List.mem_filter.mp hn
      exact ⟨n, hcs hn, hkind, rfl⟩
    | labeledStatement =>
      show ∀ c ∈ (Piece.stmt ((Stmt.ofLast? cs).getD (.simple []))).handlers, _
      rcases ofLast?_cases cs with h | ⟨c, hc, h⟩
      · rw [h]
        nofun
      · rw [h]
        exact ih c hc
    | _ => nofun

/-- The handlers of a lowered piece come from nodes of their own. -/
theorem exists_handler_node (hns : Tree.ClosedBelow ns) {p : Piece} (h : LoweredFrom ns p) :
    ∀ c ∈ p.handlers, ∃ n ∈ ns, n.isNode .catchClause ∧ c = CatchClause.ofTree n := by
  cases h with
  | stmt ht => exact handlers_stmt hns _ ht
  | expr => nofun
  | _ => nofun

end Piece.LoweredFrom

/-! ## Units -/

namespace SourceUnit
open Piece (LoweredFrom)

theorem child?_mem {ns : List Tree} (hns : Tree.ClosedBelow ns) {t c : Tree} {f : Field}
    (ht : t ∈ ns) (hc : t.child? f = some c) : c ∈ ns :=
  hns t ht (List.mem_of_find?_eq_some hc)

theorem namedChildren_subset {ns : List Tree} (hns : Tree.ClosedBelow ns) {t : Tree} (ht : t ∈ ns) :
    t.namedChildren ⊆ ns :=
  fun _ hc => hns t ht (List.mem_filter.mp hc).1

/-- What a member of a body brings in. -/
theorem loweredFrom_memberPart {ns : List Tree} (hns : Tree.ClosedBelow ns) {t : Tree} (ht : t ∈ ns)
    {part : CodePart} (hpart : part ∈ memberParts t) :
    ∀ s ∈ part.statement?, LoweredFrom ns (.stmt s) := by
  rcases List.mem_append.mp hpart with hpart | hpart
  · obtain ⟨b, hb, rfl⟩ := List.mem_map.mp hpart
    have hmem : b ∈ ns := by
      rw [Option.mem_toList, initializerBlock?] at hb
      split at hb
      · cases hb
        exact ht
      · split at hb
        · exact hns t ht (List.mem_of_find?_eq_some hb)
        · cases hb
    rintro s ⟨⟩
    exact .block hmem
  · split at hpart
    · obtain rfl := List.mem_singleton.mp hpart
      have hvalues : initialValues t ⊆ ns := by
        intro v hv
        obtain ⟨d, hd, hv⟩ := List.mem_filterMap.mp hv
        exact child?_mem hns (namedChildren_subset hns ht (List.mem_filter.mp hd).1) hv
      intro s hs
      rw [CodePart.statement?] at hs
      split at hs
      · cases hs
      · cases hs
        exact .values hvalues
    · cases hpart

/-- What a node brings in to the code outside methods. -/
theorem loweredFrom_codePart {ns : List Tree} (hns : Tree.ClosedBelow ns) {t : Tree} (ht : t ∈ ns)
    {part : CodePart} (hpart : part ∈ codeParts t) :
    ∀ s ∈ part.statement?, LoweredFrom ns (.stmt s) := by
  rcases List.mem_append.mp hpart with hpart | hpart
  · split at hpart
    · obtain ⟨b, hb, rfl⟩ := List.mem_map.mp hpart
      have hmem := child?_mem hns ht (Option.mem_toList.mp hb)
      rintro s ⟨⟩
      exact .block hmem
    · cases hpart
  · split at hpart
    · obtain ⟨m, hm, hpart⟩ := List.mem_flatMap.mp hpart
      exact loweredFrom_memberPart hns (namedChildren_subset hns ht hm) hpart
    · cases hpart

/-- **All code of a unit is lowered from nodes of its tree.** -/
theorem loweredFrom_of_contains {n : Nat} {root : Tree} {p : Piece}
    (h : (ofTree n root).Contains p) : LoweredFrom root.nodes p := by
  have hns := Tree.closedBelow_nodes root
  obtain ⟨hmethods, -, -, -, hcode⟩ := ofTree_eq_nodes n root
  rcases h with ⟨m, hm, b, hb, s, hs, hp⟩ | ⟨s, hs, hp⟩
  · rw [hmethods] at hm
    obtain ⟨t, ht, rfl⟩ := List.mem_map.mp hm
    obtain ⟨c, hc, rfl⟩ := Option.map_eq_some_iff.mp hb
    have ht := (List.mem_filter.mp ht).1
    have hmem := hns c (hns t ht (List.mem_of_find?_eq_some hc))
    exact (LoweredFrom.ofBlock hmem s hs).contains hns hp
  · rw [hcode] at hs
    obtain ⟨part, hpart, hs⟩ := List.mem_filterMap.mp hs
    obtain ⟨t, ht, hpart⟩ := List.mem_flatMap.mp hpart
    exact (loweredFrom_codePart hns ht hpart s hs).contains hns hp

/-- **Where handlers come from.** Each handler in a unit, at whatever depth, is what a node of the
tree is lowered to. -/
theorem exists_handler_node {n : Nat} {root : Tree} {p : Piece}
    (h : (ofTree n root).Contains p) :
    ∀ c ∈ p.handlers, ∃ n ∈ root.nodes, n.isNode .catchClause ∧ c = CatchClause.ofTree n :=
  (loweredFrom_of_contains h).exists_handler_node (Tree.closedBelow_nodes root)

end SourceUnit

end CodeRisk
