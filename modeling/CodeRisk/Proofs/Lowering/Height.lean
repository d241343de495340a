import CodeRisk.Proofs.Java.Depth
import CodeRisk.Proofs.Complexity.Chain
import CodeRisk.Proofs.Lowering.Lists

/-!
# Lowering adds no nesting

The longest chain of a lowered node has at most one nested construct for each level of the syntax
tree: a condition or a loop is a node of the tree, its branches stand below that node, and
everything else hands on what is below it or drops it. The induction is on the height of the node
and follows both lowerings at once, of statements and of expressions (`Java.Tree.isShallow`). The
lowerings pick children of a node in many ways, and what is picked is no deeper than the children
are.
-/
namespace CodeRisk
open Java (Tree Field NodeKind)
open Java.Tree (forestHeight)

/-! ## The lowerings -/

/-- What a node is lowered to nests no deeper than the node is high. -/
structure Java.Tree.IsShallow (t : Tree) : Prop where
  expression : (Expr.ofTree t).chain ≤ t.height + 1
  statement : (Stmt.ofTree t).chain ≤ t.height + 1

section Picks
variable {n : Nat} (ih : ∀ c : Tree, c.height < n → c.IsShallow) {cs : List Tree}
  (hcs : ∀ c ∈ cs, c.height < n)

/-- What holds of the children of a node holds of their children. -/
theorem Java.Tree.children_below {c : Tree} (hcs : ∀ c ∈ cs, c.height < n) (hc : c ∈ cs) :
    ∀ d ∈ c.children, d.height < n := by
  intro d hd
  have hchild := Tree.height_lt_of_mem_children hd
  have hparent := hcs c hc
  omega

include ih

/-! ### Expressions -/

theorem Expr.chain_elim_le {o : Option Tree} (ho : ∀ c ∈ o, c.height < n) :
    (o.elim .atom Expr.ofTree).chain ≤ n := by
  cases o with
  | none => exact Nat.zero_le n
  | some c =>
    have hc := ho c rfl
    have hchain := (ih c hc).expression
    show (Expr.ofTree c).chain ≤ n
    omega

theorem Expr.chainIn_map_le (hcs : ∀ c ∈ cs, c.height < n) :
    Expr.chainIn (cs.map Expr.ofTree) ≤ n := by
  induction cs with
  | nil => exact Nat.zero_le n
  | cons c cs htail =>
    obtain ⟨hc, hcs⟩ := List.forall_mem_cons.mp hcs
    have hhead := (ih c hc).expression
    have htail := htail hcs
    rw [List.map_cons, Expr.chainIn_cons]
    omega

include hcs

theorem Expr.chain_inRole_le (f : Field) : (Expr.inRole f cs).chain ≤ n := by
  rw [Expr.inRole_eq]
  exact Expr.chain_elim_le ih fun c hc => hcs c (List.mem_of_find?_eq_some hc)

theorem Expr.chain_ofFirst_le : (Expr.ofFirst cs).chain ≤ n := by
  rw [Expr.ofFirst_eq]
  exact Expr.chain_elim_le ih fun c hc => hcs c (List.mem_of_find?_eq_some hc)

theorem Expr.chain_ofParenthesized_le : (Expr.ofParenthesized cs).chain ≤ n := by
  rw [Expr.ofParenthesized_eq]
  exact Expr.chain_elim_le ih fun c hc => hcs c (List.mem_of_find?_eq_some hc)

theorem Expr.chainIn_ofNamed_le : Expr.chainIn (Expr.ofNamed cs) ≤ n := by
  rw [Expr.ofNamed_eq]
  exact Expr.chainIn_map_le ih fun c hc => hcs c (List.mem_filter.mp hc).1

theorem Expr.chainIn_ofHeader_le : Expr.chainIn (Expr.ofHeader cs) ≤ n := by
  rw [Expr.ofHeader_eq]
  exact Expr.chainIn_map_le ih fun c hc => hcs c (List.mem_filter.mp hc).1

theorem Expr.chainIn_ofResources_le : Expr.chainIn (Expr.ofResources cs) ≤ n := by
  rw [Expr.ofResources_eq]
  cases h : cs.find? (Tree.isBranchInRole .resources) with
  | none => exact Nat.zero_le n
  | some c =>
    have hbelow := Tree.children_below hcs (List.mem_of_find?_eq_some h)
    exact Expr.chainIn_ofNamed_le ih hbelow

/-! ### Statements -/

omit hcs in
theorem Stmt.chainIn_map_le (hcs : ∀ c ∈ cs, c.height < n) :
    Stmt.chainIn (cs.map Stmt.ofTree) ≤ n := by
  induction cs with
  | nil => exact Nat.zero_le n
  | cons c cs htail =>
    obtain ⟨hc, hcs⟩ := List.forall_mem_cons.mp hcs
    have hhead := (ih c hc).statement
    have htail := htail hcs
    rw [List.map_cons, Stmt.chainIn_cons]
    omega

omit hcs in
theorem Stmt.chainIn_toList_map_le {o : Option Tree} (ho : ∀ c ∈ o, c.height < n) :
    Stmt.chainIn (o.map Stmt.ofTree).toList ≤ n := by
  cases o with
  | none => exact Nat.zero_le n
  | some c =>
    have hone : ∀ d ∈ [c], d.height < n := List.forall_mem_singleton.mpr (ho c rfl)
    exact Stmt.chainIn_map_le ih hone

theorem Stmt.chainIn_inRole?_le (f : Field) :
    Stmt.chainIn (Stmt.inRole? f cs).toList ≤ n := by
  rw [Stmt.inRole?_eq]
  exact Stmt.chainIn_toList_map_le ih fun c hc => hcs c (List.mem_of_find?_eq_some hc)

theorem Stmt.chainIn_ofLast?_le : Stmt.chainIn (Stmt.ofLast? cs).toList ≤ n := by
  rw [Stmt.ofLast?_eq]
  refine Stmt.chainIn_toList_map_le ih fun c hc => ?_
  exact hcs c (List.mem_filter.mp (List.mem_of_getLast? hc)).1

omit ih hcs in
/-- The empty statement stands for one that is not there. -/
theorem Stmt.chain_getD_le {o : Option Stmt} (ho : Stmt.chainIn o.toList ≤ n) :
    (o.getD (.simple [])).chain ≤ n := by
  cases o with
  | none => exact Nat.zero_le n
  | some s =>
    rw [Option.toList_some, Stmt.chainIn_cons] at ho
    show s.chain ≤ n
    omega

theorem Stmt.chain_inRole_le (f : Field) : (Stmt.inRole f cs).chain ≤ n := by
  rw [Stmt.inRole_eq]
  exact Stmt.chain_getD_le (Stmt.chainIn_inRole?_le ih hcs f)

theorem Stmt.chainIn_ofBlock_le : Stmt.chainIn (Stmt.ofBlock cs) ≤ n := by
  rw [Stmt.ofBlock_eq]
  exact Stmt.chainIn_map_le ih fun c hc => hcs c (List.mem_filter.mp hc).1

theorem Stmt.chainIn_inBody_le : Stmt.chainIn (Stmt.inBody cs) ≤ n := by
  rw [Stmt.inBody_eq]
  cases h : cs.find? (Tree.isBranchInRole .body) with
  | none => exact Nat.zero_le n
  | some c =>
    have hbelow := Tree.children_below hcs (List.mem_of_find?_eq_some h)
    exact Stmt.chainIn_ofBlock_le ih hbelow

theorem Stmt.chainIn_inFinally?_le : Stmt.chainIn ((Stmt.inFinally? cs).getD []) ≤ n := by
  rw [Stmt.inFinally?_eq]
  cases h : cs.find? (Tree.isNode .finallyClause) with
  | none => exact Nat.zero_le n
  | some c =>
    have hbelow := Tree.children_below hcs (List.mem_of_find?_eq_some h)
    show Stmt.chainIn ((Stmt.inFirstBlock? c.children).getD []) ≤ n
    rw [Stmt.inFirstBlock?_eq]
    cases hblock : c.children.find? (Tree.isNode .block) with
    | none => exact Nat.zero_le n
    | some b =>
      have hinner := Tree.children_below hbelow (List.mem_of_find?_eq_some hblock)
      exact Stmt.chainIn_ofBlock_le ih hinner

theorem Stmt.chain_ofLambdaBody_le : (Stmt.ofLambdaBody cs).chain ≤ n := by
  rw [Stmt.ofLambdaBody_eq]
  cases h : cs.find? fun c => c.field == some .body with
  | none => exact Nat.zero_le n
  | some c =>
    have hc := hcs c (List.mem_of_find?_eq_some h)
    have hshallow := ih c hc
    show (if c.isNode .block then Stmt.ofTree c else .simple [Expr.ofTree c]).chain ≤ n
    split
    · have hstatement := hshallow.statement
      omega
    · have hexpression := hshallow.expression
      rw [Stmt.chain_simple, Expr.chainIn_cons, Expr.chainIn_nil]
      omega

/-! ### Cases and handlers -/

omit ih hcs in
theorem SwitchCase.chainIn_eq (ds : List SwitchCase) :
    SwitchCase.chainIn ds = Stmt.chainIn (ds.flatMap SwitchCase.body) := by
  induction ds with
  | nil => rfl
  | cons d ds htail =>
    rw [SwitchCase.chainIn_cons, List.flatMap_cons, Stmt.chainIn_append, htail]

theorem SwitchCase.chainIn_ofGroup_le : SwitchCase.chainIn (SwitchCase.ofGroup cs).2 ≤ n := by
  have hall : Stmt.chainIn ((cs.filter Tree.isEntryStatement).map Stmt.ofTree) ≤ n :=
    Stmt.chainIn_map_le ih fun c hc => hcs c (List.mem_filter.mp hc).1
  rw [← SwitchCase.ofGroup_statements, Stmt.chainIn_append] at hall
  rw [SwitchCase.chainIn_eq]
  omega

theorem SwitchCase.chainIn_ofEntries_le : SwitchCase.chainIn (SwitchCase.ofEntries cs) ≤ n := by
  rw [SwitchCase.ofEntries_eq]
  induction cs with
  | nil => exact Nat.zero_le n
  | cons c cs htail =>
    have htail := htail (List.forall_mem_cons.mp hcs).2
    have hbelow := Tree.children_below hcs (List.mem_cons_self ..)
    have hhead : SwitchCase.chainIn (SwitchCase.ofEntry c) ≤ n := by
      unfold SwitchCase.ofEntry
      split
      · exact SwitchCase.chainIn_ofGroup_le ih hbelow
      · split
        · rw [SwitchCase.chainIn_cons, SwitchCase.ofRule_body, SwitchCase.chainIn_nil]
          have hrule : Stmt.chainIn ((c.children.filter Tree.isEntryStatement).map Stmt.ofTree) ≤
              n := Stmt.chainIn_map_le ih fun d hd => hbelow d (List.mem_filter.mp hd).1
          omega
        · exact Nat.zero_le n
    rw [List.flatMap_cons, SwitchCase.chainIn_append]
    omega

theorem SwitchCase.chainIn_inBody_le : SwitchCase.chainIn (SwitchCase.inBody cs) ≤ n := by
  rw [SwitchCase.inBody_eq]
  cases h : cs.find? (Tree.isBranchInRole .body) with
  | none => exact Nat.zero_le n
  | some c =>
    have hbelow := Tree.children_below hcs (List.mem_of_find?_eq_some h)
    exact SwitchCase.chainIn_ofEntries_le ih hbelow

theorem CatchClause.chainIn_ofNamed_le : CatchClause.chainIn (CatchClause.ofNamed cs) ≤ n := by
  rw [CatchClause.ofNamed_eq]
  induction cs with
  | nil => exact Nat.zero_le n
  | cons c cs htail =>
    have htail := htail (List.forall_mem_cons.mp hcs).2
    have hbelow := Tree.children_below hcs (List.mem_cons_self ..)
    rw [List.filter_cons]
    split
    · have hbody := Stmt.chainIn_inBody_le ih hbelow
      rw [List.map_cons, CatchClause.chainIn_cons, CatchClause.ofTree, CatchClause.body]
      omega
    · exact htail

end Picks

namespace Java.Tree
variable {k : NodeKind} {f : Option Field} {cs : List Tree}
  (ih : ∀ c : Tree, c.height < forestHeight cs → c.IsShallow)
include ih

theorem chain_expression_le : (Expr.ofTree (branch k f cs)).chain ≤ forestHeight cs := by
  have hcs : ∀ c ∈ cs, c.height < forestHeight cs := fun c hc => height_lt_forestHeight hc
  have hcondition := Expr.chain_inRole_le ih hcs .condition
  cases k with
  | ternary =>
    have hconsequence := Expr.chain_inRole_le ih hcs .consequence
    have halternative := Expr.chain_inRole_le ih hcs .alternative
    show (Expr.conditional ..).chain ≤ _
    rw [Expr.chain_conditional]
    omega
  | lambda =>
    have hbody := Stmt.chain_ofLambdaBody_le ih hcs
    show (Expr.lambda _).chain ≤ _
    rw [Expr.chain_lambda]
    omega
  | switch =>
    have hcases := SwitchCase.chainIn_inBody_le ih hcs
    show (Expr.switch ..).chain ≤ _
    rw [Expr.chain_switch]
    omega
  | classBody => exact Nat.zero_le _
  | _ =>
    show (Expr.ofParts (Expr.ofNamed cs)).chain ≤ _
    have hparts := Expr.chain_ofParts_le (Expr.ofNamed cs)
    have hnamed := Expr.chainIn_ofNamed_le ih hcs
    omega

theorem chain_statement_le : (Stmt.ofTree (branch k f cs)).chain ≤ forestHeight cs + 1 := by
  have hcs : ∀ c ∈ cs, c.height < forestHeight cs := fun c hc => height_lt_forestHeight hc
  have hcondition := Expr.chain_inRole_le ih hcs .condition
  have hbody := Stmt.chain_inRole_le ih hcs .body
  have hblock := Stmt.chainIn_ofBlock_le ih hcs
  have hbodyBlock := Stmt.chainIn_inBody_le ih hcs
  cases k with
  | block | constructorBody =>
    show (Stmt.block _).chain ≤ _
    rw [Stmt.chain_block]
    omega
  | ifStatement =>
    have hconsequence := Stmt.chain_inRole_le ih hcs .consequence
    have halternative := Stmt.chainIn_inRole?_le ih hcs .alternative
    show (Stmt.ifElse ..).chain ≤ _
    rw [Stmt.chain_ifElse]
    omega
  | whileStatement =>
    show (Stmt.whileLoop ..).chain ≤ _
    rw [Stmt.chain_whileLoop]
    omega
  | doStatement =>
    show (Stmt.doWhile ..).chain ≤ _
    rw [Stmt.chain_doWhile]
    omega
  | forStatement =>
    have hheader := Expr.chainIn_ofHeader_le ih hcs
    show (Stmt.forLoop ..).chain ≤ _
    rw [Stmt.chain_forLoop]
    omega
  | enhancedForStatement =>
    have hvalue := Expr.chain_inRole_le ih hcs .value
    show (Stmt.forEach ..).chain ≤ _
    rw [Stmt.chain_forEach]
    omega
  | switch =>
    have hcases := SwitchCase.chainIn_inBody_le ih hcs
    show (Stmt.switch ..).chain ≤ _
    rw [Stmt.chain_switch]
    omega
  | tryStatement | tryWithResources =>
    have hresources := Expr.chainIn_ofResources_le ih hcs
    have hhandlers := CatchClause.chainIn_ofNamed_le ih hcs
    have hfinally := Stmt.chainIn_inFinally?_le ih hcs
    show (Stmt.tryCatch ..).chain ≤ _
    rw [Stmt.chain_tryCatch]
    omega
  | throwStatement =>
    have hfirst := Expr.chain_ofFirst_le ih hcs
    show (Stmt.throw _).chain ≤ _
    rw [Stmt.chain_throw]
    omega
  | synchronizedStatement =>
    have hlock := Expr.chain_ofParenthesized_le ih hcs
    show (Stmt.synchronized ..).chain ≤ _
    rw [Stmt.chain_synchronized]
    omega
  | labeledStatement =>
    have hlast := Stmt.chain_getD_le (Stmt.chainIn_ofLast?_le ih hcs)
    show ((Stmt.ofLast? cs).getD (.simple [])).chain ≤ _
    omega
  | classDeclaration | interfaceDeclaration | enumDeclaration | recordDeclaration =>
    exact Nat.zero_le _
  | _ =>
    show (Stmt.simple ((Expr.ofNamed cs).filter fun e => !e.isAtom)).chain ≤ _
    have hparts := Expr.chainIn_filter_le (fun e => !e.isAtom) (Expr.ofNamed cs)
    have hnamed := Expr.chainIn_ofNamed_le ih hcs
    rw [Stmt.chain_simple]
    omega

omit ih in
/-- No node is lowered to more nesting than its height allows. -/
theorem isShallow (t : Tree) : t.IsShallow := by
  generalize hn : t.height = n
  induction n using Nat.strong_induction_on generalizing t with
  | _ n ih =>
    cases t with
    | leaf k f l => exact ⟨Nat.zero_le _, Nat.zero_le _⟩
    | branch k f cs =>
      change forestHeight cs = n at hn
      have hbelow : ∀ c : Tree, c.height < forestHeight cs → c.IsShallow := fun c hc =>
        ih c.height (hn ▸ hc) c rfl
      have hexpression := chain_expression_le (k := k) (f := f) hbelow
      exact ⟨Nat.le_succ_of_le hexpression, chain_statement_le hbelow⟩

end Java.Tree

end CodeRisk
