import CodeRisk.SourceUnit.OfTree

/-!
# The children that lowering looks at

Each part of a statement or an expression is made of some children of a node: the first one in a
role, the first one of a kind, all with a name. The lemmas here say of each part which children
these are, in terms of `find?`, `filter` and `map` on the list of children.
-/
namespace CodeRisk
open Java (Tree Field)

namespace Java.Tree

/-- Whether a node can stand for a statement: it has a name and is no comment. -/
def isSubstantial (t : Tree) : Bool :=
  t.isNamed && !t.isComment

/-- Whether the node is a branch in the role. -/
def isBranchInRole (f : Field) : Tree → Bool
  | .leaf .. => false
  | .branch _ g _ => g == some f

@[simp] theorem isBranchInRole_branch (f : Field) (k : NodeKind) (g : Option Field)
    (cs : List Tree) : (branch k g cs).isBranchInRole f = (g == some f) := rfl

theorem isBranchInRole_eq_false {f : Field} {t : Tree} (h : t.field ≠ some f) :
    t.isBranchInRole f = false := by
  cases t with
  | leaf k g l => rfl
  | branch k g cs => exact beq_false_of_ne h

end Java.Tree

section Recursions
variable {α : Type} {q : Tree → Bool} {u : Tree → α}

/-- A recursion that stops at the first node of a choice. -/
private theorem eq_elim_find? {g : List Tree → α} {e : α} (hnil : g [] = e)
    (hcons : ∀ t ts, g (t :: ts) = if q t then u t else g ts) (cs : List Tree) :
    g cs = (cs.find? q).elim e u := by
  induction cs with
  | nil => exact hnil
  | cons t ts ih =>
    rw [hcons, ih, List.find?_cons]
    cases q t <;> rfl

/-- A recursion that looks for the first node of a choice. -/
private theorem eq_map_find? {g : List Tree → Option α} (hnil : g [] = none)
    (hcons : ∀ t ts, g (t :: ts) = if q t then some (u t) else g ts) (cs : List Tree) :
    g cs = (cs.find? q).map u := by
  rw [eq_elim_find? hnil hcons]
  cases cs.find? q <;> rfl

/-- A recursion that takes all nodes of a choice. -/
private theorem eq_map_filter {g : List Tree → List α} (hnil : g [] = [])
    (hcons : ∀ t ts, g (t :: ts) = if q t then u t :: g ts else g ts) (cs : List Tree) :
    g cs = (cs.filter q).map u := by
  induction cs with
  | nil => exact hnil
  | cons t ts ih =>
    rw [hcons, ih, List.filter_cons]
    split <;> rfl

/-- A recursion that stops at the first branch in a role. -/
private theorem eq_elim_find?_branchInRole {g : List Tree → α} {f : Field} {e : α}
    {v : List Tree → α} (hnil : g [] = e) (hleaf : ∀ k r l ts, g (.leaf k r l :: ts) = g ts)
    (hrole : ∀ k ds ts, g (.branch k (some f) ds :: ts) = v ds)
    (hother : ∀ k r ds ts, r ≠ some f → g (.branch k r ds :: ts) = g ts) (cs : List Tree) :
    g cs = (cs.find? (Tree.isBranchInRole f)).elim e fun c => v c.children := by
  refine eq_elim_find? hnil (fun t ts => ?_) cs
  cases t with
  | leaf k r l => exact hleaf k r l ts
  | branch k r ds =>
    by_cases h : r = some f
    · subst h
      rw [Tree.isBranchInRole_branch, if_pos (beq_self_eq_true _)]
      exact hrole k ds ts
    · rw [Tree.isBranchInRole_branch, if_neg (by simpa using h)]
      exact hother k r ds ts h

end Recursions

variable (f : Field) (cs : List Tree)

/-! ## Expressions -/

theorem Expr.ofNamed_eq : Expr.ofNamed cs = (cs.filter Tree.isNamed).map Expr.ofTree :=
  eq_map_filter rfl (fun _ _ => rfl) cs

theorem Expr.inRole_eq :
    Expr.inRole f cs = (cs.find? fun c => c.field == some f).elim .atom Expr.ofTree :=
  eq_elim_find? rfl (fun _ _ => rfl) cs

theorem Expr.ofFirst_eq :
    Expr.ofFirst cs = (cs.find? Tree.isSubstantial).elim .atom Expr.ofTree :=
  eq_elim_find? rfl (fun _ _ => rfl) cs

theorem Expr.ofParenthesized_eq :
    Expr.ofParenthesized cs = (cs.find? (Tree.isNode .parenthesized)).elim .atom Expr.ofTree :=
  eq_elim_find? rfl (fun _ _ => rfl) cs

theorem Expr.ofHeader_eq :
    Expr.ofHeader cs =
      (cs.filter fun c => c.isNamed && c.field != some .body).map Expr.ofTree :=
  eq_map_filter rfl (fun _ _ => rfl) cs

theorem Expr.ofResources_eq :
    Expr.ofResources cs =
      (cs.find? (Tree.isBranchInRole .resources)).elim [] fun c => Expr.ofNamed c.children := by
  refine eq_elim_find?_branchInRole rfl (fun _ _ _ _ => rfl) (fun _ _ _ => rfl) ?_ cs
  intro k r ds ts hr
  rcases r with _ | g
  · rfl
  · cases g with
    | resources => exact absurd rfl hr
    | _ => rfl

/-! ## Statements -/

theorem Stmt.ofBlock_eq : Stmt.ofBlock cs = (cs.filter Tree.isSubstantial).map Stmt.ofTree :=
  eq_map_filter rfl (fun _ _ => rfl) cs

theorem Stmt.inRole?_eq :
    Stmt.inRole? f cs = (cs.find? fun c => c.field == some f).map Stmt.ofTree :=
  eq_map_find? rfl (fun _ _ => rfl) cs

theorem Stmt.inRole_eq : Stmt.inRole f cs = (Stmt.inRole? f cs).getD (.simple []) := by
  induction cs with
  | nil => rfl
  | cons t ts ih =>
    rw [Stmt.inRole, Stmt.inRole?, ih]
    split <;> rfl

theorem Stmt.inBody_eq :
    Stmt.inBody cs =
      (cs.find? (Tree.isBranchInRole .body)).elim [] fun c => Stmt.ofBlock c.children := by
  refine eq_elim_find?_branchInRole rfl (fun _ _ _ _ => rfl) (fun _ _ _ => rfl) ?_ cs
  intro k r ds ts hr
  rcases r with _ | g
  · rfl
  · cases g with
    | body => exact absurd rfl hr
    | _ => rfl

theorem Stmt.inFirstBlock?_eq :
    Stmt.inFirstBlock? cs =
      (cs.find? (Tree.isNode .block)).map fun c => Stmt.ofBlock c.children := by
  refine eq_map_find? rfl (fun t ts => ?_) cs
  cases t with
  | leaf k g l => rfl
  | branch k g ds => cases k <;> rfl

theorem Stmt.inFinally?_eq :
    Stmt.inFinally? cs =
      (cs.find? (Tree.isNode .finallyClause)).elim none fun c => Stmt.inFirstBlock? c.children := by
  refine eq_elim_find? rfl (fun t ts => ?_) cs
  cases t with
  | leaf k g l => rfl
  | branch k g ds => cases k <;> rfl

theorem Stmt.ofLast?_eq :
    Stmt.ofLast? cs =
      (cs.filter fun c => c.isSubstantial && !c.isToken .identifier).getLast?.map Stmt.ofTree := by
  induction cs with
  | nil => rfl
  | cons t ts ih =>
    have hcond : (t.isNamed && !t.isToken .identifier && !t.isComment) =
        (t.isSubstantial && !t.isToken .identifier) := by
      rw [Tree.isSubstantial, Bool.and_right_comm]
    rw [Stmt.ofLast?, ih, List.filter_cons, hcond]
    by_cases h : (t.isSubstantial && !t.isToken .identifier) = true
    · rw [if_pos h, if_pos h, List.getLast?_cons]
      cases (List.filter _ ts).getLast? <;> rfl
    · rw [if_neg h, if_neg h]
      cases (List.filter _ ts).getLast? <;> rfl

theorem Stmt.ofLambdaBody_eq :
    Stmt.ofLambdaBody cs =
      (cs.find? fun c => c.field == some .body).elim (.simple []) fun c =>
        if c.isNode .block then Stmt.ofTree c else .simple [Expr.ofTree c] :=
  eq_elim_find? rfl (fun _ _ => rfl) cs

/-! ## Cases and handlers -/

theorem SwitchCase.inBody_eq :
    SwitchCase.inBody cs =
      (cs.find? (Tree.isBranchInRole .body)).elim [] fun c => SwitchCase.ofEntries c.children := by
  refine eq_elim_find?_branchInRole rfl (fun _ _ _ _ => rfl) (fun _ _ _ => rfl) ?_ cs
  intro k r ds ts hr
  rcases r with _ | g
  · rfl
  · cases g with
    | body => exact absurd rfl hr
    | _ => rfl

/-- The cases of one group or rule. -/
def SwitchCase.ofEntry (t : Tree) : List SwitchCase :=
  if t.isNode .switchGroup then (SwitchCase.ofGroup t.children).2
  else if t.isNode .switchRule then [SwitchCase.ofRule t.children]
  else []

theorem SwitchCase.ofEntries_eq : SwitchCase.ofEntries cs = cs.flatMap SwitchCase.ofEntry := by
  induction cs with
  | nil => rfl
  | cons t ts ih =>
    rw [List.flatMap_cons]
    cases t with
    | leaf k g l => exact ih
    | branch k g ds =>
      cases k with
      | switchGroup => exact congrArg _ ih
      | switchRule => exact congrArg _ ih
      | _ => exact ih

/-- Whether the node is a statement of a group or rule: no label, but with a name, and no comment.
-/
def Java.Tree.isEntryStatement (t : Tree) : Bool :=
  !t.isNode .switchLabel && t.isSubstantial

/-- The statements of a group, before its first label and in its cases, are all its statements. -/
theorem SwitchCase.ofGroup_statements :
    (SwitchCase.ofGroup cs).1 ++ (SwitchCase.ofGroup cs).2.flatMap SwitchCase.body =
      (cs.filter Tree.isEntryStatement).map Stmt.ofTree := by
  induction cs with
  | nil => rfl
  | cons t ts ih =>
    rw [SwitchCase.ofGroup, List.filter_cons, Tree.isEntryStatement, Tree.isSubstantial]
    cases t.isNode .switchLabel with
    | true => exact ih
    | false =>
      cases t.isNamed && !t.isComment with
      | true => exact congrArg (Stmt.ofTree t :: ·) ih
      | false => exact ih

/-- A group that begins with a label has no statements before its first label. -/
theorem SwitchCase.ofGroup_fst {t : Tree} (ht : t.isNode .switchLabel)
    (h : cs.find? (fun c => c.isNode .switchLabel || c.isSubstantial) = some t) :
    (SwitchCase.ofGroup cs).1 = [] := by
  induction cs with
  | nil => rfl
  | cons c cs ih =>
    rw [List.find?_cons, Tree.isSubstantial] at h
    rw [SwitchCase.ofGroup]
    cases hlabel : c.isNode .switchLabel with
    | true => rfl
    | false =>
      cases hsubstantial : c.isNamed && !c.isComment with
      | true =>
        rw [hlabel, hsubstantial] at h
        cases h
        rw [hlabel] at ht
        cases ht
      | false =>
        rw [hlabel, hsubstantial] at h
        exact ih h

/-- A group has a case for each label. -/
theorem SwitchCase.length_ofGroup :
    (SwitchCase.ofGroup cs).2.length = cs.countP (Tree.isNode .switchLabel) := by
  induction cs with
  | nil => rfl
  | cons t ts ih =>
    rw [SwitchCase.ofGroup, List.countP_cons, ← ih]
    cases t.isNode .switchLabel with
    | true => rfl
    | false => cases t.isNamed && !t.isComment <;> rfl

theorem SwitchCase.ofRule_body :
    (SwitchCase.ofRule cs).body = (cs.filter Tree.isEntryStatement).map Stmt.ofTree := by
  induction cs with
  | nil => rfl
  | cons t ts ih =>
    rw [SwitchCase.ofRule, List.filter_cons, Tree.isEntryStatement, Tree.isSubstantial]
    cases t.isNode .switchLabel with
    | true => exact ih
    | false =>
      cases t.isNamed && !t.isComment with
      | true => exact congrArg (Stmt.ofTree t :: ·) ih
      | false => exact ih

/-- The handler that a node stands for. -/
def CatchClause.ofTree (t : Tree) : CatchClause :=
  .mk (caughtTypes t) (Stmt.inBody t.children)

theorem CatchClause.ofNamed_eq :
    CatchClause.ofNamed cs = (cs.filter (Tree.isNode .catchClause)).map CatchClause.ofTree := by
  refine eq_map_filter rfl (fun t ts => ?_) cs
  cases t with
  | leaf k g l => rfl
  | branch k g ds => cases k <;> rfl

end CodeRisk
