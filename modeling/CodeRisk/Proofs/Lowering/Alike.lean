import CodeRisk.Proofs.Likeness
import CodeRisk.Proofs.Lowering.Lists
import CodeRisk.Proofs.Lowering.Children
import Mathlib.Data.List.Forall2

/-!
# Trees that lowering takes alike

Lowering looks at a tree in several ways: as a statement, as a block, as an expression, or as a part
of a statement that holds statements. What it makes of two trees is compared in all of these ways at
once (`Alike`), and in the ways that fit the place of the trees only (`Java.TreePlace`): of nested
classes, for example, nothing is said in the place of a statement. For each way in which lowering
takes children, one lemma says that related children are taken alike (`AlikeChildren`).
-/
namespace CodeRisk
open Java (Tree NodeKind TokenKind Field Site)

namespace Java

/-! ## Places -/

/-- Whether a node stands as a statement, or as a part of one that holds statements, or as an
expression. -/
inductive TreePlace where
  | statement
  | expression
  deriving DecidableEq

namespace NodeKind

/-- Whether the node has statements in blocks, cases or handlers directly below it. -/
def hasParts : NodeKind → Bool
  | lambda | switch | switchBlock | tryStatement | tryWithResources | synchronizedStatement
  | catchClause | finallyClause => true
  | _ => false

/-- Whether the node is a block, a part of a switch, a handler, or what follows on handlers. -/
def isPart : NodeKind → Bool
  | block | switchBlock | switchGroup | switchRule | catchClause | finallyClause => true
  | _ => false

end NodeKind

/-- Whether the node is a statement of the one above it, or a part of it that holds statements. -/
def Site.isInner (s : Site) : Bool :=
  s.isStatement || s.parent.hasParts && s.tree.hasKind NodeKind.isPart

namespace Site
variable {k : NodeKind} {c : Tree}

theorem isInner_of_isStatement (h : isStatement ⟨k, c⟩) : isInner ⟨k, c⟩ := by
  rw [isInner, h, Bool.true_or]

theorem isInner_of_isPart (hk : k.hasParts) (hc : c.hasKind NodeKind.isPart) : isInner ⟨k, c⟩ := by
  rw [isInner, hk, hc]
  exact Bool.or_true _

theorem isInner_eq_false (hs : isStatement ⟨k, c⟩ = false)
    (hp : (k.hasParts && c.hasKind NodeKind.isPart) = false) : isInner ⟨k, c⟩ = false := by
  rw [isInner, hs, hp, Bool.or_self]

end Site

namespace TreePlace
variable {p : TreePlace} {k : NodeKind} {c : Tree}

/-- Where the child `c` of a node of kind `k` stands. In a statement the statements in it are told
apart from expressions; expressions hold statements in lambdas and switches only. -/
def below (p : TreePlace) (k : NodeKind) (c : Tree) : TreePlace :=
  if (p = .statement ∨ k = .lambda ∨ k = .switch) ∧ Site.isInner ⟨k, c⟩ then .statement
  else .expression

theorem below_eq_expression (h : Site.isInner ⟨k, c⟩ = false) : p.below k c = .expression := by
  rw [below, h, if_neg]
  simp

theorem below_statement (h : Site.isInner ⟨k, c⟩) : below .statement k c = .statement :=
  if_pos ⟨.inl rfl, h⟩

theorem below_lambda (h : Site.isInner ⟨.lambda, c⟩) : p.below .lambda c = .statement :=
  if_pos ⟨.inr (.inl rfl), h⟩

theorem below_switch (h : Site.isInner ⟨.switch, c⟩) : p.below .switch c = .statement :=
  if_pos ⟨.inr (.inr rfl), h⟩

theorem below_expression (hl : k ≠ .lambda) (hs : k ≠ .switch) :
    below .expression k c = .expression :=
  if_neg fun h => by simpa [hl, hs] using h.1

end TreePlace

/-! ## Lists of children -/

namespace Tree

theorem isExpressive_of_isNode {k : NodeKind} {t : Tree} (h : t.isNode k) (hk : k.isExpressive) :
    t.isExpressive := by
  cases t with
  | leaf => rfl
  | branch j f cs => exact eq_of_beq h ▸ hk

theorem isStatement_of_isNode {k : NodeKind} {t : Tree} (h : t.isNode k) (hk : k.isStatement) :
    t.isStatement := by
  cases t with
  | leaf => rfl
  | branch j f cs => exact eq_of_beq h ▸ hk

/-- What lowering chooses a node by: its kind and its role. -/
def look : Tree → (TokenKind ⊕ NodeKind) × Option Field
  | leaf k f _ => (.inl k, f)
  | branch k f _ => (.inr k, f)

/-- A choice of nodes by their look. -/
def ByLook (q : Tree → Bool) : Prop :=
  ∀ t t' : Tree, t'.look = t.look → q t' = q t

/-- The second list is the first with each tree replaced by a related one; if `further` holds, there
are further comments in between. -/
inductive Matched (further : Bool) (R : Tree → Tree → Prop) : List Tree → List Tree → Prop where
  | nil : Matched further R [] []
  | cons {t t' : Tree} {ts ts' : List Tree} (h : R t t') (hs : Matched further R ts ts') :
      Matched further R (t :: ts) (t' :: ts')
  | comment {c : Tree} {ts ts' : List Tree} (hfurther : further = true) (hc : c.isComment = true)
      (hf : c.field = none) (hs : Matched further R ts ts') : Matched further R ts (c :: ts')

namespace ByLook

theorem field_eq {t t' : Tree} (h : t'.look = t.look) : t'.field = t.field := by
  cases t <;> cases t' <;> simp_all [look, field]

theorem role (g : Option Field) : ByLook fun c => c.field == g := by
  intro t t' h
  show (t'.field == g) = (t.field == g)
  rw [field_eq h]

theorem node (k : NodeKind) : ByLook (isNode k) := by
  intro t t' h
  cases t <;> cases t' <;> simp_all [look, isNode]

theorem token (k : TokenKind) : ByLook (isToken k) := by
  intro t t' h
  cases t <;> cases t' <;> simp_all [look, isToken]

theorem branchInRole (g : Field) : ByLook (isBranchInRole g) := by
  intro t t' h
  cases t <;> cases t' <;> simp_all [look, isBranchInRole]

theorem named : ByLook isNamed := by
  intro t t' h
  cases t <;> cases t' <;> simp_all [look, isNamed]

theorem comment : ByLook isComment := by
  intro t t' h
  cases t <;> cases t' <;> simp_all [look, isComment]

theorem substantial : ByLook isSubstantial := by
  intro t t' h
  rw [isSubstantial, isSubstantial, named t t' h, comment t t' h]

theorem and {q r : Tree → Bool} (hq : ByLook q) (hr : ByLook r) : ByLook fun c => q c && r c := by
  intro t t' h
  show (q t' && r t') = (q t && r t)
  rw [hq t t' h, hr t t' h]

theorem not {q : Tree → Bool} (hq : ByLook q) : ByLook fun c => !q c := by
  intro t t' h
  show (!q t') = !q t
  rw [hq t t' h]

end ByLook

namespace Matched
variable {further : Bool} {R : Tree → Tree → Prop} {cs cs' : List Tree} {q : Tree → Bool}

/-- **A choice that takes no comment** takes related trees from both lists. -/
theorem filter (h : Matched further R cs cs') (hlook : ∀ t t', R t t' → t'.look = t.look)
    (hq : ByLook q) (hskips : Skips q) : List.Forall₂ R (cs.filter q) (cs'.filter q) := by
  induction h with
  | nil => exact .nil
  | @cons t t' ts ts' h _ ih =>
    rw [List.filter_cons, List.filter_cons, hq t t' (hlook t t' h)]
    split
    · exact .cons h ih
    · exact ih
  | comment _ hc hf _ ih =>
    rw [List.filter_cons, hskips _ hc hf, if_neg Bool.false_ne_true]
    exact ih

/-- What is found in one list is related to what is found in the other one. -/
theorem find? (h : Matched further R cs cs') (hlook : ∀ t t', R t t' → t'.look = t.look)
    (hq : ByLook q) (hskips : Skips q) :
    Option.Rel (fun c c' => (c ∈ cs ∧ q c) ∧ R c c') (cs.find? q) (cs'.find? q) := by
  have hfilter := h.filter hlook hq hskips
  have hchosen : ∀ c ∈ cs.filter q, c ∈ cs ∧ q c := fun c hc => List.mem_filter.mp hc
  rw [← List.head?_filter, ← List.head?_filter]
  generalize cs.filter q = l, cs'.filter q = l' at hfilter hchosen
  cases hfilter with
  | nil => exact .none
  | cons h _ => exact .some ⟨hchosen _ (List.mem_cons_self ..), h⟩

/-- What is made of related trees is related, if nothing is made of comments. -/
theorem filterMap {α : Type} {g : Tree → Option α} {S : α → α → Prop} (h : Matched further R cs cs')
    (hR : ∀ t t', R t t' → Option.Rel S (g t) (g t'))
    (hskips : ∀ c, c.isComment → c.field = none → g c = none) :
    List.Forall₂ S (cs.filterMap g) (cs'.filterMap g) := by
  induction h with
  | nil => exact .nil
  | @cons t t' _ _ h _ ih =>
    have hrel := hR t t' h
    rw [List.filterMap_cons, List.filterMap_cons]
    generalize g t = o, g t' = o' at hrel
    cases hrel with
    | none => exact ih
    | some hS => exact .cons hS ih
  | comment _ hc hf _ ih =>
    rw [List.filterMap_cons_none (hskips _ hc hf)]
    exact ih

theorem append {ds ds' : List Tree} (h : Matched further R cs cs')
    (hds : Matched further R ds ds') : Matched further R (cs ++ ds) (cs' ++ ds') := by
  induction h with
  | nil => exact hds
  | cons h _ ih => exact .cons h ih
  | comment hx hc hf _ ih => exact .comment hx hc hf ih

theorem imp_mem {S : Tree → Tree → Prop} (h : Matched further R cs cs')
    (hS : ∀ t ∈ cs, ∀ t', R t t' → S t t') : Matched further S cs cs' := by
  induction h with
  | nil => exact .nil
  | cons h _ ih =>
    rw [List.forall_mem_cons] at hS
    exact .cons (hS.1 _ h) (ih hS.2)
  | comment hx hc hf _ ih => exact .comment hx hc hf (ih hS)

end Matched

end Tree

end Java

/-! ## What is made of lists that are alike -/

/-- What is made of two optional trees, if these are related. -/
theorem rel_elim {α β : Type} {R : α → α → Prop} {S : β → β → Prop} {o o' : Option α} {d : β}
    {u : α → β} (h : Option.Rel R o o') (hnone : S d d) (hsome : ∀ a b, R a b → S (u a) (u b)) :
    S (o.elim d u) (o'.elim d u) := by
  cases h with
  | none => exact hnone
  | some h => exact hsome _ _ h

theorem rel_map {α β : Type} {R : α → α → Prop} {S : β → β → Prop} {o o' : Option α} {u : α → β}
    (h : Option.Rel R o o') (hsome : ∀ a b, R a b → S (u a) (u b)) :
    Option.Rel S (o.map u) (o'.map u) := by
  cases h with
  | none => exact .none
  | some h => exact .some (hsome _ _ h)

section Lists
variable {x : Leeway}

theorem SwitchCase.LikeAll.append {cs cs' ds ds' : List SwitchCase}
    (hc : SwitchCase.LikeAll x cs cs') (hd : SwitchCase.LikeAll x ds ds') :
    SwitchCase.LikeAll x (cs ++ ds) (cs' ++ ds') := by
  induction cs generalizing cs' with
  | nil =>
    cases hc
    exact hd
  | cons c cs ih =>
    cases hc with
    | cons hl hb hcs => exact .cons hl hb (ih hcs)

theorem Expr.Like.isAtom_eq {e e' : Expr} (h : Expr.Like x e e') : e'.isAtom = e.isAtom := by
  cases h <;> rfl

/-- Without atoms the expressions are alike one by one. -/
theorem Expr.LikeIn.filter {es es' : List Expr} (h : Expr.LikeIn x es es') :
    Expr.LikeAll x (es.filter fun e => !e.isAtom) (es'.filter fun e => !e.isAtom) := by
  -- the longer list is the second one: it holds the further atoms
  induction es' generalizing es with
  | nil =>
    cases h
    exact .nil
  | cons e' es' ih =>
    cases h with
    | cons he hes =>
      rw [List.filter_cons, List.filter_cons, he.isAtom_eq]
      split
      · exact .cons he (ih hes)
      · exact ih hes
    | atom _ hes => exact ih hes

theorem Expr.LikeIn.ofParts {es es' : List Expr} (h : Expr.LikeIn x es es') :
    Expr.Like x (Expr.ofParts es) (Expr.ofParts es') := by
  have hfilter := h.filter
  unfold Expr.ofParts
  generalize es.filter (fun e => !e.isAtom) = l, es'.filter (fun e => !e.isAtom) = l' at hfilter
  match hfilter with
  | .nil => exact .atom
  | .cons he .nil => exact he
  | .cons he (.cons he' hes) => exact .compound (.cons he (.cons he' hes))

end Lists

/-! ## Trees -/

/-- The texts of the alternatives of a type that a handler takes. -/
def Java.Tree.alternatives (t : Tree) : List String :=
  t.namedChildren.map Tree.text

/-- The texts of the types in the parameter of a handler. -/
def Java.Tree.handledTypes (parameter : Tree) : List String :=
  (parameter.childOfKind? .catchType).elim [] Tree.alternatives

theorem caughtTypes_eq (handler : Tree) :
    caughtTypes handler =
      (handler.childOfKind? .catchFormalParameter).elim [] Tree.handledTypes := by
  rw [caughtTypes]
  cases handler.childOfKind? .catchFormalParameter with
  | none => rfl
  | some p =>
    show _ = (p.childOfKind? .catchType).elim [] Tree.alternatives
    rw [Option.bind_eq_bind, Option.bind_some]
    cases p.childOfKind? .catchType <;> rfl

/-- **What stands for two trees after lowering is alike**, in each of the ways in which lowering
looks at a tree of the kind in the place. -/
structure Alike (x : Leeway) (p : Java.TreePlace) (t t' : Tree) : Prop where
  look : t'.look = t.look
  expression : p = .expression → Expr.Like x (Expr.ofTree t) (Expr.ofTree t')
  resources : p = .expression → t.isNode .resourceSpecification →
    Expr.LikeIn x (Expr.ofNamed t.children) (Expr.ofNamed t'.children)
  statement : p = .statement → t.isStatement → Stmt.Like x (Stmt.ofTree t) (Stmt.ofTree t')
  block : p = .statement → t.hasKind NodeKind.isBlock →
    Stmt.LikeAll x (Stmt.ofBlock t.children) (Stmt.ofBlock t'.children)
  cases : p = .statement → t.isNode .switchBlock →
    SwitchCase.LikeAll x (SwitchCase.ofEntries t.children) (SwitchCase.ofEntries t'.children)
  entry : p = .statement → t.isNode .switchGroup ∨ t.isNode .switchRule →
    SwitchCase.LikeAll x (SwitchCase.ofEntry t) (SwitchCase.ofEntry t')
  handler : p = .statement → t.isNode .catchClause →
    CatchClause.LikeAll x [CatchClause.ofTree t] [CatchClause.ofTree t']
  finish : p = .statement → t.isNode .finallyClause →
    Option.Rel (Stmt.LikeAll x) (Stmt.inFirstBlock? t.children) (Stmt.inFirstBlock? t'.children)
  label : t.isNode .switchLabel → x.labels = true ∨ t.text = t'.text
  types : t.isNode .catchType → x.labels = true ∨ t.alternatives = t'.alternatives
  parameter : t.isNode .catchFormalParameter →
    x.labels = true ∨ t.handledTypes = t'.handledTypes

/-! ## Children -/

/-- The children of two nodes of kind `k` in the place `p` are taken alike by lowering. -/
def AlikeChildren (x : Leeway) (p : Java.TreePlace) (k : NodeKind) (cs cs' : List Tree) : Prop :=
  Tree.Matched x.atoms (fun c c' => Alike x (p.below k c) c c') cs cs'

namespace AlikeChildren
open Java (TreePlace)
open Java.Tree (ByLook Skips isBranchInRole isSubstantial)
variable {x : Leeway} {p : TreePlace} {k : NodeKind} {cs cs' : List Tree}

theorem filter {q : Tree → Bool} (h : AlikeChildren x p k cs cs') (hq : ByLook q)
    (hskips : Skips q) :
    List.Forall₂ (fun c c' => Alike x (p.below k c) c c') (cs.filter q) (cs'.filter q) :=
  Tree.Matched.filter h (fun _ _ h => h.look) hq hskips

theorem find? {q : Tree → Bool} (h : AlikeChildren x p k cs cs') (hq : ByLook q)
    (hskips : Skips q) :
    Option.Rel (fun c c' => (c ∈ cs ∧ q c) ∧ Alike x (p.below k c) c c') (cs.find? q)
      (cs'.find? q) :=
  Tree.Matched.find? h (fun _ _ h => h.look) hq hskips

/-! ### Expressions -/

theorem inRole (h : AlikeChildren x p k cs cs') {g : Field}
    (hg : ∀ c ∈ cs, c.field = some g → p.below k c = .expression) :
    Expr.Like x (Expr.inRole g cs) (Expr.inRole g cs') := by
  rw [Expr.inRole_eq, Expr.inRole_eq]
  refine rel_elim (h.find? (.role (some g)) (.role g)) .atom fun c c' ⟨⟨hc, hrole⟩, halike⟩ => ?_
  exact halike.expression (hg c hc (eq_of_beq hrole))

/-- Chosen children as expressions, where a choice may take comments. -/
theorem map_filter (h : AlikeChildren x p k cs cs') {q : Tree → Bool} (hq : ByLook q)
    (hplace : ∀ c ∈ cs, q c → p.below k c = .expression) :
    Expr.LikeIn x ((cs.filter q).map Expr.ofTree) ((cs'.filter q).map Expr.ofTree) := by
  induction h with
  | nil => exact .nil
  | @cons c c' _ _ hc _ ih =>
    rw [List.forall_mem_cons] at hplace
    rw [List.filter_cons, List.filter_cons, hq c c' hc.look]
    split
    next hchosen => exact .cons (hc.expression (hplace.1 hchosen)) (ih hplace.2)
    next => exact ih hplace.2
  | @comment c _ _ hx hc _ _ ih =>
    rw [List.filter_cons]
    split
    · obtain ⟨j, g, l, rfl⟩ := Tree.eq_leaf_of_isComment hc
      exact .atom hx (ih hplace)
    · exact ih hplace

theorem ofNamed (h : AlikeChildren x p k cs cs') (hplace : ∀ c ∈ cs, p.below k c = .expression) :
    Expr.LikeIn x (Expr.ofNamed cs) (Expr.ofNamed cs') := by
  rw [Expr.ofNamed_eq, Expr.ofNamed_eq]
  exact h.map_filter .named fun c hc _ => hplace c hc

theorem ofHeader (h : AlikeChildren x p k cs cs')
    (hplace : ∀ c ∈ cs, c.field ≠ some .body → p.below k c = .expression) :
    Expr.LikeIn x (Expr.ofHeader cs) (Expr.ofHeader cs') := by
  rw [Expr.ofHeader_eq, Expr.ofHeader_eq]
  refine h.map_filter (ByLook.named.and (ByLook.role (some .body)).not) fun c hc hchosen => ?_
  exact hplace c hc (by simpa using (Bool.and_eq_true_iff.mp hchosen).2)

theorem ofFirst (h : AlikeChildren x p k cs cs') (hplace : ∀ c ∈ cs, p.below k c = .expression) :
    Expr.Like x (Expr.ofFirst cs) (Expr.ofFirst cs') := by
  rw [Expr.ofFirst_eq, Expr.ofFirst_eq]
  refine rel_elim (h.find? .substantial .substantial) .atom fun c c' ⟨⟨hc, _⟩, halike⟩ => ?_
  exact halike.expression (hplace c hc)

theorem ofParenthesized (h : AlikeChildren x p k cs cs')
    (hplace : ∀ c ∈ cs, c.isNode .parenthesized → p.below k c = .expression) :
    Expr.Like x (Expr.ofParenthesized cs) (Expr.ofParenthesized cs') := by
  rw [Expr.ofParenthesized_eq, Expr.ofParenthesized_eq]
  refine rel_elim (h.find? (.node _) (.node _)) .atom fun c c' ⟨⟨hc, hkind⟩, halike⟩ => ?_
  exact halike.expression (hplace c hc hkind)

theorem ofResources (h : AlikeChildren x p k cs cs')
    (hresources : ∀ c ∈ cs, c.isBranchInRole .resources →
      c.isNode .resourceSpecification ∧ p.below k c = .expression) :
    Expr.LikeIn x (Expr.ofResources cs) (Expr.ofResources cs') := by
  rw [Expr.ofResources_eq, Expr.ofResources_eq]
  refine rel_elim (h.find? (.branchInRole _) (.branchInRole _)) .nil
    fun c c' ⟨⟨hc, hrole⟩, halike⟩ => ?_
  obtain ⟨hkind, hplace⟩ := hresources c hc hrole
  exact halike.resources hplace hkind

/-! ### Statements -/

theorem ofBlock (h : AlikeChildren x p k cs cs')
    (hstatement : ∀ c ∈ cs, c.isStatement ∧ p.below k c = .statement) :
    Stmt.LikeAll x (Stmt.ofBlock cs) (Stmt.ofBlock cs') := by
  have hfilter := h.filter .substantial .substantial
  have hchosen : ∀ c ∈ cs.filter isSubstantial, c.isStatement ∧ p.below k c = .statement :=
    fun c hc => hstatement c (List.mem_of_mem_filter hc)
  rw [Stmt.ofBlock_eq, Stmt.ofBlock_eq]
  generalize cs.filter _ = l, cs'.filter _ = l' at hfilter hchosen
  induction hfilter with
  | nil => exact .nil
  | cons hc _ ih =>
    rw [List.forall_mem_cons] at hchosen
    obtain ⟨⟨hkind, hplace⟩, hrest⟩ := hchosen
    exact .cons (hc.statement hplace hkind) (ih hrest)

theorem stmt_inRole? (h : AlikeChildren x p k cs cs') {g : Field}
    (hg : ∀ c ∈ cs, c.field = some g → c.isStatement ∧ p.below k c = .statement) :
    Option.Rel (Stmt.Like x) (Stmt.inRole? g cs) (Stmt.inRole? g cs') := by
  rw [Stmt.inRole?_eq, Stmt.inRole?_eq]
  refine rel_map (h.find? (.role (some g)) (.role g)) fun c c' ⟨⟨hc, hrole⟩, halike⟩ => ?_
  obtain ⟨hkind, hplace⟩ := hg c hc (eq_of_beq hrole)
  exact halike.statement hplace hkind

theorem stmt_inRole (h : AlikeChildren x p k cs cs') {g : Field}
    (hg : ∀ c ∈ cs, c.field = some g → c.isStatement ∧ p.below k c = .statement) :
    Stmt.Like x (Stmt.inRole g cs) (Stmt.inRole g cs') := by
  rw [Stmt.inRole_eq, Stmt.inRole_eq]
  have hrel := h.stmt_inRole? hg
  generalize Stmt.inRole? g cs = s, Stmt.inRole? g cs' = s' at hrel
  cases hrel with
  | none => exact .simple .nil
  | some hs => exact hs

theorem inBody (h : AlikeChildren x p k cs cs')
    (hbody : ∀ c ∈ cs, c.isBranchInRole .body → c.isNode .block ∧ p.below k c = .statement) :
    Stmt.LikeAll x (Stmt.inBody cs) (Stmt.inBody cs') := by
  rw [Stmt.inBody_eq, Stmt.inBody_eq]
  refine rel_elim (h.find? (.branchInRole _) (.branchInRole _)) .nil
    fun c c' ⟨⟨hc, hrole⟩, halike⟩ => ?_
  obtain ⟨hkind, hplace⟩ := hbody c hc hrole
  exact halike.block hplace (Tree.hasKind_of_isNode hkind rfl)

theorem inFirstBlock? (h : AlikeChildren x p k cs cs')
    (hplace : ∀ c ∈ cs, c.isNode .block → p.below k c = .statement) :
    Option.Rel (Stmt.LikeAll x) (Stmt.inFirstBlock? cs) (Stmt.inFirstBlock? cs') := by
  rw [Stmt.inFirstBlock?_eq, Stmt.inFirstBlock?_eq]
  refine rel_map (h.find? (.node _) (.node _)) fun c c' ⟨⟨hc, hkind⟩, halike⟩ => ?_
  exact halike.block (hplace c hc hkind) (Tree.hasKind_of_isNode hkind rfl)

theorem inFinally? (h : AlikeChildren x p k cs cs')
    (hplace : ∀ c ∈ cs, c.isNode .finallyClause → p.below k c = .statement) :
    Option.Rel (Stmt.LikeAll x) (Stmt.inFinally? cs) (Stmt.inFinally? cs') := by
  rw [Stmt.inFinally?_eq, Stmt.inFinally?_eq]
  refine rel_elim (h.find? (.node _) (.node _)) .none fun c c' ⟨⟨hc, hkind⟩, halike⟩ => ?_
  exact halike.finish (hplace c hc hkind) hkind

theorem ofLast? (h : AlikeChildren x p k cs cs')
    (hstatement : ∀ c ∈ cs, c.isStatement ∧ p.below k c = .statement) :
    Stmt.Like x ((Stmt.ofLast? cs).getD (.simple [])) ((Stmt.ofLast? cs').getD (.simple [])) := by
  have hlook : ByLook fun c => isSubstantial c && !c.isToken .identifier :=
    ByLook.substantial.and (ByLook.token _).not
  have hfilter := h.filter hlook (Skips.substantial.and _)
  -- seen from the end, the last child is the head of related lists
  have hreverse := List.forall₂_reverse_iff.mpr hfilter
  have hchosen : ∀ c ∈ (cs.filter fun c => isSubstantial c && !c.isToken .identifier).reverse,
      c.isStatement ∧ p.below k c = .statement := fun c hc =>
    hstatement c (List.mem_of_mem_filter (List.mem_reverse.mp hc))
  rw [Stmt.ofLast?_eq, Stmt.ofLast?_eq, List.getLast?_eq_head?_reverse,
    List.getLast?_eq_head?_reverse]
  generalize (cs.filter _).reverse = l, (cs'.filter _).reverse = l' at hreverse hchosen
  cases hreverse with
  | nil => exact .simple .nil
  | cons hc _ =>
    obtain ⟨hkind, hplace⟩ := hchosen _ (List.mem_cons_self ..)
    exact hc.statement hplace hkind

theorem ofLambdaBody (h : AlikeChildren x p .lambda cs cs')
    (hbody : ∀ c ∈ cs, c.field = some .body →
      c.isNode .block ∨ p.below .lambda c = .expression) :
    Stmt.Like x (Stmt.ofLambdaBody cs) (Stmt.ofLambdaBody cs') := by
  rw [Stmt.ofLambdaBody_eq, Stmt.ofLambdaBody_eq]
  refine rel_elim (h.find? (.role (some .body)) (.role .body)) (.simple .nil)
    fun c c' ⟨⟨hc, hrole⟩, halike⟩ => ?_
  -- a lambda has a block or a single expression as its body
  rw [ByLook.node .block c c' halike.look]
  by_cases hblock : c.isNode .block
  · rw [if_pos hblock, if_pos hblock]
    have hinner := Site.isInner_of_isPart (k := .lambda) rfl (Tree.hasKind_of_isNode hblock rfl)
    exact halike.statement (TreePlace.below_lambda hinner) (Tree.isStatement_of_isNode hblock rfl)
  · rw [if_neg hblock, if_neg hblock]
    have hplace := (hbody c hc (eq_of_beq hrole)).resolve_left hblock
    exact .simple (.cons (halike.expression hplace) .nil)

/-! ### Cases and handlers -/

theorem ofEntries (h : AlikeChildren x p k cs cs')
    (hplace : ∀ c ∈ cs, c.isNode .switchGroup ∨ c.isNode .switchRule →
      p.below k c = .statement) :
    SwitchCase.LikeAll x (SwitchCase.ofEntries cs) (SwitchCase.ofEntries cs') := by
  rw [SwitchCase.ofEntries_eq, SwitchCase.ofEntries_eq]
  induction h with
  | nil => exact .nil
  | @cons c c' _ _ hc _ ih =>
    rw [List.forall_mem_cons] at hplace
    refine SwitchCase.LikeAll.append ?_ (ih hplace.2)
    by_cases hkind : c.isNode .switchGroup ∨ c.isNode .switchRule
    · exact hc.entry (hplace.1 hkind) hkind
    · -- a tree of any other kind is no entry, and neither is the one in its place
      rw [not_or, Bool.not_eq_true, Bool.not_eq_true] at hkind
      rw [SwitchCase.ofEntry, SwitchCase.ofEntry, ByLook.node _ c c' hc.look,
        ByLook.node _ c c' hc.look, hkind.1, hkind.2]
      exact .nil
  | @comment c _ _ _ hc _ _ ih =>
    obtain ⟨j, g, l, rfl⟩ := Tree.eq_leaf_of_isComment hc
    exact ih hplace

/-- A group is gone through from its end: statements are gathered until a label takes them. -/
theorem ofGroup (h : AlikeChildren x p k cs cs')
    (hstatement : ∀ c ∈ cs, c.isNode .switchLabel ∨ c.isStatement)
    (hplace : ∀ c ∈ cs, p.below k c = .statement) :
    Stmt.LikeAll x (SwitchCase.ofGroup cs).1 (SwitchCase.ofGroup cs').1 ∧
      SwitchCase.LikeAll x (SwitchCase.ofGroup cs).2 (SwitchCase.ofGroup cs').2 := by
  induction h with
  | nil => exact ⟨.nil, .nil⟩
  | @cons c c' _ _ hc _ ih =>
    rw [List.forall_mem_cons] at hstatement hplace
    have ih := ih hstatement.2 hplace.2
    rw [SwitchCase.ofGroup, SwitchCase.ofGroup, ByLook.node _ c c' hc.look,
      ByLook.named c c' hc.look, ByLook.comment c c' hc.look]
    by_cases hlabel : c.isNode .switchLabel
    · simp only [hlabel, if_true]
      exact ⟨.nil, .cons (hc.label hlabel) ih.1 ih.2⟩
    · simp only [if_neg hlabel]
      split
      · exact ⟨.cons (hc.statement hplace.1 (hstatement.1.resolve_left hlabel)) ih.1, ih.2⟩
      · exact ih
  | @comment c _ _ _ hc _ _ ih =>
    rw [SwitchCase.ofGroup, hc, Bool.not_true, Bool.and_false]
    obtain ⟨j, g, l, rfl⟩ := Tree.eq_leaf_of_isComment hc
    exact ih hstatement hplace

theorem ofRule (h : AlikeChildren x p k cs cs')
    (hstatement : ∀ c ∈ cs, c.isNode .switchLabel ∨ c.isStatement)
    (hplace : ∀ c ∈ cs, p.below k c = .statement) :
    SwitchCase.LikeAll x [SwitchCase.ofRule cs] [SwitchCase.ofRule cs'] := by
  induction h with
  | nil => exact .cons (.inr rfl) .nil .nil
  | @cons c c' cs cs' hc _ ih =>
    rw [List.forall_mem_cons] at hstatement hplace
    have ih := ih hstatement.2 hplace.2
    rw [SwitchCase.ofRule, SwitchCase.ofRule, ByLook.node _ c c' hc.look,
      ByLook.named c c' hc.look, ByLook.comment c c' hc.look]
    generalize SwitchCase.ofRule cs = r, SwitchCase.ofRule cs' = r' at ih ⊢
    cases ih with
    | cons hl hb _ =>
      by_cases hlabel : c.isNode .switchLabel
      · rw [if_pos hlabel, if_pos hlabel]
        exact .cons (hc.label hlabel) hb .nil
      · rw [if_neg hlabel, if_neg hlabel]
        split
        · exact .cons hl (.cons (hc.statement hplace.1 (hstatement.1.resolve_left hlabel)) hb) .nil
        · exact .cons hl hb .nil
  | @comment c _ _ _ hc _ _ ih =>
    rw [SwitchCase.ofRule, hc, Bool.not_true, Bool.and_false]
    obtain ⟨j, g, l, rfl⟩ := Tree.eq_leaf_of_isComment hc
    exact ih hstatement hplace

theorem inSwitchBlock (h : AlikeChildren x p k cs cs')
    (hbody : ∀ c ∈ cs, c.isBranchInRole .body →
      c.isNode .switchBlock ∧ p.below k c = .statement) :
    SwitchCase.LikeAll x (SwitchCase.inBody cs) (SwitchCase.inBody cs') := by
  rw [SwitchCase.inBody_eq, SwitchCase.inBody_eq]
  refine rel_elim (h.find? (.branchInRole _) (.branchInRole _)) .nil
    fun c c' ⟨⟨hc, hrole⟩, halike⟩ => ?_
  obtain ⟨hkind, hplace⟩ := hbody c hc hrole
  exact halike.cases hplace hkind

theorem ofHandlers (h : AlikeChildren x p k cs cs')
    (hplace : ∀ c ∈ cs, c.isNode .catchClause → p.below k c = .statement) :
    CatchClause.LikeAll x (CatchClause.ofNamed cs) (CatchClause.ofNamed cs') := by
  have hfilter := h.filter (.node .catchClause) (.node .catchClause)
  have hchosen : ∀ c ∈ cs.filter (Tree.isNode .catchClause),
      c.isNode .catchClause ∧ p.below k c = .statement := by
    intro c hc
    obtain ⟨hmem, hkind⟩ := List.mem_filter.mp hc
    exact ⟨hkind, hplace c hmem hkind⟩
  rw [CatchClause.ofNamed_eq, CatchClause.ofNamed_eq]
  generalize cs.filter _ = ds, cs'.filter _ = ds' at hfilter hchosen
  induction hfilter with
  | nil => exact .nil
  | cons hc _ ih =>
    rw [List.forall_mem_cons] at hchosen
    obtain ⟨⟨hkind, hplace⟩, hrest⟩ := hchosen
    cases hc.handler hplace hkind with
    | cons hts hb _ => exact .cons hts hb (ih hrest)

theorem handledTypes {f : Option Field} (h : AlikeChildren x p k cs cs') :
    x.labels = true ∨
      (Tree.branch k f cs).handledTypes = (Tree.branch k f cs').handledTypes := by
  refine rel_elim (S := fun ts ts' => x.labels = true ∨ ts = ts') (h.find? (.node _) (.node _))
    (.inr rfl) fun c c' ⟨⟨_, hkind⟩, halike⟩ => ?_
  exact halike.types hkind

theorem caughtTypes {f : Option Field} (h : AlikeChildren x p k cs cs') :
    x.labels = true ∨ caughtTypes (.branch k f cs) = CodeRisk.caughtTypes (.branch k f cs') := by
  rw [caughtTypes_eq, caughtTypes_eq]
  refine rel_elim (S := fun ts ts' => x.labels = true ∨ ts = ts') (h.find? (.node _) (.node _))
    (.inr rfl) fun c c' ⟨⟨_, hkind⟩, halike⟩ => ?_
  exact halike.parameter hkind

end AlikeChildren

end CodeRisk
