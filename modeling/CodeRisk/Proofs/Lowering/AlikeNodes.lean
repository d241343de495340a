import CodeRisk.Proofs.Lowering.Alike
import CodeRisk.Proofs.Lowering.Roles

/-!
# Nodes that lowering takes alike

One step for each kind of node: if lowering takes the children of two nodes alike, it takes the
nodes alike (`Alike.branch`). Two relations of trees are carried by this step: one tree may have
further comments, or other nested classes. Each of them has to care for its own exceptions only.
-/
namespace CodeRisk
open Java (Tree NodeKind TokenKind Lexeme Field Site TreePlace)

namespace Java.Tree

theorem field_of_isBranchInRole {g : Field} {c : Tree} (h : c.isBranchInRole g) :
    c.field = some g := by
  cases c with
  | leaf => cases h
  | branch => exact eq_of_beq h

theorem hasKind_isPart_of_isExpressive {c : Tree} (h : c.isExpressive) :
    c.hasKind NodeKind.isPart = false := by
  cases c with
  | leaf => rfl
  | branch k f cs => cases k <;> first | rfl | cases h

end Java.Tree

/-- A condition with or without an alternative. -/
theorem Stmt.Like.ofOption {x : Leeway} {c c' : Expr} {a a' : Stmt} {b b' : Option Stmt}
    (hc : Expr.Like x c c') (ha : Stmt.Like x a a') (hb : Option.Rel (Stmt.Like x) b b') :
    Stmt.Like x (.ifElse c a b) (.ifElse c' a' b') := by
  cases hb with
  | none => exact .ifThen hc ha
  | some hb => exact .ifElse hc ha hb

/-- Handlers with or without what is done at the end. -/
theorem Stmt.Like.ofHandlers {x : Leeway} {rs rs' : List Expr} {b b' : Block}
    {cs cs' : List CatchClause} {o o' : Option Block} (hrs : Expr.LikeIn x rs rs')
    (hb : Stmt.LikeAll x b b') (hcs : CatchClause.LikeAll x cs cs')
    (ho : Option.Rel (Stmt.LikeAll x) o o') :
    Stmt.Like x (.tryCatch rs b cs o) (.tryCatch rs' b' cs' o') := by
  cases ho with
  | none => exact .tryCatch hrs hb hcs
  | some ho => exact .tryFinally hrs hb hcs ho

namespace AlikeChildren
variable {x : Leeway} {p : TreePlace} {k : NodeKind} {f : Option Field} {cs cs' : List Tree}

/-! ## Expressions -/

theorem condition (h : (Tree.branch .switch f cs).Conforms)
    (hcs : AlikeChildren x p .switch cs cs') :
    Expr.Like x (Expr.inRole .condition cs) (Expr.inRole .condition cs') := by
  refine hcs.inRole fun c hc hrole => TreePlace.below_eq_expression (Site.isInner_eq_false rfl ?_)
  exact Tree.hasKind_isPart_of_isExpressive (h.expressive hc (.inl hrole))

theorem switchBlock (h : (Tree.branch .switch f cs).Conforms)
    (hcs : AlikeChildren x p .switch cs cs') :
    SwitchCase.LikeAll x (SwitchCase.inBody cs) (SwitchCase.inBody cs') := by
  refine hcs.inSwitchBlock fun c hc hrole => ?_
  have hkind := h.switch_body c hc (Tree.field_of_isBranchInRole hrole)
  have hinner := Site.isInner_of_isPart (k := .switch) rfl (Tree.hasKind_of_isNode hkind rfl)
  exact ⟨hkind, TreePlace.below_switch hinner⟩

theorem lambdaBody (h : (Tree.branch .lambda f cs).Conforms)
    (hcs : AlikeChildren x p .lambda cs cs') :
    Stmt.Like x (Stmt.ofLambdaBody cs) (Stmt.ofLambdaBody cs') := by
  refine hcs.ofLambdaBody fun c hc hrole => ?_
  refine (h.lambda_body c hc hrole).imp_right fun hexpressive => ?_
  exact TreePlace.below_eq_expression
    (Site.isInner_eq_false rfl (Tree.hasKind_isPart_of_isExpressive hexpressive))

theorem expression (h : (Tree.branch k f cs).Conforms)
    (hcs : AlikeChildren x .expression k cs cs') :
    Expr.Like x (Expr.ofTree (.branch k f cs)) (Expr.ofTree (.branch k f cs')) := by
  by_cases hlambda : k = .lambda
  · subst hlambda
    exact .lambda (hcs.lambdaBody h)
  by_cases hswitch : k = .switch
  · subst hswitch
    exact .switch (hcs.condition h) (hcs.switchBlock h)
  have hplace (c : Tree) : TreePlace.below .expression k c = .expression :=
    TreePlace.below_expression hlambda hswitch
  cases k with
  | lambda => exact absurd rfl hlambda
  | switch => exact absurd rfl hswitch
  | ternary =>
    exact .conditional (hcs.inRole fun c _ _ => hplace c) (hcs.inRole fun c _ _ => hplace c)
      (hcs.inRole fun c _ _ => hplace c)
  | classBody => exact .atom
  | _ => exact (hcs.ofNamed fun c _ => hplace c).ofParts

/-! ## Statements -/

/-- What stands in no role of a statement is an expression. -/
theorem expression_inRole (hcs : AlikeChildren x p k cs cs') (hk : k.isControl)
    {g : Field} (hg : g = .condition ∨ g = .value) :
    Expr.Like x (Expr.inRole g cs) (Expr.inRole g cs') := by
  refine hcs.inRole fun c _ hrole => TreePlace.below_eq_expression (Site.isInner_eq_false ?_ ?_)
  · have hsequence : k.isSequence = false := by cases k <;> first | rfl | cases hk
    rw [Site.isStatement, hsequence, hrole]
    rcases hg with rfl | rfl <;> exact Bool.and_false _
  · cases k <;> first | rfl | cases hk

theorem statement_place (h : (Tree.branch k f cs).Conforms) (hk : k.isControl) {g : Field}
    (hg : g = .consequence ∨ g = .alternative ∨ g = .body) :
    ∀ c ∈ cs, c.field = some g → c.isStatement ∧ TreePlace.below .statement k c = .statement := by
  intro c hc hrole
  refine ⟨h.statement_in_role hk hg c hc hrole, ?_⟩
  refine TreePlace.below_statement (Site.isInner_of_isStatement ?_)
  refine Site.isStatement_of_isControl hk ?_
  rcases hg with rfl | rfl | rfl
  · exact .inl hrole
  · exact .inr (.inl hrole)
  · exact .inr (.inr hrole)

theorem part_place (hk : k.hasParts) {j : NodeKind} (hj : j.isPart) {c : Tree} (hc : c.isNode j) :
    TreePlace.below .statement k c = .statement :=
  TreePlace.below_statement (Site.isInner_of_isPart hk (Tree.hasKind_of_isNode hc hj))

theorem sequence_place (hk : k.isSequence) (c : Tree) :
    TreePlace.below .statement k c = .statement :=
  TreePlace.below_statement (Site.isInner_of_isStatement (Site.isStatement_of_isSequence hk))

theorem block_inBody (h : (Tree.branch k f cs).Conforms) (hcs : AlikeChildren x .statement k cs cs')
    (hk : k = .tryStatement ∨ k = .tryWithResources ∨ k = .synchronizedStatement ∨
      k = .catchClause) :
    Stmt.LikeAll x (Stmt.inBody cs) (Stmt.inBody cs') := by
  refine hcs.inBody fun c hc hrole => ?_
  have hkind := h.block_in_body hk c hc (Tree.field_of_isBranchInRole hrole)
  have hparts : k.hasParts := by rcases hk with rfl | rfl | rfl | rfl <;> rfl
  exact ⟨hkind, part_place hparts rfl hkind⟩

theorem header (h : (Tree.branch .forStatement f cs).Conforms)
    (hcs : AlikeChildren x .statement .forStatement cs cs') :
    Expr.LikeIn x (Expr.ofHeader cs) (Expr.ofHeader cs') := by
  refine hcs.ofHeader fun c hc hrole => TreePlace.below_eq_expression (Site.isInner_eq_false ?_ rfl)
  rw [Site.isStatement]
  rcases h.header c hc hrole with hfield | hfield <;> rw [hfield] <;> rfl

theorem tryCatch (h : (Tree.branch k f cs).Conforms) (hcs : AlikeChildren x .statement k cs cs')
    (hk : k = .tryStatement ∨ k = .tryWithResources) :
    Stmt.Like x
      (.tryCatch (Expr.ofResources cs) (Stmt.inBody cs) (CatchClause.ofNamed cs)
        (Stmt.inFinally? cs))
      (.tryCatch (Expr.ofResources cs') (Stmt.inBody cs') (CatchClause.ofNamed cs')
        (Stmt.inFinally? cs')) := by
  have hparts : k.hasParts := by rcases hk with rfl | rfl <;> rfl
  have hresources : ∀ c ∈ cs, c.isBranchInRole .resources →
      c.isNode .resourceSpecification ∧ TreePlace.below .statement k c = .expression := by
    intro c hc hrole
    have hkind := h.resources hk c hc (Tree.field_of_isBranchInRole hrole)
    refine ⟨hkind, TreePlace.below_eq_expression (Site.isInner_eq_false ?_ ?_)⟩
    · rcases hk with rfl | rfl <;> rfl
    · rw [Tree.hasKind_isPart_of_isExpressive (Tree.isExpressive_of_isNode hkind rfl)]
      exact Bool.and_false _
  have hbody := hcs.block_inBody h (hk.imp_right .inl)
  exact .ofHandlers (hcs.ofResources hresources) hbody
    (hcs.ofHandlers fun c _ => part_place hparts rfl)
    (hcs.inFinally? fun c _ => part_place hparts rfl)

theorem statement (h : (Tree.branch k f cs).Conforms) (hcs : AlikeChildren x .statement k cs cs')
    (hk : k.isStatement) :
    Stmt.Like x (Stmt.ofTree (.branch k f cs)) (Stmt.ofTree (.branch k f cs')) := by
  cases k with
  | block =>
    have hstatements := h.statements (.inl rfl)
    exact .block (hcs.ofBlock fun c hc => ⟨hstatements c hc, sequence_place rfl c⟩)
  | ifStatement =>
    exact .ofOption (hcs.expression_inRole rfl (.inl rfl))
      (hcs.stmt_inRole (statement_place h rfl (.inl rfl)))
      (hcs.stmt_inRole? (statement_place h rfl (.inr (.inl rfl))))
  | whileStatement =>
    exact .whileLoop (hcs.expression_inRole rfl (.inl rfl))
      (hcs.stmt_inRole (statement_place h rfl (.inr (.inr rfl))))
  | doStatement =>
    exact .doWhile (hcs.stmt_inRole (statement_place h rfl (.inr (.inr rfl))))
      (hcs.expression_inRole rfl (.inl rfl))
  | forStatement =>
    exact .forLoop (hcs.header h) (hcs.stmt_inRole (statement_place h rfl (.inr (.inr rfl))))
  | enhancedForStatement =>
    exact .forEach (hcs.expression_inRole rfl (.inr rfl))
      (hcs.stmt_inRole (statement_place h rfl (.inr (.inr rfl))))
  | switch => exact .switch (hcs.condition h) (hcs.switchBlock h)
  | tryStatement => exact hcs.tryCatch h (.inl rfl)
  | tryWithResources => exact hcs.tryCatch h (.inr rfl)
  | throwStatement =>
    have hplace (c : Tree) : TreePlace.below .statement .throwStatement c = .expression :=
      TreePlace.below_eq_expression (Site.isInner_eq_false rfl rfl)
    exact .throw (hcs.ofFirst fun c _ => hplace c)
  | synchronizedStatement =>
    have hlock := hcs.ofParenthesized fun c _ hkind =>
      TreePlace.below_eq_expression (Site.isInner_eq_false rfl
        (Tree.hasKind_isPart_of_isExpressive (Tree.isExpressive_of_isNode hkind rfl)))
    exact .synchronized hlock (hcs.block_inBody h (.inr (.inr (.inl rfl))))
  | labeledStatement =>
    have hstatements := h.statements (.inr rfl)
    exact hcs.ofLast? fun c hc => ⟨hstatements c hc, sequence_place rfl c⟩
  | classDeclaration | interfaceDeclaration | enumDeclaration | recordDeclaration =>
    exact .simple .nil
  | _ =>
    first
    | exact absurd hk Bool.false_ne_true
    | exact .simple (hcs.ofNamed fun c _ =>
        TreePlace.below_eq_expression (Site.isInner_eq_false rfl rfl)).filter

end AlikeChildren

/-! ## Trees -/

namespace Alike
variable {x : Leeway} {p : TreePlace} {k : NodeKind} {f : Option Field} {cs cs' : List Tree}

/-- Nothing is made of a leaf. -/
theorem leaf (j : TokenKind) (l l' : Lexeme) : Alike x p (.leaf j f l) (.leaf j f l') where
  look := rfl
  expression _ := .atom
  resources _ h := nomatch h
  statement _ _ := .simple .nil
  block _ h := nomatch h
  cases _ h := nomatch h
  entry _ h := by rcases h with h | h <;> cases h
  handler _ h := nomatch h
  finish _ h := nomatch h
  label h := nomatch h
  types h := nomatch h
  parameter h := nomatch h

/-- **Nodes are taken alike if their children are.** -/
theorem branch (h : (Tree.branch k f cs).Conforms) (hcs : AlikeChildren x p k cs cs')
    (hlabel : k = .switchLabel →
      x.labels = true ∨ (Tree.branch k f cs).text = (Tree.branch k f cs').text)
    (htypes : k = .catchType → x.labels = true ∨
      (Tree.branch k f cs).alternatives = (Tree.branch k f cs').alternatives) :
    Alike x p (.branch k f cs) (.branch k f cs') := by
  have hkind {j : NodeKind} (hj : (Tree.branch k f cs).isNode j) : k = j := eq_of_beq hj
  constructor
  · rfl
  · rintro rfl
    exact hcs.expression h
  · rintro rfl hj
    obtain rfl := hkind hj
    exact hcs.ofNamed fun c _ => TreePlace.below_expression (by decide) (by decide)
  · rintro rfl hj
    exact hcs.statement h hj
  · rintro rfl hj
    have hsequence : k.isSequence := by cases k <;> first | rfl | cases hj
    exact hcs.ofBlock fun c hc =>
      ⟨h.statements (.inl hj) c hc, AlikeChildren.sequence_place hsequence c⟩
  · rintro rfl hj
    obtain rfl := hkind hj
    refine hcs.ofEntries fun c _ hc => ?_
    rcases hc with hc | hc
    · exact AlikeChildren.part_place rfl rfl hc
    · exact AlikeChildren.part_place rfl rfl hc
  · rintro rfl hj
    rcases hj with hj | hj
    · obtain rfl := hkind hj
      exact (hcs.ofGroup (h.entry_statements (.inl rfl))
        fun c _ => AlikeChildren.sequence_place rfl c).2
    · obtain rfl := hkind hj
      exact hcs.ofRule (h.entry_statements (.inr rfl))
        fun c _ => AlikeChildren.sequence_place rfl c
  · rintro rfl hj
    obtain rfl := hkind hj
    exact .cons hcs.caughtTypes (hcs.block_inBody h (.inr (.inr (.inr rfl)))) .nil
  · rintro rfl hj
    obtain rfl := hkind hj
    exact hcs.inFirstBlock? fun c _ => AlikeChildren.part_place rfl rfl
  · intro hj
    exact hlabel (hkind hj)
  · intro hj
    exact htypes (hkind hj)
  · intro hj
    exact hcs.handledTypes

end Alike

end CodeRisk
