import CodeRisk.Proofs.Complexity.Construct

/-!
# Chains of nested constructs

A chain of an outline is a path on which only the nodes that nest are counted. No node has more
nodes that nest at it and around it than stand on a longest chain (`Outline.countP_le_chain`), so a
bound on chains bounds every depth. The chain of a statement or an expression is put together from
those of its parts: a condition or a loop adds one, everything else hands on the longest chain in
it.
-/
namespace CodeRisk

namespace Outline
variable {α : Type} [Ranked α]

mutual

/-- The most nodes that nest on one path through an outline. -/
def chain : Outline α → Nat
  | node a parts => inside (chainIn parts) a

/-- The most nodes that nest on one path through one of some outlines. -/
def chainIn : List (Outline α) → Nat
  | [] => 0
  | o :: os => max (chain o) (chainIn os)

end

@[simp] theorem chain_node (a : α) (parts : List (Outline α)) :
    chain (node a parts) = inside (chainIn parts) a := rfl

@[simp] theorem chainIn_nil : chainIn ([] : List (Outline α)) = 0 := rfl

@[simp] theorem chainIn_cons (o : Outline α) (os : List (Outline α)) :
    chainIn (o :: os) = max (chain o) (chainIn os) := rfl

@[simp] theorem chainIn_append (os ps : List (Outline α)) :
    chainIn (os ++ ps) = max (chainIn os) (chainIn ps) := by
  induction os with
  | nil => simp
  | cons o os ih => rw [List.cons_append, chainIn_cons, chainIn_cons, ih, Nat.max_assoc]

theorem inside_eq_add (d : Nat) (a : α) : inside d a = d + inside 0 a := by
  unfold inside
  split <;> omega

mutual

/-- At no node of an outline do more nodes nest than stand around the outline and on its longest
chain. -/
theorem countP_le_chain (around : List α) : (o : Outline α) → ∀ x ∈ occurrences around o,
    (x.label :: x.around).countP Ranked.nests ≤ around.countP Ranked.nests + chain o
  | node a parts => by
    intro x hx
    have hhere := countP_cons_eq_inside a around
    rw [inside_eq_add] at hhere
    rw [chain_node, inside_eq_add]
    rw [occurrences] at hx
    rcases List.mem_cons.mp hx with rfl | hx
    · show (a :: around).countP Ranked.nests ≤ _
      omega
    · have hparts := countP_le_chainIn (a :: around) parts x hx
      omega

/-- The same for some outlines. -/
theorem countP_le_chainIn (around : List α) : (os : List (Outline α)) →
    ∀ x ∈ occurrencesIn around os,
      (x.label :: x.around).countP Ranked.nests ≤ around.countP Ranked.nests + chainIn os
  | [] => by simp [occurrencesIn]
  | o :: os => by
    intro x hx
    rw [occurrencesIn] at hx
    rw [chainIn_cons]
    rcases List.mem_append.mp hx with hx | hx
    · have hhead := countP_le_chain around o x hx
      omega
    · have htail := countP_le_chainIn around os x hx
      omega

end

end Outline

/-! ## Chains of statements and expressions -/

/-- The most nodes that nest on one path through a statement. -/
def Stmt.chain (s : Stmt) : Nat :=
  s.outline.chain

/-- The most nodes that nest on one path through an expression. -/
def Expr.chain (e : Expr) : Nat :=
  e.outline.chain

/-- The most nodes that nest on one path through some statements. -/
def Stmt.chainIn (ss : List Stmt) : Nat :=
  Outline.chainIn (Stmt.outlines ss)

/-- The most nodes that nest on one path through some expressions. -/
def Expr.chainIn (es : List Expr) : Nat :=
  Outline.chainIn (Expr.outlines es)

/-- The most nodes that nest on one path through some cases. -/
def SwitchCase.chainIn (cs : List SwitchCase) : Nat :=
  Outline.chainIn (SwitchCase.outlines cs)

/-- The most nodes that nest on one path through some handlers. -/
def CatchClause.chainIn (cs : List CatchClause) : Nat :=
  Outline.chainIn (CatchClause.outlines cs)

section Lists

@[simp] theorem Stmt.chainIn_nil : Stmt.chainIn [] = 0 := rfl

@[simp] theorem Stmt.chainIn_cons (s : Stmt) (ss : List Stmt) :
    Stmt.chainIn (s :: ss) = max s.chain (Stmt.chainIn ss) := rfl

theorem Stmt.chainIn_append (ss ts : List Stmt) :
    Stmt.chainIn (ss ++ ts) = max (Stmt.chainIn ss) (Stmt.chainIn ts) := by
  induction ss with
  | nil => simp
  | cons s ss ih => rw [List.cons_append, chainIn_cons, chainIn_cons, ih, Nat.max_assoc]

@[simp] theorem Expr.chainIn_nil : Expr.chainIn [] = 0 := rfl

@[simp] theorem Expr.chainIn_cons (e : Expr) (es : List Expr) :
    Expr.chainIn (e :: es) = max e.chain (Expr.chainIn es) := rfl

@[simp] theorem SwitchCase.chainIn_nil : SwitchCase.chainIn [] = 0 := rfl

@[simp] theorem SwitchCase.chainIn_cons (c : SwitchCase) (cs : List SwitchCase) :
    SwitchCase.chainIn (c :: cs) = max (Stmt.chainIn c.body) (SwitchCase.chainIn cs) := by
  cases c
  rfl

theorem SwitchCase.chainIn_append (cs ds : List SwitchCase) :
    SwitchCase.chainIn (cs ++ ds) = max (SwitchCase.chainIn cs) (SwitchCase.chainIn ds) := by
  induction cs with
  | nil => simp
  | cons c cs ih => rw [List.cons_append, chainIn_cons, chainIn_cons, ih, Nat.max_assoc]

@[simp] theorem CatchClause.chainIn_nil : CatchClause.chainIn [] = 0 := rfl

@[simp] theorem CatchClause.chainIn_cons (c : CatchClause) (cs : List CatchClause) :
    CatchClause.chainIn (c :: cs) = max (Stmt.chainIn c.body) (CatchClause.chainIn cs) := by
  cases c
  rfl

/-- To leave expressions out makes no chain longer. -/
theorem Expr.chainIn_filter_le (p : Expr → Bool) (es : List Expr) :
    Expr.chainIn (es.filter p) ≤ Expr.chainIn es := by
  induction es with
  | nil => exact Nat.le_refl _
  | cons e es ih =>
    rw [List.filter_cons, chainIn_cons]
    split
    · rw [chainIn_cons]
      omega
    · omega

end Lists

namespace Stmt

theorem chain_ifElse (c : Expr) (a : Stmt) (b : Option Stmt) :
    chain (.ifElse c a b) = max c.chain (max a.chain (chainIn b.toList)) + 1 := by
  cases b <;> rfl

theorem chain_whileLoop (c : Expr) (b : Stmt) :
    chain (.whileLoop c b) = max c.chain b.chain + 1 := by
  simp [chain, Expr.chain, Outline.inside]

theorem chain_doWhile (b : Stmt) (c : Expr) : chain (.doWhile b c) = max b.chain c.chain := by
  simp [chain, Expr.chain, Outline.inside]

theorem chain_forLoop (h : List Expr) (b : Stmt) :
    chain (.forLoop h b) = max (Expr.chainIn h) b.chain + 1 := by
  simp [chain, Expr.chainIn, Outline.inside]

theorem chain_forEach (e : Expr) (b : Stmt) : chain (.forEach e b) = max e.chain b.chain + 1 := by
  simp [chain, Expr.chain, Outline.inside]

theorem chain_switch (e : Expr) (cs : List SwitchCase) :
    chain (.switch e cs) = max e.chain (SwitchCase.chainIn cs) + 1 := by
  simp [chain, Expr.chain, SwitchCase.chainIn, Outline.inside]

theorem chain_tryCatch (rs : List Expr) (b : List Stmt) (cs : List CatchClause)
    (f : Option (List Stmt)) :
    chain (.tryCatch rs b cs f) =
      max (Expr.chainIn rs)
        (max (chainIn b) (max (CatchClause.chainIn cs) (chainIn (f.getD [])))) := by
  cases f with
  | none => simp [chain, chainIn, Expr.chainIn, CatchClause.chainIn, Outline.inside]
  | some f =>
    simp [chain, chainIn, Expr.chainIn, CatchClause.chainIn, Outline.inside]

theorem chain_throw (e : Expr) : chain (.throw e) = e.chain := by
  simp [chain, Expr.chain, Outline.inside]

theorem chain_block (b : List Stmt) : chain (.block b) = chainIn b := by
  simp [chain, chainIn, Outline.inside]

theorem chain_synchronized (e : Expr) (b : List Stmt) :
    chain (.synchronized e b) = max e.chain (chainIn b) := by
  simp [chain, chainIn, Expr.chain, Outline.inside]

theorem chain_simple (es : List Expr) : chain (.simple es) = Expr.chainIn es := by
  simp [chain, Expr.chainIn, Outline.inside]

end Stmt

namespace Expr

theorem chain_conditional (c a b : Expr) :
    chain (.conditional c a b) = max c.chain (max a.chain b.chain) := by
  simp [chain, Outline.inside]

theorem chain_lambda (s : Stmt) : chain (.lambda s) = s.chain := by
  simp [chain, Stmt.chain, Outline.inside]

theorem chain_switch (e : Expr) (cs : List SwitchCase) :
    chain (.switch e cs) = max e.chain (SwitchCase.chainIn cs) := by
  simp [chain, SwitchCase.chainIn, Outline.inside]

theorem chain_compound (es : List Expr) : chain (.compound es) = chainIn es := by
  simp [chain, chainIn, Outline.inside]

@[simp] theorem chain_atom : chain .atom = 0 := rfl

theorem chain_ofParts_le (es : List Expr) : (ofParts es).chain ≤ chainIn es := by
  have hfilter := chainIn_filter_le (fun e => !e.isAtom) es
  rw [ofParts]
  split
  next => exact Nat.zero_le _
  next e h =>
    rw [h, chainIn_cons, chainIn_nil] at hfilter
    omega
  next =>
    rw [chain_compound]
    exact hfilter

end Expr

end CodeRisk
