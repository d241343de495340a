import CodeRisk.Complexity
import CodeRisk.Proofs.Pieces

/-!
# Contexts

A context is the code of a unit with one statement or expression taken out, at any place and any
depth (`SourceUnit.Context`). On the way from the missing piece up to the body of a method, or to a
statement outside methods, each step is a frame: one statement or expression that lacks one of its
parts (`CodeFrame`). There is a frame for every part that a piece of code has
(`CodeFrame.exists_fill`), and so a context for every place in a unit
(`SourceUnit.Context.exists_fill`).

Two questions are asked of a piece of code: what the walk counts in it, from any depth and whatever
has been counted before (`SameWalk`), and whether it handles exceptions (`SameHandling`). The answer
for a whole depends on its parts only through their own answers, frame by frame, so pieces that
cannot be told apart by themselves cannot be told apart in any context either
(`SourceUnit.Context.tally_congr`, `SourceUnit.Context.handlesExceptions_congr`).
-/
namespace CodeRisk

/-! ## Pieces that are missing -/

/-- What a piece of code is. -/
inductive CodeKind where
  | statement
  | expression

/-- The pieces of a kind. -/
@[reducible] def CodeKind.Code : CodeKind → Type
  | statement => Stmt
  | expression => Expr

/-- A list that lacks one element. -/
structure Gap (α : Type) where
  before : List α
  after : List α

namespace Gap
variable {α β : Type} (g : Gap α) {x y : α}

/-- The list with the element put in. -/
def fill (x : α) : List α :=
  g.before ++ x :: g.after

theorem map_fill_congr {f : α → β} (h : f x = f y) : (g.fill x).map f = (g.fill y).map f := by
  rw [fill, fill, List.map_append, List.map_append, List.map_cons, List.map_cons, h]

theorem any_fill_congr {p : α → Bool} (h : p x = p y) : (g.fill x).any p = (g.fill y).any p := by
  rw [fill, fill, List.any_append, List.any_append, List.any_cons, List.any_cons, h]

theorem foldl_fill_congr {f : β → α → β} (h : ∀ b, f b x = f b y) (b : β) :
    (g.fill x).foldl f b = (g.fill y).foldl f b := by
  rw [fill, fill, List.foldl_append, List.foldl_append, List.foldl_cons, List.foldl_cons, h]

end Gap

/-- The cases of a switch that lack one statement. -/
structure CaseGap where
  cases : Gap SwitchCase
  label : String
  body : Gap Stmt

def CaseGap.fill (g : CaseGap) (s : Stmt) : List SwitchCase :=
  g.cases.fill (.mk g.label (g.body.fill s))

/-- The handlers of a try statement that lack one statement. -/
structure HandlerGap where
  handlers : Gap CatchClause
  types : List String
  body : Gap Stmt

def HandlerGap.fill (g : HandlerGap) (s : Stmt) : List CatchClause :=
  g.handlers.fill (.mk g.types (g.body.fill s))

/-- A statement or an expression that lacks one part. The first kind is that of the part, the second
one that of the whole. -/
inductive CodeFrame : CodeKind → CodeKind → Type where
  | ifCondition (a : Stmt) (b : Option Stmt) : CodeFrame .expression .statement
  | ifThen (c : Expr) (b : Option Stmt) : CodeFrame .statement .statement
  | ifElse (c : Expr) (a : Stmt) : CodeFrame .statement .statement
  | whileCondition (b : Stmt) : CodeFrame .expression .statement
  | whileBody (c : Expr) : CodeFrame .statement .statement
  | doBody (c : Expr) : CodeFrame .statement .statement
  | doCondition (b : Stmt) : CodeFrame .expression .statement
  | forHeader (h : Gap Expr) (b : Stmt) : CodeFrame .expression .statement
  | forBody (h : List Expr) : CodeFrame .statement .statement
  | forEachIterable (b : Stmt) : CodeFrame .expression .statement
  | forEachBody (e : Expr) : CodeFrame .statement .statement
  | switchSelector (cs : List SwitchCase) : CodeFrame .expression .statement
  | switchCase (e : Expr) (cs : CaseGap) : CodeFrame .statement .statement
  | tryResource (rs : Gap Expr) (b : Block) (cs : List CatchClause) (f : Option Block) :
      CodeFrame .expression .statement
  | tryBody (rs : List Expr) (b : Gap Stmt) (cs : List CatchClause) (f : Option Block) :
      CodeFrame .statement .statement
  | tryHandler (rs : List Expr) (b : Block) (cs : HandlerGap) (f : Option Block) :
      CodeFrame .statement .statement
  | tryFinally (rs : List Expr) (b : Block) (cs : List CatchClause) (f : Gap Stmt) :
      CodeFrame .statement .statement
  | throw : CodeFrame .expression .statement
  | block (b : Gap Stmt) : CodeFrame .statement .statement
  | synchronizedLock (b : Block) : CodeFrame .expression .statement
  | synchronizedBody (e : Expr) (b : Gap Stmt) : CodeFrame .statement .statement
  | simple (es : Gap Expr) : CodeFrame .expression .statement
  | condition (a b : Expr) : CodeFrame .expression .expression
  | whenTrue (c b : Expr) : CodeFrame .expression .expression
  | whenFalse (c a : Expr) : CodeFrame .expression .expression
  | lambda : CodeFrame .statement .expression
  | valueSelector (cs : List SwitchCase) : CodeFrame .expression .expression
  | valueCase (e : Expr) (cs : CaseGap) : CodeFrame .statement .expression
  | compound (es : Gap Expr) : CodeFrame .expression .expression

/-- The statement or the expression with the part put in. -/
def CodeFrame.fill {part whole : CodeKind} : CodeFrame part whole → part.Code → whole.Code
  | ifCondition a b, x => Stmt.ifElse x a b
  | ifThen c b, x => Stmt.ifElse c x b
  | ifElse c a, x => Stmt.ifElse c a (some x)
  | whileCondition b, x => Stmt.whileLoop x b
  | whileBody c, x => Stmt.whileLoop c x
  | doBody c, x => Stmt.doWhile x c
  | doCondition b, x => Stmt.doWhile b x
  | forHeader h b, x => Stmt.forLoop (h.fill x) b
  | forBody h, x => Stmt.forLoop h x
  | forEachIterable b, x => Stmt.forEach x b
  | forEachBody e, x => Stmt.forEach e x
  | switchSelector cs, x => Stmt.switch x cs
  | switchCase e cs, x => Stmt.switch e (cs.fill x)
  | tryResource rs b cs f, x => Stmt.tryCatch (rs.fill x) b cs f
  | tryBody rs b cs f, x => Stmt.tryCatch rs (b.fill x) cs f
  | tryHandler rs b cs f, x => Stmt.tryCatch rs b (cs.fill x) f
  | tryFinally rs b cs f, x => Stmt.tryCatch rs b cs (some (f.fill x))
  | throw, x => Stmt.throw x
  | block b, x => Stmt.block (b.fill x)
  | synchronizedLock b, x => Stmt.synchronized x b
  | synchronizedBody e b, x => Stmt.synchronized e (b.fill x)
  | simple es, x => Stmt.simple (es.fill x)
  | condition a b, x => Expr.conditional x a b
  | whenTrue c b, x => Expr.conditional c x b
  | whenFalse c a, x => Expr.conditional c a x
  | lambda, x => Expr.lambda x
  | valueSelector cs, x => Expr.switch x cs
  | valueCase e cs, x => Expr.switch e (cs.fill x)
  | compound es, x => Expr.compound (es.fill x)

/-- A piece of code that lacks a piece of the kind, any number of frames deep. -/
inductive CodeContext (missing : CodeKind) : CodeKind → Type where
  | here : CodeContext missing missing
  | inside {part whole : CodeKind} (f : CodeFrame part whole) (c : CodeContext missing part) :
      CodeContext missing whole

def CodeContext.fill {missing whole : CodeKind} :
    CodeContext missing whole → missing.Code → whole.Code
  | here, x => x
  | inside f c, x => f.fill (c.fill x)

/-- A unit that lacks a piece of code, in the body of a method or outside methods. The body of the
method keeps its text. -/
inductive SourceUnit.Context (missing : CodeKind) where
  | method (u : SourceUnit) (ms : Gap MethodDecl) (m : MethodDecl) (text : String) (b : Gap Stmt)
      (c : CodeContext missing .statement)
  | otherCode (u : SourceUnit) (code : Gap Stmt) (c : CodeContext missing .statement)

/-- The method with the piece put into its body. -/
def MethodDecl.withStatements (m : MethodDecl) (text : String) (ss : Block) : MethodDecl :=
  { m with body := some ⟨text, ss⟩ }

def SourceUnit.Context.fill {missing : CodeKind} :
    SourceUnit.Context missing → missing.Code → SourceUnit
  | method u ms m text b c, x =>
    { u with methods := ms.fill (m.withStatements text (b.fill (c.fill x))) }
  | otherCode u code c, x => { u with otherCode := code.fill (c.fill x) }

/-! ## Every place -/

/-- What the piece is. -/
def Piece.kind : Piece → CodeKind
  | stmt _ => .statement
  | expr _ => .expression

def Piece.code : (p : Piece) → p.kind.Code
  | stmt s => s
  | expr e => e

/-- A list with an element lacks the element somewhere. -/
theorem Gap.exists_fill {α : Type} {x : α} {xs : List α} (h : x ∈ xs) :
    ∃ g : Gap α, g.fill x = xs := by
  obtain ⟨before, after, rfl⟩ := List.append_of_mem h
  exact ⟨⟨before, after⟩, rfl⟩

theorem CaseGap.exists_fill {p : Piece} {cs : List SwitchCase} (h : p ∈ Piece.ofCases cs) :
    ∃ (s : Stmt) (g : CaseGap), p = .stmt s ∧ g.fill s = cs := by
  obtain ⟨⟨l, body⟩, hc, hp⟩ := List.mem_flatMap.mp h
  obtain ⟨s, hs, rfl⟩ := List.mem_map.mp hp
  obtain ⟨g, hcases⟩ := Gap.exists_fill hc
  obtain ⟨b, rfl⟩ := Gap.exists_fill hs
  exact ⟨s, ⟨g, l, b⟩, rfl, hcases⟩

theorem HandlerGap.exists_fill {p : Piece} {cs : List CatchClause} (h : p ∈ Piece.ofHandlers cs) :
    ∃ (s : Stmt) (g : HandlerGap), p = .stmt s ∧ g.fill s = cs := by
  obtain ⟨⟨ts, body⟩, hc, hp⟩ := List.mem_flatMap.mp h
  obtain ⟨s, hs, rfl⟩ := List.mem_map.mp hp
  obtain ⟨g, hcases⟩ := Gap.exists_fill hc
  obtain ⟨b, rfl⟩ := Gap.exists_fill hs
  exact ⟨s, ⟨g, ts, b⟩, rfl, hcases⟩

theorem Gap.exists_fill_map {α : Type} {f : α → Piece} {p : Piece} {xs : List α}
    (h : p ∈ xs.map f) :
    ∃ (x : α) (g : Gap α), p = f x ∧ g.fill x = xs := by
  obtain ⟨x, hx, rfl⟩ := List.mem_map.mp h
  obtain ⟨g, hg⟩ := Gap.exists_fill hx
  exact ⟨x, g, rfl, hg⟩

/-- **There is a frame for every part.** -/
theorem CodeFrame.exists_fill {n p : Piece} (h : p ∈ n.parts) :
    ∃ f : CodeFrame p.kind n.kind, f.fill p.code = n.code := by
  rcases n with s | e
  · cases s with
    | ifElse c a b =>
      rcases List.mem_cons.mp h with rfl | h
      · exact ⟨.ifCondition a b, rfl⟩
      rcases List.mem_cons.mp h with rfl | h
      · exact ⟨.ifThen c b, rfl⟩
      cases b with
      | none => cases h
      | some b =>
        obtain rfl := List.mem_singleton.mp h
        exact ⟨.ifElse c a, rfl⟩
    | whileLoop c b =>
      rcases List.mem_pair.mp h with rfl | rfl
      · exact ⟨.whileCondition b, rfl⟩
      · exact ⟨.whileBody c, rfl⟩
    | doWhile b c =>
      rcases List.mem_pair.mp h with rfl | rfl
      · exact ⟨.doBody c, rfl⟩
      · exact ⟨.doCondition b, rfl⟩
    | forLoop es b =>
      rcases List.mem_append.mp h with h | h
      · obtain ⟨e, g, rfl, rfl⟩ := Gap.exists_fill_map h
        exact ⟨.forHeader g b, rfl⟩
      · obtain rfl := List.mem_singleton.mp h
        exact ⟨.forBody es, rfl⟩
    | forEach e b =>
      rcases List.mem_pair.mp h with rfl | rfl
      · exact ⟨.forEachIterable b, rfl⟩
      · exact ⟨.forEachBody e, rfl⟩
    | switch e cs =>
      rcases List.mem_cons.mp h with rfl | h
      · exact ⟨.switchSelector cs, rfl⟩
      · obtain ⟨s, g, rfl, rfl⟩ := CaseGap.exists_fill h
        exact ⟨.switchCase e g, rfl⟩
    | tryCatch rs b cs f =>
      rcases List.mem_append.mp h with h | h
      · rcases List.mem_append.mp h with h | h
        · rcases List.mem_append.mp h with h | h
          · obtain ⟨e, g, rfl, rfl⟩ := Gap.exists_fill_map h
            exact ⟨.tryResource g b cs f, rfl⟩
          · obtain ⟨s, g, rfl, rfl⟩ := Gap.exists_fill_map h
            exact ⟨.tryBody rs g cs f, rfl⟩
        · obtain ⟨s, g, rfl, rfl⟩ := HandlerGap.exists_fill h
          exact ⟨.tryHandler rs b g f, rfl⟩
      · cases f with
        | none => cases h
        | some f =>
          obtain ⟨s, g, rfl, rfl⟩ := Gap.exists_fill_map h
          exact ⟨.tryFinally rs b cs g, rfl⟩
    | throw e =>
      obtain rfl := List.mem_singleton.mp h
      exact ⟨.throw, rfl⟩
    | block b =>
      obtain ⟨s, g, rfl, rfl⟩ := Gap.exists_fill_map h
      exact ⟨.block g, rfl⟩
    | synchronized e b =>
      rcases List.mem_cons.mp h with rfl | h
      · exact ⟨.synchronizedLock b, rfl⟩
      · obtain ⟨s, g, rfl, rfl⟩ := Gap.exists_fill_map h
        exact ⟨.synchronizedBody e g, rfl⟩
    | simple es =>
      obtain ⟨e, g, rfl, rfl⟩ := Gap.exists_fill_map h
      exact ⟨.simple g, rfl⟩
  · cases e with
    | conditional c a b =>
      rcases List.mem_cons.mp h with rfl | h
      · exact ⟨.condition a b, rfl⟩
      rcases List.mem_pair.mp h with rfl | rfl
      · exact ⟨.whenTrue c b, rfl⟩
      · exact ⟨.whenFalse c a, rfl⟩
    | lambda s =>
      obtain rfl := List.mem_singleton.mp h
      exact ⟨.lambda, rfl⟩
    | switch e cs =>
      rcases List.mem_cons.mp h with rfl | h
      · exact ⟨.valueSelector cs, rfl⟩
      · obtain ⟨s, g, rfl, rfl⟩ := CaseGap.exists_fill h
        exact ⟨.valueCase e g, rfl⟩
    | compound es =>
      obtain ⟨e, g, rfl, rfl⟩ := Gap.exists_fill_map h
      exact ⟨.compound g, rfl⟩
    | atom => cases h

theorem CodeContext.exists_fill {n p : Piece} (h : n.Contains p) :
    ∃ c : CodeContext p.kind n.kind, c.fill p.code = n.code := by
  induction h using Relation.ReflTransGen.head_induction_on with
  | refl => exact ⟨.here, rfl⟩
  | head hpart _ ih =>
    obtain ⟨c, hc⟩ := ih
    obtain ⟨f, hf⟩ := CodeFrame.exists_fill hpart
    exact ⟨.inside f c, by rw [fill, hc, hf]⟩

/-- **There is a context for every place in a unit.** -/
theorem SourceUnit.Context.exists_fill {u : SourceUnit} {p : Piece} (h : u.Contains p) :
    ∃ c : SourceUnit.Context p.kind, c.fill p.code = u := by
  rcases h with ⟨m, hm, b, hb, s, hs, hp⟩ | ⟨s, hs, hp⟩
  · obtain ⟨c, hc⟩ := CodeContext.exists_fill hp
    obtain ⟨ms, hms⟩ := Gap.exists_fill hm
    obtain ⟨g, hg⟩ := Gap.exists_fill hs
    have hmethod : m.withStatements b.text (g.fill s) = m := by
      rw [hg, MethodDecl.withStatements, ← hb]
    refine ⟨.method u ms m b.text g c, ?_⟩
    show { u with methods := ms.fill (m.withStatements b.text (g.fill (c.fill p.code))) } = u
    erw [hc, hmethod, hms]
  · obtain ⟨c, hc⟩ := CodeContext.exists_fill hp
    obtain ⟨g, hg⟩ := Gap.exists_fill hs
    refine ⟨.otherCode u g c, ?_⟩
    show { u with otherCode := g.fill (c.fill p.code) } = u
    erw [hc, hg]

/-! ## What a whole has of its parts -/

/-- What frames preserve, contexts preserve. -/
theorem CodeContext.fill_of_frames {r : (k : CodeKind) → k.Code → k.Code → Prop}
    (hframes : ∀ {part whole : CodeKind} (f : CodeFrame part whole) {x y : part.Code},
      r part x y → r whole (f.fill x) (f.fill y))
    {missing whole : CodeKind} (c : CodeContext missing whole) {x y : missing.Code}
    (h : r missing x y) : r whole (c.fill x) (c.fill y) := by
  induction c with
  | here => exact h
  | inside f c ih => exact hframes f ih

/-! ## What is counted -/

namespace Tally
variable (d : UInt32) (t : Tally)

theorem stmts_append (ss us : List Stmt) : stmts d (ss ++ us) t = stmts d us (stmts d ss t) := by
  induction ss generalizing t with
  | nil => rfl
  | cons s ss ih => exact ih (stmt d s t)

theorem exprs_append (es fs : List Expr) : exprs d (es ++ fs) t = exprs d fs (exprs d es t) := by
  induction es generalizing t with
  | nil => rfl
  | cons e es ih => exact ih (expr d e t)

theorem stmts_fill (g : Gap Stmt) (s : Stmt) :
    stmts d (g.fill s) t = stmts d g.after (stmt d s (stmts d g.before t)) :=
  stmts_append d t g.before (s :: g.after)

theorem exprs_fill (g : Gap Expr) (e : Expr) :
    exprs d (g.fill e) t = exprs d g.after (expr d e (exprs d g.before t)) :=
  exprs_append d t g.before (e :: g.after)

theorem cases_fill (g : CaseGap) (s : Stmt) :
    cases d (g.fill s) t =
      cases d g.cases.after (stmts d (g.body.fill s) (cases d g.cases.before t)) := by
  rw [CaseGap.fill, Gap.fill]
  induction g.cases.before generalizing t with
  | nil => rfl
  | cons c cs ih =>
    cases c with
    | mk l body => exact ih (stmts d body t)

theorem catches_fill (g : HandlerGap) (s : Stmt) :
    catches d (g.fill s) t =
      catches d g.handlers.after
        (stmts d (g.body.fill s) ((catches d g.handlers.before t).bump 1 1)) := by
  rw [HandlerGap.fill, Gap.fill]
  induction g.handlers.before generalizing t with
  | nil => rfl
  | cons c cs ih =>
    cases c with
    | mk ts body => exact ih (stmts d body (t.bump 1 1))

end Tally

/-- A statement that is put into a case makes no further case. -/
theorem CaseGap.length_fill (g : CaseGap) (s s' : Stmt) :
    (g.fill s).length = (g.fill s').length := by
  simp [CaseGap.fill, Gap.fill]

/-- The walk counts the same in both pieces, at every depth and whatever was counted before. -/
def SameWalk : (k : CodeKind) → k.Code → k.Code → Prop
  | .statement, s, s' => ∀ d t, Tally.stmt d s t = Tally.stmt d s' t
  | .expression, e, e' => ∀ d t, Tally.expr d e t = Tally.expr d e' t

namespace SameWalk
variable {s s' : Stmt} {e e' : Expr} (d : UInt32) (t : Tally)

theorem stmts (h : SameWalk .statement s s') (g : Gap Stmt) :
    Tally.stmts d (g.fill s) t = Tally.stmts d (g.fill s') t := by
  rw [Tally.stmts_fill, Tally.stmts_fill, h]

theorem exprs (h : SameWalk .expression e e') (g : Gap Expr) :
    Tally.exprs d (g.fill e) t = Tally.exprs d (g.fill e') t := by
  rw [Tally.exprs_fill, Tally.exprs_fill, h]

theorem cases (h : SameWalk .statement s s') (g : CaseGap) :
    Tally.cases d (g.fill s) t = Tally.cases d (g.fill s') t := by
  rw [Tally.cases_fill, Tally.cases_fill, h.stmts]

theorem catches (h : SameWalk .statement s s') (g : HandlerGap) :
    Tally.catches d (g.fill s) t = Tally.catches d (g.fill s') t := by
  rw [Tally.catches_fill, Tally.catches_fill, h.stmts]

end SameWalk

/-- **What is counted in a whole** depends on a part through what is counted in the part. -/
theorem CodeFrame.sameWalk {part whole : CodeKind} (f : CodeFrame part whole) {x y : part.Code}
    (h : SameWalk part x y) : SameWalk whole (f.fill x) (f.fill y) := by
  cases f with
  -- the walk tells a condition with an alternative from one without, and so with `finally`
  | ifCondition _ b | ifThen _ b =>
    intro d t
    cases b <;> simp only [fill, Tally.stmt, h _ _]
  | tryResource _ _ _ f =>
    intro d t
    cases f <;> simp only [fill, Tally.stmt, h.exprs]
  | tryBody _ _ _ f =>
    intro d t
    cases f <;> simp only [fill, Tally.stmt, h.stmts]
  | tryHandler _ _ _ f =>
    intro d t
    cases f <;> simp only [fill, Tally.stmt, h.catches]
  | switchCase _ cs =>
    intro d t
    simp only [fill, Tally.stmt, h.cases, cs.length_fill x y]
  | valueCase =>
    intro d t
    simp only [fill, Tally.expr, h.cases]
  | tryFinally | block | synchronizedBody =>
    intro d t
    simp only [fill, Tally.stmt, h.stmts]
  | forHeader | simple =>
    intro d t
    simp only [fill, Tally.stmt, h.exprs]
  | compound =>
    intro d t
    simp only [fill, Tally.expr, h.exprs]
  | condition | whenTrue | whenFalse | lambda | valueSelector =>
    intro d t
    simp only [fill, Tally.expr, h _ _]
  | _ =>
    intro d t
    simp only [fill, Tally.stmt, h _ _]

/-! ## Whether exceptions are handled -/

theorem Stmt.anyHandles_eq_any_stmts (ss : List Stmt) :
    Stmt.anyHandles ss = ss.any Stmt.handlesExceptions := by
  induction ss with
  | nil => rfl
  | cons s ss ih => rw [anyHandles, ih, List.any_cons]

theorem Expr.anyHandles_eq_any (es : List Expr) :
    Expr.anyHandles es = es.any Expr.handlesExceptions := by
  induction es with
  | nil => rfl
  | cons e es ih => rw [anyHandles, ih, List.any_cons]

theorem SwitchCase.anyHandles_eq_any (cs : List SwitchCase) :
    SwitchCase.anyHandles cs = cs.any fun c => Stmt.anyHandles c.body := by
  induction cs with
  | nil => rfl
  | cons c cs ih =>
    cases c with
    | mk l body => rw [anyHandles, ih, List.any_cons, SwitchCase.body]

/-- Exceptions are handled in both pieces or in none of them. -/
def SameHandling : (k : CodeKind) → k.Code → k.Code → Prop
  | .statement, s, s' => s.handlesExceptions = s'.handlesExceptions
  | .expression, e, e' => e.handlesExceptions = e'.handlesExceptions

namespace SameHandling
variable {s s' : Stmt} {e e' : Expr}

theorem stmt (h : SameHandling .statement s s') : s.handlesExceptions = s'.handlesExceptions := h

theorem expr (h : SameHandling .expression e e') : e.handlesExceptions = e'.handlesExceptions := h

theorem stmts (h : SameHandling .statement s s') (g : Gap Stmt) :
    Stmt.anyHandles (g.fill s) = Stmt.anyHandles (g.fill s') := by
  rw [Stmt.anyHandles_eq_any_stmts, Stmt.anyHandles_eq_any_stmts, g.any_fill_congr h]

theorem exprs (h : SameHandling .expression e e') (g : Gap Expr) :
    Expr.anyHandles (g.fill e) = Expr.anyHandles (g.fill e') := by
  rw [Expr.anyHandles_eq_any, Expr.anyHandles_eq_any, g.any_fill_congr h]

theorem cases (h : SameHandling .statement s s') (g : CaseGap) :
    SwitchCase.anyHandles (g.fill s) = SwitchCase.anyHandles (g.fill s') := by
  rw [SwitchCase.anyHandles_eq_any, SwitchCase.anyHandles_eq_any, CaseGap.fill, CaseGap.fill]
  exact g.cases.any_fill_congr (h.stmts g.body)

end SameHandling

/-- **Whether exceptions are handled in a whole** depends on a part through whether they are handled
in the part. -/
theorem CodeFrame.sameHandling {part whole : CodeKind} (f : CodeFrame part whole) {x y : part.Code}
    (h : SameHandling part x y) : SameHandling whole (f.fill x) (f.fill y) := by
  cases f with
  -- a try or throw statement handles exceptions whatever is in it
  | tryResource | tryBody | tryHandler | tryFinally | throw =>
    simp only [fill, SameHandling, Stmt.handlesExceptions]
  | ifCondition _ b =>
    cases b <;> simp only [fill, SameHandling, Stmt.handlesExceptions, h.expr]
  | ifThen _ b =>
    cases b <;> simp only [fill, SameHandling, Stmt.handlesExceptions, h.stmt]
  | whileCondition | doCondition | forEachIterable | switchSelector | synchronizedLock =>
    simp only [fill, SameHandling, Stmt.handlesExceptions, h.expr]
  | ifElse | whileBody | doBody | forBody | forEachBody =>
    simp only [fill, SameHandling, Stmt.handlesExceptions, h.stmt]
  | forHeader | simple => simp only [fill, SameHandling, Stmt.handlesExceptions, h.exprs]
  | block | synchronizedBody => simp only [fill, SameHandling, Stmt.handlesExceptions, h.stmts]
  | switchCase => simp only [fill, SameHandling, Stmt.handlesExceptions, h.cases]
  | condition | whenTrue | whenFalse | valueSelector =>
    simp only [fill, SameHandling, Expr.handlesExceptions, h.expr]
  | lambda => simp only [fill, SameHandling, Expr.handlesExceptions, h.stmt]
  | valueCase => simp only [fill, SameHandling, Expr.handlesExceptions, h.cases]
  | compound => simp only [fill, SameHandling, Expr.handlesExceptions, h.exprs]

/-! ## Units -/

namespace SourceUnit.Context
variable {missing : CodeKind} {x y : missing.Code}

/-- **The figures of a unit** depend on a piece of its code through what is counted in the piece. -/
theorem tally_congr (c : SourceUnit.Context missing) (h : SameWalk missing x y) :
    (c.fill x).tally = (c.fill y).tally := by
  cases c with
  | method u ms m text b c =>
    have hpiece := c.fill_of_frames CodeFrame.sameWalk h
    have hmethod (t : Tally) : t.method (m.withStatements text (b.fill (c.fill x))) =
        t.method (m.withStatements text (b.fill (c.fill y))) := by
      simp only [Tally.method, Tally.body, MethodDecl.withStatements, hpiece.stmts]
      rfl
    exact congrArg (Tally.stmts 0 u.otherCode) (ms.foldl_fill_congr hmethod {})
  | otherCode u code c => exact (c.fill_of_frames CodeFrame.sameWalk h).stmts 0 _ code

theorem map_complexity_congr (c : SourceUnit.Context missing) (h : SameWalk missing x y) :
    (c.fill x).methods.map MethodDecl.complexity =
      (c.fill y).methods.map MethodDecl.complexity := by
  cases c with
  | method u ms m text b c =>
    have hpiece := c.fill_of_frames CodeFrame.sameWalk h
    refine ms.map_fill_congr ?_
    simp only [MethodDecl.complexity, Tally.body, MethodDecl.withStatements, hpiece.stmts]
    rfl
  | otherCode u code c => rfl

theorem handlesExceptions_congr (c : SourceUnit.Context missing) (h : SameHandling missing x y) :
    (c.fill x).handlesExceptions = (c.fill y).handlesExceptions := by
  cases c with
  | method u ms m text b c =>
    have hpiece := c.fill_of_frames CodeFrame.sameHandling h
    rw [handlesExceptions, handlesExceptions, List.any_filterMap, List.any_filterMap]
    exact congrArg (· || Stmt.anyHandles u.otherCode) (ms.any_fill_congr (hpiece.stmts b))
  | otherCode u code c =>
    exact congrArg (_ || ·) ((c.fill_of_frames CodeFrame.sameHandling h).stmts code)

end SourceUnit.Context

end CodeRisk
