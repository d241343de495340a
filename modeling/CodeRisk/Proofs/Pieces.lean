import CodeRisk.Proofs.Exceptions
import Mathlib.Logic.Relation
import Mathlib.Tactic.Tauto

/-!
# Pieces of code

A piece of code is a statement or an expression. Its parts are the pieces that stand directly in it,
at whatever position (`Piece.parts`), and what it contains are its parts, their parts, and so on.

The search for try and throw statements stops early and the walk that counts branches does not, and
neither of them is written over parts. Both visit all that a piece contains and nothing else: the
labels of the outline of a piece are the labels of the pieces it contains
(`Piece.mem_labels_outline`). So the two agree on every statement tree. Exceptions are handled in a
unit if and only if it contains a try or throw statement, and so they are whenever the handler of a
try statement counts as a branch (`SourceUnit.exceptionHandling_iff_contains`).
-/
namespace CodeRisk
open Outline (labels labelsIn)

/-- A statement or an expression. -/
inductive Piece where
  | stmt (s : Stmt)
  | expr (e : Expr)

namespace Piece

/-- All statements of some cases. -/
def ofCases (cs : List SwitchCase) : List Piece :=
  cs.flatMap fun c => c.body.map stmt

/-- All statements of some handlers. -/
def ofHandlers (cs : List CatchClause) : List Piece :=
  cs.flatMap fun c => c.body.map stmt

/-- The statements and expressions directly in a piece. -/
def parts : Piece → List Piece
  | stmt (.ifElse c a b) => expr c :: stmt a :: b.toList.map stmt
  | stmt (.whileLoop c b) => [expr c, stmt b]
  | stmt (.doWhile b c) => [stmt b, expr c]
  | stmt (.forLoop h b) => h.map expr ++ [stmt b]
  | stmt (.forEach e b) => [expr e, stmt b]
  | stmt (.switch e cs) => expr e :: ofCases cs
  | stmt (.tryCatch rs b cs f) =>
    rs.map expr ++ b.map stmt ++ ofHandlers cs ++ (f.getD []).map stmt
  | stmt (.throw e) => [expr e]
  | stmt (.block b) => b.map stmt
  | stmt (.synchronized e b) => expr e :: b.map stmt
  | stmt (.simple es) => es.map expr
  | expr (.conditional c a b) => [expr c, expr a, expr b]
  | expr (.lambda s) => [stmt s]
  | expr (.switch e cs) => expr e :: ofCases cs
  | expr (.compound es) => es.map expr
  | expr .atom => []

/-- The piece contains the other one, at any depth and any position; each contains itself. -/
def Contains : Piece → Piece → Prop :=
  Relation.ReflTransGen fun n p => p ∈ n.parts

/-- The constructs that a piece itself brings: its own, and those of its cases and handlers. -/
def constructs : Piece → List Construct
  | stmt (.ifElse ..) => [.ifElse]
  | stmt (.whileLoop ..) => [.whileLoop]
  | stmt (.doWhile ..) => [.doWhile]
  | stmt (.forLoop ..) => [.forLoop]
  | stmt (.forEach ..) => [.forEach]
  | stmt (.switch _ cs) => .switch cs.length :: cs.map fun _ => .case
  | stmt (.tryCatch _ _ cs _) => .tryCatch :: cs.map fun _ => .handler
  | stmt (.throw _) => [.throw]
  | stmt (.block _) => [.block]
  | stmt (.synchronized ..) => [.synchronized]
  | stmt (.simple _) => [.simple]
  | expr (.conditional ..) => [.conditional]
  | expr (.lambda _) => [.lambda]
  | expr (.switch _ cs) => .valueSwitch :: cs.map fun _ => .case
  | expr (.compound _) => [.compound]
  | expr .atom => [.atom]

/-- Whether the piece is a try or throw statement. -/
def isTryOrThrow : Piece → Bool
  | stmt (.tryCatch ..) | stmt (.throw _) => true
  | _ => false

/-- Whether the piece is a try statement with a handler. -/
def hasHandler : Piece → Bool
  | stmt (.tryCatch _ _ cs _) => !cs.isEmpty
  | _ => false

/-- The outline of a statement or an expression. -/
def outline : Piece → Outline Construct
  | stmt s => s.outline
  | expr e => e.outline

/-- One of the pieces has a node with the label. -/
def Shows (ps : List Piece) (a : Construct) : Prop :=
  ∃ p ∈ ps, a ∈ labels p.outline

/-! ## One step -/

section Step
variable {a : Construct}

@[simp] theorem shows_nil : ¬Shows [] a := by
  simp [Shows]

@[simp] theorem shows_cons {p : Piece} {ps : List Piece} :
    Shows (p :: ps) a ↔ a ∈ labels p.outline ∨ Shows ps a := by
  simp [Shows]

@[simp] theorem shows_append {ps qs : List Piece} :
    Shows (ps ++ qs) a ↔ Shows ps a ∨ Shows qs a := by
  simp [Shows, or_and_right, exists_or]

@[simp] theorem mem_labelsIn_stmts {ss : List Stmt} :
    a ∈ labelsIn (Stmt.outlines ss) ↔ Shows (ss.map stmt) a := by
  induction ss with
  | nil => simp
  | cons s ss ih => simp [ih, outline]

@[simp] theorem mem_labelsIn_exprs {es : List Expr} :
    a ∈ labelsIn (Expr.outlines es) ↔ Shows (es.map expr) a := by
  induction es with
  | nil => simp
  | cons e es ih => simp [ih, outline]

@[simp] theorem mem_labelsIn_cases {cs : List SwitchCase} :
    a ∈ labelsIn (SwitchCase.outlines cs) ↔
      a ∈ cs.map (fun _ => Construct.case) ∨ Shows (ofCases cs) a := by
  induction cs with
  | nil => simp [ofCases]
  | cons c cs ih =>
    obtain ⟨l, body⟩ := c
    rw [ofCases, List.flatMap_cons, ← ofCases, SwitchCase.outlines, Outline.labelsIn_cons,
      Outline.labels_node, List.mem_append, List.mem_cons, mem_labelsIn_stmts, ih, List.map_cons,
      List.mem_cons, shows_append, SwitchCase.body]
    tauto

@[simp] theorem mem_labelsIn_handlers {cs : List CatchClause} :
    a ∈ labelsIn (CatchClause.outlines cs) ↔
      a ∈ cs.map (fun _ => Construct.handler) ∨ Shows (ofHandlers cs) a := by
  induction cs with
  | nil => simp [ofHandlers]
  | cons c cs ih =>
    obtain ⟨ts, body⟩ := c
    rw [ofHandlers, List.flatMap_cons, ← ofHandlers, CatchClause.outlines, Outline.labelsIn_cons,
      Outline.labels_node, List.mem_append, List.mem_cons, mem_labelsIn_stmts, ih, List.map_cons,
      List.mem_cons, shows_append, CatchClause.body]
    tauto

/-- **The labels of a piece** are those it brings itself and those of its parts. -/
theorem mem_labels_step (n : Piece) :
    a ∈ labels n.outline ↔ a ∈ n.constructs ∨ Shows n.parts a := by
  rcases n with s | e
  · cases s with
    | ifElse c t f => cases f <;> simp [outline, constructs, parts]
    | whileLoop c b => simp [outline, constructs, parts]
    | doWhile b c => simp [outline, constructs, parts]
    | forLoop h b => simp [outline, constructs, parts]
    | forEach e b => simp [outline, constructs, parts]
    -- the cases stand between the selector and what is in them, so their labels move to the front
    | switch e cs =>
      rw [constructs, parts, List.mem_cons, shows_cons, outline, outline, Stmt.outline,
        Outline.labels_node, List.mem_cons, Outline.labelsIn_cons, List.mem_append,
        mem_labelsIn_cases]
      tauto
    | tryCatch rs b cs f =>
      have hfinish : a ∈ labels (stmt (.tryCatch rs b cs f)).outline ↔
          a = .tryCatch ∨ Shows (rs.map expr) a ∨ Shows (b.map stmt) a ∨
            a ∈ labelsIn (CatchClause.outlines cs) ∨ Shows ((f.getD []).map stmt) a := by
        cases f <;> simp [outline, or_assoc]
      rw [hfinish, mem_labelsIn_handlers, constructs, parts, List.mem_cons, shows_append,
        shows_append, shows_append]
      tauto
    | throw e => simp [outline, constructs, parts]
    | block b => simp [outline, constructs, parts]
    | synchronized e b => simp [outline, constructs, parts]
    | simple es => simp [outline, constructs, parts]
  · cases e with
    | conditional c t f => simp [outline, constructs, parts]
    | lambda s => simp [outline, constructs, parts]
    | switch e cs =>
      rw [constructs, parts, List.mem_cons, shows_cons, outline, outline, Expr.outline,
        Outline.labels_node, List.mem_cons, Outline.labelsIn_cons, List.mem_append,
        mem_labelsIn_cases]
      tauto
    | compound es => simp [outline, constructs, parts]
    | atom => simp [outline, constructs, parts]

end Step

/-! ## All steps -/

theorem sizeOf_lt_of_mem_ofCases {p : Piece} {cs : List SwitchCase} (h : p ∈ ofCases cs) :
    sizeOf p < sizeOf cs + 1 := by
  obtain ⟨c, hc, hp⟩ := List.mem_flatMap.mp h
  obtain ⟨s, hs, rfl⟩ := List.mem_map.mp hp
  have hcase := List.sizeOf_lt_of_mem hc
  have hbody := List.sizeOf_lt_of_mem hs
  obtain ⟨l, body⟩ := c
  simp only [SwitchCase.body, SwitchCase.mk.sizeOf_spec, stmt.sizeOf_spec] at *
  omega

theorem sizeOf_lt_of_mem_ofHandlers {p : Piece} {cs : List CatchClause} (h : p ∈ ofHandlers cs) :
    sizeOf p < sizeOf cs + 1 := by
  obtain ⟨c, hc, hp⟩ := List.mem_flatMap.mp h
  obtain ⟨s, hs, rfl⟩ := List.mem_map.mp hp
  have hcase := List.sizeOf_lt_of_mem hc
  have hbody := List.sizeOf_lt_of_mem hs
  obtain ⟨l, body⟩ := c
  simp only [CatchClause.body, CatchClause.mk.sizeOf_spec, stmt.sizeOf_spec] at *
  omega

theorem sizeOf_lt_of_mem_stmts {p : Piece} {ss : List Stmt} (h : p ∈ ss.map stmt) :
    sizeOf p < sizeOf ss + 1 := by
  obtain ⟨s, hs, rfl⟩ := List.mem_map.mp h
  have := List.sizeOf_lt_of_mem hs
  rw [stmt.sizeOf_spec]
  omega

theorem sizeOf_lt_of_mem_exprs {p : Piece} {es : List Expr} (h : p ∈ es.map expr) :
    sizeOf p < sizeOf es + 1 := by
  obtain ⟨e, he, rfl⟩ := List.mem_map.mp h
  have := List.sizeOf_lt_of_mem he
  rw [expr.sizeOf_spec]
  omega

/-- A part is smaller than the piece it stands in. -/
theorem sizeOf_lt_of_mem_parts {n p : Piece} (h : p ∈ n.parts) : sizeOf p < sizeOf n := by
  have hstmts := @sizeOf_lt_of_mem_stmts p
  have hexprs := @sizeOf_lt_of_mem_exprs p
  have hcases := @sizeOf_lt_of_mem_ofCases p
  have hhandlers := @sizeOf_lt_of_mem_ofHandlers p
  rcases n with s | e
  · cases s with
    | ifElse c a b => cases b <;> grind [parts]
    | tryCatch rs b cs f => cases f <;> grind [parts]
    | _ => grind [parts]
  · cases e with
    | _ => grind [parts]

/-- **The labels of a piece** are those that the pieces it contains bring. -/
theorem mem_labels_outline {n : Piece} {a : Construct} :
    a ∈ labels n.outline ↔ ∃ p, n.Contains p ∧ a ∈ p.constructs := by
  constructor
  -- down: a label that the piece does not bring itself is one of a part, which is smaller
  · intro ha
    induction hsize : sizeOf n using Nat.strongRecOn generalizing n with
    | ind size ih =>
      subst hsize
      rcases (mem_labels_step n).mp ha with hown | ⟨p, hp, hlabel⟩
      · exact ⟨n, .refl, hown⟩
      · obtain ⟨q, hq, hbrings⟩ := ih _ (sizeOf_lt_of_mem_parts hp) hlabel rfl
        exact ⟨q, .head hp hq, hbrings⟩
  -- up: from the piece that brings the label back along the parts
  · rintro ⟨p, hcontains, hbrings⟩
    induction hcontains using Relation.ReflTransGen.head_induction_on with
    | refl => exact (mem_labels_step p).mpr (.inl hbrings)
    | head hpart _ ih => exact (mem_labels_step _).mpr (.inr ⟨_, hpart, ih⟩)

/-! ## What a piece brings -/

theorem exists_handlesExceptions (p : Piece) :
    (∃ a ∈ p.constructs, a.handlesExceptions = true) ↔ p.isTryOrThrow = true := by
  rcases p with s | e
  · cases s <;> simp [constructs, isTryOrThrow]
  · cases e <;> simp [constructs, isTryOrThrow]

theorem handler_mem_constructs (p : Piece) : .handler ∈ p.constructs ↔ p.hasHandler = true := by
  rcases p with s | e
  · cases s with
    | tryCatch rs b cs f => cases cs <;> simp [constructs, hasHandler]
    | _ => simp [constructs, hasHandler]
  · cases e <;> simp [constructs, hasHandler]

/-- Only try statements have handlers. -/
theorem isTryOrThrow_of_hasHandler {p : Piece} (h : p.hasHandler = true) :
    p.isTryOrThrow = true := by
  rcases p with s | e
  · cases s with
    | tryCatch rs b cs f => rfl
    | _ => exact absurd h Bool.false_ne_true
  · exact absurd h Bool.false_ne_true

end Piece

/-! ## Units -/

namespace SourceUnit

/-- The piece occurs in the body of a method or in the code outside methods. -/
def Contains (u : SourceUnit) (p : Piece) : Prop :=
  (∃ m ∈ u.methods, ∃ b, m.body = some b ∧ ∃ s ∈ b.block, (Piece.stmt s).Contains p) ∨
    ∃ s ∈ u.otherCode, (Piece.stmt s).Contains p

/-- **The nodes of a unit** are what the pieces it contains bring. -/
theorem exists_occurrence {u : SourceUnit} {a : Construct} :
    (∃ o ∈ u.occurrences, o.label = a) ↔ ∃ p, u.Contains p ∧ a ∈ p.constructs := by
  have hcode (ss : List Stmt) : (∃ o ∈ Stmt.occurrences ss, o.label = a) ↔
      ∃ s ∈ ss, ∃ p, (Piece.stmt s).Contains p ∧ a ∈ p.constructs := by
    rw [← List.mem_map, Stmt.occurrences, Outline.map_label_occurrencesIn,
      Piece.mem_labelsIn_stmts]
    simp [Piece.Shows, Piece.mem_labels_outline]
  have hmethod (m : MethodDecl) : (∃ o ∈ m.occurrences, o.label = a) ↔
      ∃ b, m.body = some b ∧ ∃ s ∈ b.block, ∃ p, (Piece.stmt s).Contains p ∧ a ∈ p.constructs := by
    rw [MethodDecl.occurrences, hcode, MethodDecl.statements]
    cases m.body <;> simp
  constructor
  · rintro ⟨o, ho, rfl⟩
    rcases List.mem_append.mp ho with ho | ho
    · obtain ⟨m, hm, ho⟩ := List.mem_flatMap.mp ho
      obtain ⟨b, hb, s, hs, p, hp, hbrings⟩ := (hmethod m).mp ⟨o, ho, rfl⟩
      exact ⟨p, .inl ⟨m, hm, b, hb, s, hs, hp⟩, hbrings⟩
    · obtain ⟨s, hs, p, hp, hbrings⟩ := (hcode u.otherCode).mp ⟨o, ho, rfl⟩
      exact ⟨p, .inr ⟨s, hs, hp⟩, hbrings⟩
  · rintro ⟨p, ⟨m, hm, b, hb, s, hs, hp⟩ | ⟨s, hs, hp⟩, hbrings⟩
    · obtain ⟨o, ho, hlabel⟩ := (hmethod m).mpr ⟨b, hb, s, hs, p, hp, hbrings⟩
      exact ⟨o, List.mem_append_left _ (List.mem_flatMap_of_mem hm ho), hlabel⟩
    · obtain ⟨o, ho, hlabel⟩ := (hcode u.otherCode).mpr ⟨s, hs, p, hp, hbrings⟩
      exact ⟨o, List.mem_append_right _ ho, hlabel⟩

/-- A unit with a try or throw statement anywhere in its code handles exceptions. -/
theorem handlesExceptions_iff_contains (u : SourceUnit) :
    u.handlesExceptions = true ↔ ∃ p, u.Contains p ∧ p.isTryOrThrow = true := by
  rw [handlesExceptions_eq, List.any_eq_true]
  constructor
  · rintro ⟨o, ho, hraises⟩
    obtain ⟨p, hp, hbrings⟩ := exists_occurrence.mp ⟨o, ho, rfl⟩
    exact ⟨p, hp, p.exists_handlesExceptions.mp ⟨_, hbrings, hraises⟩⟩
  · rintro ⟨p, hp, htry⟩
    obtain ⟨a, hbrings, hraises⟩ := p.exists_handlesExceptions.mpr htry
    obtain ⟨o, ho, rfl⟩ := exists_occurrence.mpr ⟨p, hp, hbrings⟩
    exact ⟨o, ho, hraises⟩

variable {ν : Type} [Scale ν]

/-- **Where exceptions are handled.** A unit handles exceptions if and only if a try or throw
statement occurs somewhere in the body of a method or in the code outside methods. The cyclomatic
complexity is one more than the branches of all nodes of that code; a handler is among these nodes,
with its one branch, if and only if a try statement with a handler occurs, and then exceptions are
handled. -/
theorem exceptionHandling_iff_contains (u : SourceUnit) :
    ((u.business : BusinessComplexity ν).exceptionHandling = true ↔
      ∃ p, u.Contains p ∧ p.isTryOrThrow = true) ∧
    (u.complexity : CodeComplexity ν).cyclomatic =
      .ofNat (1 + (u.occurrences.map Occurrence.ways).sum) ∧
    ((∃ o ∈ u.occurrences, o.label = .handler) ↔ ∃ p, u.Contains p ∧ p.hasHandler = true) ∧
    ((∃ o ∈ u.occurrences, o.label = .handler) →
      (u.business : BusinessComplexity ν).exceptionHandling = true) := by
  have hflag : (u.business : BusinessComplexity ν).exceptionHandling = u.handlesExceptions := rfl
  have hhandler : (∃ o ∈ u.occurrences, o.label = .handler) ↔
      ∃ p, u.Contains p ∧ p.hasHandler = true := by
    rw [exists_occurrence]
    simp only [Piece.handler_mem_constructs]
  refine ⟨by rw [hflag, handlesExceptions_iff_contains], ?_, hhandler, fun h => ?_⟩
  · show u.tally.cyclomatic = _
    rw [tally_eq, exactCyclomatic_eq]
    rfl
  · obtain ⟨p, hp, hhas⟩ := hhandler.mp h
    rw [hflag, handlesExceptions_iff_contains]
    exact ⟨p, hp, Piece.isTryOrThrow_of_hasHandler hhas⟩

end SourceUnit

end CodeRisk
