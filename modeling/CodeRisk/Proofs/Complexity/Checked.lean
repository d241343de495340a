import CodeRisk.Proofs.Complexity.Moves

/-!
# The walk with checked counters

Counters are words, and a sum that does not fit into one wraps around without a sign. Here the walk
is written once more, with every sum of counters and every number that becomes a counter checked
(`SourceUnit.tally?`). It makes the same moves (`Tally.stmt?_eq`), and each of them succeeds as long
as the numbers of the walk without a limit fit (`Tally.Shows.move?`). Numbers are bounded by the
size of the unit, so up to a size of 92681 nothing wraps (`SourceUnit.walk_bounded`).
-/
namespace CodeRisk

namespace Counter

/-- The sum of two counters, if it fits into one. -/
def add? (a b : UInt32) : Option UInt32 :=
  if a.toNat + b.toNat < limit then some (a + b) else none

/-- The counter of a number, if it fits into one. -/
def ofNat? (n : Nat) : Option UInt32 :=
  if n < limit then some (.ofNat n) else none

theorem add?_eq {a b : UInt32} (h : a.toNat + b.toNat < limit) : add? a b = some (a + b) :=
  if_pos h

theorem ofNat?_eq {n : Nat} (h : n < limit) : ofNat? n = some (.ofNat n) :=
  if_pos h

theorem toNat_add {a b : UInt32} (h : a.toNat + b.toNat < limit) :
    (a + b).toNat = a.toNat + b.toNat := by
  rw [UInt32.toNat_add]
  exact Nat.mod_eq_of_lt h

end Counter

/-! ## The checked walk -/

namespace Tally

/-- Counts a branching construct. -/
def bump? (cyclomatic cognitive : UInt32) (t : Tally) : Option Tally := do
  let file ← Counter.add? t.cyclomatic cyclomatic
  match t.current with
  | none => return { t with cyclomatic := file }
  | some m =>
    let branches ← Counter.add? m.cyclomatic cyclomatic
    let weight ← Counter.add? m.cognitive cognitive
    return { t with cyclomatic := file, current := some ⟨branches, weight⟩ }

/-- Enters a construct that branches `ways` times at the given depth, and yields the depth inside. -/
def branch? (ways depth : UInt32) (t : Tally) : Option (UInt32 × Tally) := do
  let weight ← Counter.add? ways depth
  let t ← t.bump? ways weight
  let inner ← Counter.add? depth 1
  return (inner, t.reach inner)

mutual

/-- Counts what is in a statement at the given depth. -/
def stmt? (depth : UInt32) : Stmt → Tally → Option Tally
  | .ifElse c a none, t => do
    let (inner, t) ← t.branch? 1 depth
    stmt? inner a (← expr? inner c t)
  | .ifElse c a (some b), t => do
    let (inner, t) ← t.branch? 1 depth
    stmt? inner b (← stmt? inner a (← expr? inner c t))
  | .whileLoop c b, t => do
    let (inner, t) ← t.branch? 1 depth
    stmt? inner b (← expr? inner c t)
  | .forLoop h b, t => do
    let (inner, t) ← t.branch? 1 depth
    stmt? inner b (← exprs? inner h t)
  | .forEach e b, t => do
    let (inner, t) ← t.branch? 1 depth
    stmt? inner b (← expr? inner e t)
  | .switch e cs, t => do
    let ways ← Counter.ofNat? cs.length
    let (inner, t) ← t.branch? ways depth
    cases? inner cs (← expr? inner e t)
  | .doWhile b c, t => do expr? depth c (← stmt? depth b t)
  | .tryCatch rs b cs none, t => do
    catches? depth cs (← stmts? depth b (← exprs? depth rs t))
  | .tryCatch rs b cs (some f), t => do
    stmts? depth f (← catches? depth cs (← stmts? depth b (← exprs? depth rs t)))
  | .throw e, t => expr? depth e t
  | .block b, t => stmts? depth b t
  | .synchronized e b, t => do stmts? depth b (← expr? depth e t)
  | .simple es, t => exprs? depth es t

/-- Counts what is in an expression at the given depth. -/
def expr? (depth : UInt32) : Expr → Tally → Option Tally
  | .conditional c a b, t => do
    expr? depth b (← expr? depth a (← expr? depth c (← t.bump? 1 1)))
  | .lambda s, t => stmt? depth s t
  | .switch e cs, t => do cases? depth cs (← expr? depth e t)
  | .compound es, t => exprs? depth es t
  | .atom, t => some t

/-- Counts what is in some statements. -/
def stmts? (depth : UInt32) : List Stmt → Tally → Option Tally
  | [], t => some t
  | s :: ss, t => do stmts? depth ss (← stmt? depth s t)

/-- Counts what is in some expressions. -/
def exprs? (depth : UInt32) : List Expr → Tally → Option Tally
  | [], t => some t
  | e :: es, t => do exprs? depth es (← expr? depth e t)

/-- Counts what is in the bodies of some cases. -/
def cases? (depth : UInt32) : List SwitchCase → Tally → Option Tally
  | [], t => some t
  | .mk _ body :: cs, t => do cases? depth cs (← stmts? depth body t)

/-- Counts some handlers and what is in them. -/
def catches? (depth : UInt32) : List CatchClause → Tally → Option Tally
  | [], t => some t
  | .mk _ body :: cs, t => do catches? depth cs (← stmts? depth body (← t.bump? 1 1))

end

/-- Starts a method. -/
def enterMethod? (lines : Nat) (t : Tally) : Option Tally := do
  let methodCount ← Counter.add? t.methodCount 1
  return { t.enterMethod lines with methodCount }

/-- Leaves a method. -/
def leaveMethod? (m : MethodDecl) (t : Tally) : Option Tally := do
  let cognitive ← Counter.add? t.cognitive (t.counters.figures m).cognitive
  return { t.leaveMethod m with cognitive }

/-- Counts a method. -/
def method? (t : Tally) (m : MethodDecl) : Option Tally := do
  let t ← t.enterMethod? m.span.lineCount
  let t ← stmts? 0 m.statements t
  t.leaveMethod? m

end Tally

/-- The tally of a whole unit, if nothing wraps on the way. -/
def SourceUnit.tally? (u : SourceUnit) : Option Tally := do
  let t ← u.methods.foldlM Tally.method? {}
  Tally.stmts? 0 u.otherCode t

/-! ## The checked walk makes the same moves -/

namespace Tally
open Outline (charge inside chargesIn)

/-- Enters a charge into a tally. -/
def enter? (t : Tally) (c : Charge) : Option Tally := do
  let ways ← Counter.ofNat? c.ways
  if c.nests then
    let (_, t) ← t.branch? ways (.ofNat c.depth)
    return t
  else t.bump? ways ways

/-- Enters some charges, one after the other. -/
def enterAll? (cs : List Charge) (t : Tally) : Option Tally :=
  cs.foldlM enter? t

@[simp] theorem enterAll?_nil (t : Tally) : enterAll? [] t = some t := rfl

theorem enterAll?_cons (c : Charge) (cs : List Charge) (t : Tally) :
    enterAll? (c :: cs) t = (t.enter? c).bind (enterAll? cs) :=
  List.foldlM_cons

@[simp] theorem enterAll?_append (cs ds : List Charge) :
    enterAll? (cs ++ ds) = fun t => (enterAll? cs t).bind (enterAll? ds) :=
  funext fun _ => List.foldlM_append

/-- A handler and a conditional expression add one branch each. -/
@[simp] theorem enterAll?_plain (d : Nat) (cs : List Charge) :
    enterAll? (⟨1, false, d⟩ :: cs) = fun t => (t.bump? 1 1).bind (enterAll? cs) :=
  funext fun t => enterAll?_cons _ cs t

/-- The depth inside is one more. -/
theorem branch?_bind {d : Nat} (hd : d + 1 < Counter.limit) (ways : UInt32) (t : Tally)
    (k : UInt32 × Tally → Option Tally) :
    (t.branch? ways (.ofNat d)).bind k =
      ((t.branch? ways (.ofNat d)).map Prod.snd).bind fun t => k (.ofNat (d + 1), t) := by
  have hdepth : (UInt32.ofNat d).toNat = d := Counter.toNat_ofNat_of_lt (by omega)
  have hinner : Counter.add? (.ofNat d) 1 = some (.ofNat (d + 1)) := by
    rw [Counter.add?_eq (by rw [hdepth]; exact hd), Counter.ofNat_succ]
  unfold branch?
  rw [hinner]
  cases Counter.add? ways (.ofNat d) with
  | none => rfl
  | some weight =>
    show ((t.bump? ways weight).bind _).bind k = (((t.bump? ways weight).bind _).map _).bind _
    cases t.bump? ways weight <;> rfl

theorem enter?_nests (ways d : Nat) (t : Tally) :
    t.enter? ⟨ways, true, d⟩ =
      (Counter.ofNat? ways).bind fun w => (t.branch? w (.ofNat d)).map Prod.snd := by
  unfold enter?
  cases Counter.ofNat? ways with
  | none => rfl
  | some w =>
    show (t.branch? w (.ofNat d)).bind _ = (t.branch? w (.ofNat d)).map _
    cases t.branch? w (.ofNat d) <;> rfl

/-- Entering a switch, with what is done inside. -/
theorem ways_bind {ways d : Nat} (hd : d + 1 < Counter.limit) (t : Tally)
    {k : UInt32 × Tally → Option Tally} {cs : List Charge}
    (hk : ∀ t, k (.ofNat (d + 1), t) = enterAll? cs t) :
    ((Counter.ofNat? ways).bind fun w => (t.branch? w (.ofNat d)).bind k) =
      enterAll? (⟨ways, true, d⟩ :: cs) t := by
  rw [enterAll?_cons, enter?_nests]
  cases Counter.ofNat? ways with
  | none => rfl
  | some w =>
    rw [Option.bind_some, Option.bind_some, branch?_bind hd]
    exact congrArg _ (funext hk)

/-- Entering a condition or a loop, with what is done inside. -/
theorem branch_bind {d : Nat} (hd : d + 1 < Counter.limit) (t : Tally)
    {k : UInt32 × Tally → Option Tally} {cs : List Charge}
    (hk : ∀ t, k (.ofNat (d + 1), t) = enterAll? cs t) :
    (t.branch? 1 (.ofNat d)).bind k = enterAll? (⟨1, true, d⟩ :: cs) t := by
  rw [← ways_bind hd t hk]
  rfl

mutual

/-- **The checked walk over a statement enters the charges of its outline, in order**, as long as
the depth fits into a counter. -/
theorem stmt?_eq (d : Nat) : (s : Stmt) → (t : Tally) → d + s.chain < Counter.limit →
    stmt? (.ofNat d) s t = enterAll? (s.outline.charges d) t
  | .ifElse c a none, t, h => by
    rw [Stmt.chain_ifElse] at h
    have hd : d + 1 < Counter.limit := by omega
    have hc (t) := expr?_eq (d + 1) c t (by omega)
    have ha (t) := stmt?_eq (d + 1) a t (by omega)
    rw [stmt?]
    exact branch_bind hd t fun t => by simp [hc, ha, inside, -UInt32.ofNat_add]
  | .ifElse c a (some b), t, h => by
    rw [Stmt.chain_ifElse, Option.toList_some, Stmt.chainIn_cons] at h
    have hd : d + 1 < Counter.limit := by omega
    have hc (t) := expr?_eq (d + 1) c t (by omega)
    have ha (t) := stmt?_eq (d + 1) a t (by omega)
    have hb (t) := stmt?_eq (d + 1) b t (by omega)
    rw [stmt?]
    exact branch_bind hd t fun t => by simp [hc, ha, hb, inside, -UInt32.ofNat_add]
  | .whileLoop c b, t, h => by
    rw [Stmt.chain_whileLoop] at h
    have hd : d + 1 < Counter.limit := by omega
    have hc (t) := expr?_eq (d + 1) c t (by omega)
    have hb (t) := stmt?_eq (d + 1) b t (by omega)
    rw [stmt?]
    exact branch_bind hd t fun t => by simp [hc, hb, inside, -UInt32.ofNat_add]
  | .forLoop i b, t, h => by
    rw [Stmt.chain_forLoop] at h
    have hd : d + 1 < Counter.limit := by omega
    have hi (t) := exprs?_eq (d + 1) i t (by omega)
    have hb (t) := stmt?_eq (d + 1) b t (by omega)
    rw [stmt?]
    exact branch_bind hd t fun t => by simp [hi, hb, inside, -UInt32.ofNat_add]
  | .forEach e b, t, h => by
    rw [Stmt.chain_forEach] at h
    have hd : d + 1 < Counter.limit := by omega
    have he (t) := expr?_eq (d + 1) e t (by omega)
    have hb (t) := stmt?_eq (d + 1) b t (by omega)
    rw [stmt?]
    exact branch_bind hd t fun t => by simp [he, hb, inside, -UInt32.ofNat_add]
  | .switch e cs, t, h => by
    rw [Stmt.chain_switch] at h
    have hd : d + 1 < Counter.limit := by omega
    have he (t) := expr?_eq (d + 1) e t (by omega)
    have hcs (t) := cases?_eq (d + 1) cs t (by omega)
    rw [stmt?]
    exact ways_bind hd t fun t => by simp [he, hcs, inside, -UInt32.ofNat_add]
  | .doWhile b c, t, h => by
    rw [Stmt.chain_doWhile] at h
    have hb (t) := stmt?_eq d b t (by omega)
    have hc (t) := expr?_eq d c t (by omega)
    simp [stmt?, hb, hc, charge, inside]
  | .tryCatch rs b cs none, t, h => by
    rw [Stmt.chain_tryCatch] at h
    have hrs (t) := exprs?_eq d rs t (by omega)
    have hb (t) := stmts?_eq d b t (by omega)
    have hcs (t) := catches?_eq d cs t (by omega)
    simp [stmt?, hrs, hb, hcs, charge, inside]
  | .tryCatch rs b cs (some f), t, h => by
    rw [Stmt.chain_tryCatch, Option.getD_some] at h
    have hrs (t) := exprs?_eq d rs t (by omega)
    have hb (t) := stmts?_eq d b t (by omega)
    have hcs (t) := catches?_eq d cs t (by omega)
    have hf (t) := stmts?_eq d f t (by omega)
    simp [stmt?, hrs, hb, hcs, hf, charge, inside]
  | .throw e, t, h => by
    have he (t) := expr?_eq d e t (Stmt.chain_throw e ▸ h)
    simp [stmt?, he, charge, inside]
  | .block b, t, h => by
    have hb (t) := stmts?_eq d b t (Stmt.chain_block b ▸ h)
    simp [stmt?, hb, charge, inside]
  | .synchronized e b, t, h => by
    rw [Stmt.chain_synchronized] at h
    have he (t) := expr?_eq d e t (by omega)
    have hb (t) := stmts?_eq d b t (by omega)
    simp [stmt?, he, hb, charge, inside]
  | .simple es, t, h => by
    have hes (t) := exprs?_eq d es t (Stmt.chain_simple es ▸ h)
    simp [stmt?, hes, charge, inside]

/-- The checked walk over an expression enters the charges of its outline, in order. -/
theorem expr?_eq (d : Nat) : (e : Expr) → (t : Tally) → d + e.chain < Counter.limit →
    expr? (.ofNat d) e t = enterAll? (e.outline.charges d) t
  | .conditional c a b, t, h => by
    rw [Expr.chain_conditional] at h
    have hc (t) := expr?_eq d c t (by omega)
    have ha (t) := expr?_eq d a t (by omega)
    have hb (t) := expr?_eq d b t (by omega)
    simp [expr?, hc, ha, hb, charge, inside]
  | .lambda s, t, h => by
    have hs (t) := stmt?_eq d s t (Expr.chain_lambda s ▸ h)
    simp [expr?, hs, charge, inside]
  | .switch e cs, t, h => by
    rw [Expr.chain_switch] at h
    have he (t) := expr?_eq d e t (by omega)
    have hcs (t) := cases?_eq d cs t (by omega)
    simp [expr?, he, hcs, charge, inside]
  | .compound es, t, h => by
    have hes (t) := exprs?_eq d es t (Expr.chain_compound es ▸ h)
    simp [expr?, hes, charge, inside]
  | .atom, t, _ => by
    simp [expr?, charge]

theorem stmts?_eq (d : Nat) : (ss : List Stmt) → (t : Tally) →
    d + Stmt.chainIn ss < Counter.limit →
    stmts? (.ofNat d) ss t = enterAll? (chargesIn d (Stmt.outlines ss)) t
  | [], _, _ => rfl
  | s :: ss, t, h => by
    rw [Stmt.chainIn_cons] at h
    have hs (t) := stmt?_eq d s t (by omega)
    have hss (t) := stmts?_eq d ss t (by omega)
    simp [stmts?, hs, hss]

theorem exprs?_eq (d : Nat) : (es : List Expr) → (t : Tally) →
    d + Expr.chainIn es < Counter.limit →
    exprs? (.ofNat d) es t = enterAll? (chargesIn d (Expr.outlines es)) t
  | [], _, _ => rfl
  | e :: es, t, h => by
    rw [Expr.chainIn_cons] at h
    have he (t) := expr?_eq d e t (by omega)
    have hes (t) := exprs?_eq d es t (by omega)
    simp [exprs?, he, hes]

theorem cases?_eq (d : Nat) : (cs : List SwitchCase) → (t : Tally) →
    d + SwitchCase.chainIn cs < Counter.limit →
    cases? (.ofNat d) cs t = enterAll? (chargesIn d (SwitchCase.outlines cs)) t
  | [], _, _ => rfl
  | .mk _ body :: cs, t, h => by
    rw [SwitchCase.chainIn_cons, SwitchCase.body] at h
    have hbody (t) := stmts?_eq d body t (by omega)
    have hcs (t) := cases?_eq d cs t (by omega)
    simp [cases?, hbody, hcs, charge, inside]

theorem catches?_eq (d : Nat) : (cs : List CatchClause) → (t : Tally) →
    d + CatchClause.chainIn cs < Counter.limit →
    catches? (.ofNat d) cs t = enterAll? (chargesIn d (CatchClause.outlines cs)) t
  | [], _, _ => rfl
  | .mk _ body :: cs, t, h => by
    rw [CatchClause.chainIn_cons, CatchClause.body] at h
    have hbody (t) := stmts?_eq d body t (by omega)
    have hcs (t) := catches?_eq d cs t (by omega)
    simp [catches?, hbody, hcs, charge, inside]

end

/-- A checked move. -/
def move? (t : Tally) : Move → Option Tally
  | .enterMethod m => t.enterMethod? m.span.lineCount
  | .charge c => t.enter? c
  | .leaveMethod m => t.leaveMethod? m

theorem stmts?_eq_moves {ss : List Stmt} (h : Stmt.chainIn ss < Counter.limit) (t : Tally) :
    stmts? 0 ss t = (Stmt.moves ss).foldlM move? t := by
  have hwalk := stmts?_eq 0 ss t (by omega)
  rw [Stmt.moves, List.foldlM_map]
  exact hwalk

theorem method?_eq_moves {m : MethodDecl} (h : Stmt.chainIn m.statements < Counter.limit)
    (t : Tally) : t.method? m = m.moves.foldlM move? t := by
  rw [MethodDecl.moves, List.cons_append, List.foldlM_cons, method?]
  refine congrArg _ (funext fun t => ?_)
  rw [List.foldlM_append, stmts?_eq_moves h]
  refine congrArg _ (funext fun t => ?_)
  rw [List.foldlM_cons]
  show t.leaveMethod? m = (t.leaveMethod? m).bind some
  exact (Option.bind_fun_some _).symm

end Tally

/-- **The checked walk over a unit makes its moves**, as long as no chain is too long for a
counter. -/
theorem SourceUnit.tally?_eq_moves (u : SourceUnit)
    (hmethods : ∀ m ∈ u.methods, Stmt.chainIn m.statements < Counter.limit)
    (hother : Stmt.chainIn u.otherCode < Counter.limit) :
    u.tally? = u.moves.foldlM Tally.move? {} := by
  have hfold (ms : List MethodDecl) (hms : ∀ m ∈ ms, Stmt.chainIn m.statements < Counter.limit)
      (t : Tally) :
      ms.foldlM Tally.method? t = (ms.flatMap MethodDecl.moves).foldlM Tally.move? t := by
    induction ms generalizing t with
    | nil => rfl
    | cons m ms ih =>
      obtain ⟨hm, hms⟩ := List.forall_mem_cons.mp hms
      rw [List.foldlM_cons, List.flatMap_cons, List.foldlM_append, Tally.method?_eq_moves hm]
      exact congrArg _ (funext fun t => ih hms t)
  rw [tally?, moves, List.foldlM_append, hfold u.methods hmethods]
  exact congrArg _ (funext fun t => Tally.stmts?_eq_moves hother t)

/-! ## Counters that hold their numbers -/

/-- The numbers fit into counters. -/
structure ExactTally.Fits (e : ExactTally) : Prop where
  cyclomatic : e.cyclomatic < Counter.limit
  cognitive : e.cognitive < Counter.limit
  methodCount : e.methodCount < Counter.limit
  current : ∀ m ∈ e.current, m.cyclomatic < Counter.limit ∧ m.cognitive < Counter.limit

/-- The numbers of the counters of a method. -/
def MethodCounters.exact (m : MethodCounters) : ExactCounters :=
  ⟨m.cyclomatic.toNat, m.cognitive.toNat⟩

/-- The numbers of a tally. -/
def Tally.exact (t : Tally) : ExactTally where
  cyclomatic := t.cyclomatic.toNat
  cognitive := t.cognitive.toNat
  maxNesting := t.maxNesting.toNat
  methodCount := t.methodCount.toNat
  current := t.current.map MethodCounters.exact

namespace Tally

/-- A checked count succeeds if all sums fit, and then the counters hold the sums. -/
theorem bump?_eq {t : Tally} {w g : UInt32} (hfile : t.cyclomatic.toNat + w.toNat < Counter.limit)
    (hmethod : ∀ m ∈ t.current, m.cyclomatic.toNat + w.toNat < Counter.limit ∧
      m.cognitive.toNat + g.toNat < Counter.limit) :
    t.bump? w g = some (t.bump w g) ∧
      (t.bump w g).exact =
        { t.exact with
          cyclomatic := t.exact.cyclomatic + w.toNat
          current := t.exact.current.map fun m =>
            ⟨m.cyclomatic + w.toNat, m.cognitive + g.toNat⟩ } := by
  have hsum : (t.cyclomatic + w).toNat = t.cyclomatic.toNat + w.toNat := Counter.toNat_add hfile
  unfold bump? bump exact
  rw [Counter.add?_eq hfile, hsum]
  cases hcurrent : t.current with
  | none => exact ⟨rfl, rfl⟩
  | some m =>
    obtain ⟨hbranches, hweight⟩ := hmethod m hcurrent
    constructor
    · show ((Counter.add? m.cyclomatic w).bind fun b => (Counter.add? m.cognitive g).bind _) = _
      rw [Counter.add?_eq hbranches, Counter.add?_eq hweight]
      rfl
    · simp only [Option.map_some, MethodCounters.exact, Counter.toNat_add hbranches,
        Counter.toNat_add hweight]

theorem exact_reach (t : Tally) (d : UInt32) :
    (t.reach d).exact = { t.exact with maxNesting := max t.exact.maxNesting d.toNat } := by
  unfold reach exact
  rw [Counter.toNat_max]

/-- **A charge**: if the new numbers fit, the checked charge succeeds and the counters hold them. -/
theorem enter?_eq {t : Tally} {c : Charge} {n : Nat} (hc : c.AtMost n) (hn : n < Counter.limit)
    (hfits : (t.exact.move (.charge c)).Fits) :
    t.enter? c = some (t.enter c) ∧ (t.enter c).exact = t.exact.move (.charge c) := by
  obtain ⟨hweight, hlevel⟩ := hc
  have hfile : t.cyclomatic.toNat + c.ways < Counter.limit := hfits.cyclomatic
  have hmethod : ∀ m ∈ t.current, m.cyclomatic.toNat + c.ways < Counter.limit ∧
      m.cognitive.toNat + c.weight < Counter.limit := by
    intro m hm
    have hmem : (t.exact.move (.charge c)).current =
        some ⟨m.cyclomatic.toNat + c.ways, m.cognitive.toNat + c.weight⟩ := by
      simp only [ExactTally.move, exact, Option.mem_def.mp hm, Option.map_some,
        MethodCounters.exact]
    exact hfits.current _ hmem
  obtain ⟨ways, nests, depth⟩ := c
  cases nests with
  | false =>
    change ways + 0 ≤ n at hweight
    have hways : (UInt32.ofNat ways).toNat = ways := Counter.toNat_ofNat_of_lt (by omega)
    obtain ⟨hbump, hexact⟩ := bump?_eq (t := t) (w := .ofNat ways) (g := .ofNat ways)
      (by rw [hways]; exact hfile) (by rw [hways]; exact hmethod)
    constructor
    · show (Counter.ofNat? ways).bind (fun w => t.bump? w w) = _
      rw [Counter.ofNat?_eq (by omega)]
      exact hbump
    · show (t.bump (.ofNat ways) (.ofNat ways)).exact = _
      rw [hexact, hways]
      simp [ExactTally.move, Charge.level, Charge.weight]
  | true =>
    change ways + depth ≤ n at hweight
    change depth + 1 ≤ n at hlevel
    have hways : (UInt32.ofNat ways).toNat = ways := Counter.toNat_ofNat_of_lt (by omega)
    have hdepth : (UInt32.ofNat depth).toNat = depth := Counter.toNat_ofNat_of_lt (by omega)
    have hcost : (UInt32.ofNat ways).toNat + (UInt32.ofNat depth).toNat < Counter.limit := by omega
    have hinner : (UInt32.ofNat depth).toNat + (1 : UInt32).toNat < Counter.limit := by
      rw [hdepth, UInt32.toNat_one]
      omega
    have hsum : (UInt32.ofNat ways + UInt32.ofNat depth).toNat = ways + depth := by
      rw [Counter.toNat_add hcost, hways, hdepth]
    obtain ⟨hbump, hexact⟩ := bump?_eq (t := t) (w := .ofNat ways) (g := .ofNat ways + .ofNat depth)
      (by rw [hways]; exact hfile) (by rw [hways, hsum]; exact hmethod)
    constructor
    · rw [enter?_nests, Counter.ofNat?_eq (by omega), Option.bind_some, branch?,
        Counter.add?_eq hcost, Counter.add?_eq hinner]
      show ((t.bump? (.ofNat ways) (.ofNat ways + .ofNat depth)).bind _).map _ = _
      rw [hbump]
      rfl
    · show ((t.bump (.ofNat ways) (.ofNat ways + .ofNat depth)).reach (.ofNat depth + 1)).exact = _
      rw [exact_reach, hexact, hways, hsum, Counter.toNat_add hinner, hdepth]
      rfl

/-- **A move**: if the new numbers fit, the checked move succeeds and the counters hold them. -/
theorem move?_eq {t : Tally} {mv : Move} {n : Nat} (hn : n < Counter.limit)
    (hmv : ∀ c, mv = .charge c → c.AtMost n) (hfits : (t.exact.move mv).Fits) :
    t.move? mv = some (t.move mv) ∧ (t.move mv).exact = t.exact.move mv := by
  cases mv with
  | charge c => exact enter?_eq (hmv c rfl) hn hfits
  | enterMethod m =>
    have hcount : t.methodCount.toNat + (1 : UInt32).toNat < Counter.limit := hfits.methodCount
    constructor
    · show (Counter.add? t.methodCount 1).bind _ = _
      rw [Counter.add?_eq hcount]
      rfl
    · simp [move, enterMethod, exact, ExactTally.move, Counter.toNat_add hcount,
        MethodCounters.exact]
  | leaveMethod m =>
    have hcounters : (t.counters.figures m).cognitive.toNat =
        (t.exact.current.getD {}).cognitive := by
      unfold counters exact
      cases t.current <;> rfl
    have hsum : t.cognitive.toNat + (t.counters.figures m).cognitive.toNat < Counter.limit := by
      rw [hcounters]
      exact hfits.cognitive
    constructor
    · show (Counter.add? t.cognitive (t.counters.figures m).cognitive).bind _ = _
      rw [Counter.add?_eq hsum]
      rfl
    · simp only [move, leaveMethod, exact, ExactTally.move, Counter.toNat_add hsum, hcounters,
        Option.map_none]

/-- **A run**: if the numbers fit after every move, the checked moves succeed one after the other,
and the counters hold the numbers all the way. -/
theorem foldlM_move? {t : Tally} {moves : List Move} {n : Nat} (hn : n < Counter.limit)
    (hmoves : ∀ c, .charge c ∈ moves → c.AtMost n)
    (hfits : ∀ k, ((moves.take k).foldl ExactTally.move t.exact).Fits) :
    moves.foldlM move? t = some (moves.foldl move t) ∧
      ∀ k, ((moves.take k).foldl move t).exact = (moves.take k).foldl ExactTally.move t.exact := by
  induction moves generalizing t with
  | nil =>
    refine ⟨rfl, fun k => ?_⟩
    rw [List.take_nil]
    rfl
  | cons mv moves ih =>
    have hcharge : ∀ c, mv = .charge c → c.AtMost n := by
      rintro c rfl
      exact hmoves c (List.mem_cons_self ..)
    obtain ⟨hmove, hexact⟩ := move?_eq hn hcharge (hfits 1)
    have hrest : ∀ k, ((moves.take k).foldl ExactTally.move (t.move mv).exact).Fits := by
      intro k
      rw [hexact]
      exact hfits (k + 1)
    obtain ⟨hrun, hshown⟩ := ih (fun c hc => hmoves c (List.mem_cons_of_mem mv hc)) hrest
    constructor
    · rw [List.foldlM_cons, hmove]
      exact hrun
    · intro k
      cases k with
      | zero => rfl
      | succ k =>
        have hstep := hshown k
        rw [hexact] at hstep
        exact hstep

end Tally

/-! ## Units -/

namespace SourceUnit
variable {u : SourceUnit}

theorem sizeIn_method_le {m : MethodDecl} (hm : m ∈ u.methods) :
    Outline.sizeIn (Stmt.outlines m.statements) ≤ u.size := by
  have hsize := length_occurrences_le hm
  rw [length_occurrences_method] at hsize
  omega

theorem sizeIn_otherCode_le (u : SourceUnit) :
    Outline.sizeIn (Stmt.outlines u.otherCode) ≤ u.size := by
  have hlength : (Stmt.occurrences u.otherCode).length =
      Outline.sizeIn (Stmt.outlines u.otherCode) := Outline.length_occurrencesIn [] _
  rw [size_eq]
  omega

/-- No construct is charged with more than the size of the unit. -/
theorem charge_atMost_size {c : Charge} (h : .charge c ∈ u.moves) : c.AtMost u.size := by
  have hstmts {ss : List Stmt} (hsize : Outline.sizeIn (Stmt.outlines ss) ≤ u.size)
      (h : .charge c ∈ Stmt.moves ss) : c.AtMost u.size := by
    obtain ⟨c', hc, heq⟩ := List.mem_map.mp h
    obtain rfl := Move.charge.inj heq
    have hcharge := Outline.chargeIn_atMost 0 _ (Stmt.coveredIn ss) c' hc
    exact hcharge.mono (by omega)
  rcases List.mem_append.mp h with h | h
  · obtain ⟨m, hm, h⟩ := List.mem_flatMap.mp h
    rw [MethodDecl.moves, List.cons_append] at h
    rcases List.mem_cons.mp h with heq | h
    · cases heq
    · rcases List.mem_append.mp h with h | h
      · exact hstmts (sizeIn_method_le hm) h
      · cases List.mem_singleton.mp h
  · exact hstmts u.sizeIn_otherCode_le h

/-- The numbers of a unit up to this size fit into counters, on the way as well as in the end. -/
theorem exactTally_fits (hsize : u.size ≤ 92681) (k : Nat) :
    ((u.moves.take k).foldl ExactTally.move {}).Fits := by
  obtain ⟨hcyclomatic, hcognitive, -, hcount, hcurrent⟩ := u.exactTally_atMost k
  have hbranches : u.exactTally.cyclomatic ≤ u.size + 1 := u.exactCyclomatic_le_size
  have hmethods : u.exactTally.methodCount ≤ u.size := u.length_methods_le
  have hweight : 2 * u.exactTally.cognitive ≤ 92681 * (92681 + 1) :=
    u.two_mul_exactCognitive_le.trans (Nat.mul_le_mul hsize (Nat.succ_le_succ hsize))
  have hlimit : Counter.limit = 4294967296 := rfl
  refine ⟨by omega, by omega, by omega, ?_⟩
  intro m hm
  have hm := hcurrent m hm
  exact ⟨by omega, by omega⟩

/-- **Up to this size nothing wraps**: every sum of counters and every number that becomes a counter
fits, and the counters hold the numbers of the walk without a limit all the way. -/
theorem tally?_eq (hsize : u.size ≤ 92681) :
    u.tally? = some u.tally ∧
      ∀ k, ((u.moves.take k).foldl Tally.move {}).exact =
        (u.moves.take k).foldl ExactTally.move {} := by
  have hlimit : u.size < Counter.limit := Nat.lt_of_le_of_lt hsize (by decide)
  have hchain {ss : List Stmt} (h : Outline.sizeIn (Stmt.outlines ss) ≤ u.size) :
      Stmt.chainIn ss < Counter.limit := by
    have hchain := Outline.chainIn_le_sizeIn (Stmt.outlines ss)
    rw [Stmt.chainIn]
    omega
  obtain ⟨hrun, hexact⟩ :=
    Tally.foldlM_move? (t := {}) hlimit (fun c hc => charge_atMost_size hc) (exactTally_fits hsize)
  rw [u.tally?_eq_moves (fun m hm => hchain (sizeIn_method_le hm)) (hchain u.sizeIn_otherCode_le),
    hrun, u.foldl_move]
  exact ⟨rfl, hexact⟩

/-- **The arithmetic of the walk is bounded by the size of the unit.** The walk makes the moves of
the unit, and without a limit its numbers end as the exact figures. These are at most linear in the
size, and the cognitive complexity is at most quadratic. No number on the way is above that in the
end, and nothing that is charged for one construct is above the size. So up to a size of 92681 every
sum of counters and every number that becomes a counter fits, and the counters hold the exact
numbers after every move. -/
theorem walk_bounded (u : SourceUnit) :
    let n := u.size
    let e := u.exactTally
    (u.moves.foldl Tally.move {} = u.tally ∧ u.moves.foldl ExactTally.move {} = e) ∧
    (e.cyclomatic ≤ n + 1 ∧ e.maxNesting ≤ n ∧ e.methodCount ≤ n ∧
      2 * e.cognitive ≤ n * (n + 1)) ∧
    (∀ k, ((u.moves.take k).foldl ExactTally.move {}).AtMost e) ∧
    (∀ c, .charge c ∈ u.moves → c.weight ≤ n ∧ c.level ≤ n) ∧
    (n ≤ 92681 → u.tally? = some u.tally ∧
      ∀ k, ((u.moves.take k).foldl Tally.move {}).exact =
        (u.moves.take k).foldl ExactTally.move {}) := by
  intro n e
  refine ⟨⟨u.foldl_move, u.foldl_exactMove⟩, ?_, u.exactTally_atMost, ?_, tally?_eq⟩
  · exact ⟨u.exactCyclomatic_le_size, u.exactNesting_le_size, u.length_methods_le,
      u.two_mul_exactCognitive_le⟩
  · intro c hc
    obtain ⟨hweight, hlevel⟩ := charge_atMost_size hc
    exact ⟨hweight, hlevel⟩

/-- The sample holds two methods and 62 nodes, and nothing wraps on the walk over it. -/
theorem walk_bounded_sample :
    sample.size = 64 ∧ sample.tally? = some sample.tally ∧ sample.exactTally.cognitive ≤ 2080 := by
  have hsize : sample.size = 64 := by decide
  obtain ⟨-, ⟨-, -, -, hcognitive⟩, -, -, hchecked⟩ := walk_bounded sample
  have hfits : sample.size ≤ 92681 := by omega
  rw [hsize] at hcognitive
  exact ⟨hsize, (hchecked hfits).1, by omega⟩

end SourceUnit

end CodeRisk
