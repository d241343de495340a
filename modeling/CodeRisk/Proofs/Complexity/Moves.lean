import CodeRisk.Proofs.Complexity.Size

/-!
# The walk move by move

The walk over a unit is a list of moves: a method is entered, a node that counts is charged, a
method is left (`SourceUnit.moves`). The same moves can be made with counters and with numbers that
have no limit (`ExactTally`). Numbers only grow, and what a method has counted so far goes to the
file when the method is left; so nothing that the walk holds on the way is above what the file holds
in the end (`SourceUnit.exactTally_atMost`).
-/
namespace CodeRisk

/-- The counters of one method, without a limit. -/
structure ExactCounters where
  cyclomatic : Nat := 1
  cognitive : Nat := 0
  deriving DecidableEq, Repr

/-- The counters of a walk, without a limit. -/
structure ExactTally where
  cyclomatic : Nat := 1
  cognitive : Nat := 0
  maxNesting : Nat := 0
  methodCount : Nat := 0
  /-- The counters of the method at hand; there are none outside methods. -/
  current : Option ExactCounters := none
  deriving DecidableEq, Repr

/-- What a walk does next. -/
inductive Move where
  | enterMethod (m : MethodDecl)
  | charge (c : Charge)
  | leaveMethod (m : MethodDecl)

/-- A move in a tally. -/
def Tally.move (t : Tally) : Move → Tally
  | .enterMethod m => t.enterMethod m.span.lineCount
  | .charge c => t.enter c
  | .leaveMethod m => t.leaveMethod m

/-- A move without a limit. -/
def ExactTally.move (e : ExactTally) : Move → ExactTally
  | .enterMethod _ => { e with methodCount := e.methodCount + 1, current := some {} }
  | .charge c =>
    { e with
      cyclomatic := e.cyclomatic + c.ways
      maxNesting := max e.maxNesting c.level
      current := e.current.map fun m => ⟨m.cyclomatic + c.ways, m.cognitive + c.weight⟩ }
  | .leaveMethod _ =>
    { e with cognitive := e.cognitive + (e.current.getD {}).cognitive, current := none }

/-- The moves of a walk over some statements. -/
def Stmt.moves (ss : List Stmt) : List Move :=
  (Outline.chargesIn 0 (Stmt.outlines ss)).map .charge

/-- The moves of a walk over a method. -/
def MethodDecl.moves (m : MethodDecl) : List Move :=
  .enterMethod m :: Stmt.moves m.statements ++ [.leaveMethod m]

/-- The moves of a walk over a unit. -/
def SourceUnit.moves (u : SourceUnit) : List Move :=
  u.methods.flatMap MethodDecl.moves ++ Stmt.moves u.otherCode

/-! ## The walk makes these moves -/

namespace Tally

theorem foldl_move_stmts (ss : List Stmt) (t : Tally) :
    (Stmt.moves ss).foldl move t = stmts 0 ss t := by
  rw [show (0 : UInt32) = .ofNat 0 from rfl, stmts_eq_foldl, Stmt.moves, List.foldl_map]
  rfl

theorem foldl_move_method (m : MethodDecl) (t : Tally) : m.moves.foldl move t = t.method m := by
  rw [MethodDecl.moves, List.cons_append, List.foldl_cons, List.foldl_append, foldl_move_stmts,
    Tally.method, body_eq_stmts]
  rfl

end Tally

/-- The tally of a unit is what its moves make of an empty one. -/
theorem SourceUnit.foldl_move (u : SourceUnit) : u.moves.foldl Tally.move {} = u.tally := by
  have hmethods (ms : List MethodDecl) (t : Tally) :
      (ms.flatMap MethodDecl.moves).foldl Tally.move t = ms.foldl Tally.method t := by
    induction ms generalizing t with
    | nil => rfl
    | cons m ms ih =>
      rw [List.flatMap_cons, List.foldl_append, Tally.foldl_move_method, ih, List.foldl_cons]
  rw [moves, List.foldl_append, hmethods, Tally.foldl_move_stmts, tally]

/-! ## Numbers in the end -/

namespace ExactTally

theorem foldl_move_charges (cs : List Charge) (e : ExactTally) :
    (cs.map Move.charge).foldl move e =
      { e with
        cyclomatic := e.cyclomatic + Charge.branches cs
        maxNesting := max e.maxNesting (Charge.nesting cs)
        current := e.current.map fun m =>
          ⟨m.cyclomatic + Charge.branches cs, m.cognitive + Charge.cognition cs⟩ } := by
  induction cs generalizing e with
  | nil =>
    obtain ⟨_, _, _, _, current⟩ := e
    cases current <;> simp
  | cons c cs ih =>
    rw [List.map_cons, List.foldl_cons, ih, move]
    obtain ⟨_, _, _, _, current⟩ := e
    cases current <;> simp [Nat.add_assoc, Nat.max_assoc]

theorem foldl_move_stmts (ss : List Stmt) (e : ExactTally) :
    (Stmt.moves ss).foldl move e =
      { e with
        cyclomatic := e.cyclomatic + Outline.branches (Stmt.occurrences ss)
        maxNesting := max e.maxNesting (Outline.nesting (Stmt.occurrences ss))
        current := e.current.map fun m =>
          ⟨m.cyclomatic + Outline.branches (Stmt.occurrences ss),
            m.cognitive + Outline.cognition (Stmt.occurrences ss)⟩ } := by
  rw [Stmt.moves, foldl_move_charges, Stmt.occurrences, Outline.branches_occurrencesIn,
    Outline.nesting_occurrencesIn, Outline.cognition_occurrencesIn]
  rfl

theorem foldl_move_method (m : MethodDecl) (e : ExactTally) :
    m.moves.foldl move e =
      { cyclomatic := e.cyclomatic + Outline.branches m.occurrences
        cognitive := e.cognitive + Outline.cognition m.occurrences
        maxNesting := max e.maxNesting (Outline.nesting m.occurrences)
        methodCount := e.methodCount + 1
        current := none } := by
  rw [MethodDecl.moves, List.cons_append, List.foldl_cons, List.foldl_append, foldl_move_stmts]
  simp [move, MethodDecl.occurrences]

theorem foldl_move_methods (ms : List MethodDecl) (e : ExactTally) (he : e.current = none) :
    (ms.flatMap MethodDecl.moves).foldl move e =
      { cyclomatic := e.cyclomatic + (ms.map fun m => Outline.branches m.occurrences).sum
        cognitive := e.cognitive + (ms.map fun m => Outline.cognition m.occurrences).sum
        maxNesting := max e.maxNesting (Outline.nesting (ms.flatMap MethodDecl.occurrences))
        methodCount := e.methodCount + ms.length
        current := none } := by
  induction ms generalizing e with
  | nil =>
    obtain ⟨_, _, _, _, current⟩ := e
    obtain rfl : current = none := he
    simp [Outline.nesting]
  | cons m ms ih =>
    rw [List.flatMap_cons, List.foldl_append, foldl_move_method, ih _ rfl, List.flatMap_cons,
      Outline.nesting_append]
    simp only [List.map_cons, List.sum_cons, List.length_cons, Nat.add_assoc, Nat.max_assoc,
      Nat.add_comm 1]

end ExactTally

/-- The numbers of a unit. -/
def SourceUnit.exactTally (u : SourceUnit) : ExactTally where
  cyclomatic := u.exactCyclomatic
  cognitive := u.exactCognitive
  maxNesting := u.exactNesting
  methodCount := u.methods.length

/-- **Without a limit the walk ends with the numbers of the unit.** -/
theorem SourceUnit.foldl_exactMove (u : SourceUnit) :
    u.moves.foldl ExactTally.move {} = u.exactTally := by
  rw [moves, List.foldl_append, ExactTally.foldl_move_methods _ _ rfl,
    ExactTally.foldl_move_stmts, exactTally, exactNesting, occurrences, Outline.nesting_append]
  simp [exactCyclomatic, exactCognitive]

/-! ## Numbers on the way -/

/-- Methods are left after they have been entered, and one at a time. -/
def Move.Balanced : Bool → List Move → Prop
  | inside, [] => inside = false
  | inside, .enterMethod _ :: moves => inside = false ∧ Balanced true moves
  | inside, .charge _ :: moves => Balanced inside moves
  | inside, .leaveMethod _ :: moves => inside = true ∧ Balanced false moves

namespace Move

theorem balanced_charges (cs : List Charge) (inside : Bool) (moves : List Move) :
    Balanced inside (cs.map .charge ++ moves) ↔ Balanced inside moves := by
  induction cs with
  | nil => rfl
  | cons c cs ih => exact ih

theorem balanced_unit (u : SourceUnit) : Balanced false u.moves := by
  have hmethods (ms : List MethodDecl) (moves : List Move) (h : Balanced false moves) :
      Balanced false (ms.flatMap MethodDecl.moves ++ moves) := by
    induction ms with
    | nil => exact h
    | cons m ms ih =>
      rw [List.flatMap_cons, List.append_assoc, MethodDecl.moves, List.append_assoc,
        List.cons_append]
      refine ⟨rfl, ?_⟩
      rw [Stmt.moves, balanced_charges]
      exact ⟨rfl, ih⟩
  apply hmethods
  rw [Stmt.moves, ← List.append_nil (List.map _ _), balanced_charges]
  rfl

end Move

namespace ExactTally
variable {e f : ExactTally} {moves : List Move}

/-- No number of the first tally is above that of the second. What the method at hand has counted is
still to be added to the file. -/
structure AtMost (e f : ExactTally) : Prop where
  cyclomatic : e.cyclomatic ≤ f.cyclomatic
  cognitive : e.cognitive ≤ f.cognitive
  maxNesting : e.maxNesting ≤ f.maxNesting
  methodCount : e.methodCount ≤ f.methodCount
  current : ∀ m ∈ e.current,
    m.cyclomatic ≤ f.cyclomatic ∧ e.cognitive + m.cognitive ≤ f.cognitive

/-- The state of a walk that still has some moves to make. -/
structure Ready (e : ExactTally) (moves : List Move) : Prop where
  balanced : Move.Balanced e.current.isSome moves
  positive : 1 ≤ e.cyclomatic
  current : ∀ m ∈ e.current, m.cyclomatic ≤ e.cyclomatic

/-- **One move** leaves the walk ready for the next ones. -/
theorem Ready.move {mv : Move} (h : e.Ready (mv :: moves)) : (e.move mv).Ready moves := by
  obtain ⟨hbalanced, hpositive, hcurrent⟩ := h
  cases mv with
  | enterMethod m =>
    refine ⟨hbalanced.2, hpositive, ?_⟩
    intro counters hcounters
    obtain rfl := Option.some.inj hcounters
    exact hpositive
  | charge c =>
    refine ⟨?_, Nat.le_add_right_of_le hpositive, ?_⟩
    · show Move.Balanced (e.current.map _).isSome moves
      rw [Option.isSome_map]
      exact hbalanced
    · intro counters hcounters
      obtain ⟨m, hm, rfl⟩ := Option.map_eq_some_iff.mp hcounters
      have hle := hcurrent m hm
      exact Nat.add_le_add_right hle c.ways
  | leaveMethod m => exact ⟨hbalanced.2, hpositive, nofun⟩

theorem Ready.foldl {before : List Move} (h : e.Ready (before ++ moves)) :
    (before.foldl ExactTally.move e).Ready moves := by
  induction before generalizing e with
  | nil => exact h
  | cons mv before ih => exact ih h.move

/-- **Numbers only grow**: when all moves have been made, no number is below what it was. -/
theorem Ready.atMost (h : e.Ready moves) : e.AtMost (moves.foldl ExactTally.move e) := by
  induction moves generalizing e with
  | nil =>
    have hnone : e.current = none :=
      Option.not_isSome_iff_eq_none.mp (ne_true_of_eq_false h.balanced)
    refine ⟨Nat.le_refl _, Nat.le_refl _, Nat.le_refl _, Nat.le_refl _, ?_⟩
    rw [hnone]
    exact nofun
  | cons mv moves ih =>
    have hrest := ih h.move
    rw [List.foldl_cons]
    generalize moves.foldl ExactTally.move (e.move mv) = f at hrest ⊢
    obtain ⟨hcyclomatic, hcognitive, hnesting, hcount, hcounters⟩ := hrest
    cases mv with
    | enterMethod m =>
      have hnone : e.current = none :=
        Option.not_isSome_iff_eq_none.mp (ne_true_of_eq_false h.balanced.1)
      refine ⟨hcyclomatic, hcognitive, hnesting, Nat.le_of_succ_le hcount, ?_⟩
      rw [hnone]
      exact nofun
    | charge c =>
      simp only [ExactTally.move] at hcyclomatic hcognitive hnesting hcount hcounters
      refine ⟨by omega, hcognitive, by omega, hcount, ?_⟩
      intro m hm
      have hgrown := hcounters _ (Option.map_eq_some_iff.mpr ⟨m, hm, rfl⟩)
      change m.cyclomatic + c.ways ≤ _ ∧ e.cognitive + (m.cognitive + c.weight) ≤ _ at hgrown
      exact ⟨by omega, by omega⟩
    | leaveMethod m =>
      simp only [ExactTally.move] at hcyclomatic hcognitive hnesting hcount
      refine ⟨hcyclomatic, by omega, hnesting, hcount, ?_⟩
      intro counters hcurrent
      have hle := h.current counters hcurrent
      rw [hcurrent, Option.getD_some] at hcognitive
      exact ⟨by omega, hcognitive⟩

end ExactTally

/-- Every walk over a unit begins ready. -/
theorem SourceUnit.ready (u : SourceUnit) : ({} : ExactTally).Ready u.moves :=
  ⟨Move.balanced_unit u, Nat.le_refl 1, nofun⟩

/-- **Nothing on the way is above the end.** After any number of moves, no number is above that of
the whole unit. -/
theorem SourceUnit.exactTally_atMost (u : SourceUnit) (k : Nat) :
    ((u.moves.take k).foldl ExactTally.move {}).AtMost u.exactTally := by
  have hready : ({} : ExactTally).Ready (u.moves.take k ++ u.moves.drop k) := by
    rw [List.take_append_drop]
    exact u.ready
  have hatMost := hready.foldl.atMost
  rw [← List.foldl_append, List.take_append_drop, u.foldl_exactMove] at hatMost
  exact hatMost

end CodeRisk
