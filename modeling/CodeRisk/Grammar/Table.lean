import CodeRisk.Grammar.Automaton

/-!
# Parsing tables

A table tells for each state and terminal what a reader may do next: shift the terminal or read a
production backwards. Where several moves are open, the bindings of the positions involved decide
as far as they can; what they leave open stays in the table, and the reader follows all of it.
-/
namespace CodeRisk.Grammar

variable {T N : Type} [BEq T] [Hashable T] [BEq N] [Hashable N]

/-- A move of the reader. -/
inductive Action where
  /-- Read the terminal and go to the state. -/
  | shift (state : Nat)
  /-- Replace the symbols of the production by its phrase. -/
  | reduce (production : Nat)
  deriving DecidableEq, Repr

/-- The moves for each state and terminal, and the state behind each phrase. -/
structure Table (T N : Type) [BEq T] [Hashable T] [BEq N] [Hashable N] where
  grammar : Numbered T N
  automaton : Automaton
  actions : Array (Array (List Action))

namespace Table

/-- The binding of the symbol before a position. -/
def bindingBefore (g : Numbered T N) (i : Position) : Binding :=
  match g.productions[i.production]? with
  | some q => if i.dot = 0 then {} else q.bindings.getD (i.dot - 1) {}
  | none => {}

/-- Whether nothing is left to read at a position. -/
def isComplete (g : Numbered T N) (i : Position) : Bool :=
  (Automaton.nextSymbol? g i).isNone

/-- The terminals on which each complete position of each state may be read backwards. -/
def lookaheads (g : Numbered T N) (a : Automaton) (f : Automaton.Follows) :
    Array (List (Nat × TerminalSet)) :=
  let start := Array.replicate a.states.size ([] : List (Nat × TerminalSet))
  let put (table : Array (List (Nat × TerminalSet))) (state p : Nat) (set : TerminalSet) :=
    table.modify state fun row =>
      if row.any (·.1 == p) then row.map fun e => if e.1 == p then (p, e.2 ||| set) else e
      else (p, set) :: row
  let table := (Automaton.phraseMoves g a).foldl (fun table (s, x) =>
    (g.productionsAt x).foldl (fun table p =>
      match g.productions[p]? with
      | none => table
      | some q =>
        match Automaton.traverse g a q.symbols.toList s none with
        | none => table
        | some (target, _) => put table target p (f.get s x)) table) start
  match g.firstSymbol? 0 >>= a.move? 0 with
  | some target => put table target 0 1
  | none => table

/-- Of the productions that may be read backwards those that bind most strongly. -/
def strongest (g : Numbered T N) (ps : List Nat) : List Nat :=
  let level (p : Nat) : Int := match g.productions[p]? with
    | some q => (q.bindings.back?.getD {}).level
    | none => 0
  ps.filter fun p => ps.all fun r => level r ≤ level p

/-- Settles a choice between shifting and reading backwards: the stronger binding wins; of equal
ones, left grouping reads backwards and right grouping shifts; otherwise both stay. -/
def settleShift (g : Numbered T N) (shifts : List Binding) (target : Nat) (ps : List Nat) :
    List Action :=
  let ends := ps.filterMap fun p => g.productions[p]? |>.map fun q => q.bindings.back?.getD {}
  let level := (ends.head?.getD {}).level
  let weaker := shifts.any fun b => b.level < level
  let stronger := shifts.any fun b => level < b.level
  let reductions := ps.map Action.reduce
  let both := reductions ++ [.shift target]
  match stronger, weaker with
  | true, true => both
  | true, false => [.shift target]
  | false, true => reductions
  | false, false =>
    let lefts := ends.any (·.side == some .left)
    let rights := ends.any (·.side == some .right)
    let free := ends.any (·.side.isNone)
    if lefts && !rights && !free then reductions
    else if rights && !lefts && !free then [.shift target]
    else both

/-- The moves of one state on terminal `t`. -/
def actionsAt (g : Numbered T N) (a : Automaton) (firsts : Array TerminalSet) (state : Nat)
    (positions : List Position) (ahead : List (Nat × TerminalSet)) (t : Nat) : List Action :=
  let ps := strongest g ((ahead.filter fun e => e.2.testBit t).map (·.1))
  match a.move? state t with
  | none => ps.map Action.reduce
  | some target =>
    match ps with
    | [] => [.shift target]
    | _ =>
      let shifts := positions.filterMap fun i => do
        let x ← Automaton.nextSymbol? g i
        if i.dot != 0 && (firsts.getD x 0).testBit t then some (bindingBefore g i) else none
      settleShift g shifts target ps

/-- The table of a numbered grammar. -/
def ofNumbered (g : Numbered T N) : Table T N :=
  let openings := g.openings
  let firsts := g.firsts openings
  let a := Automaton.ofNumbered g openings
  let ahead := lookaheads g a (Automaton.follows g a)
  let actions := (Array.range a.states.size).map fun s =>
    (Array.range g.terminals.size).map fun t =>
      actionsAt g a firsts s (a.states.getD s []) (ahead.getD s []) t
  ⟨g, a, actions⟩

/-- The moves of a state on a terminal. -/
def actionsFor (table : Table T N) (state : Nat) (t : T) : List Action :=
  match table.grammar.terminalNumber[t]? with
  | some n => (table.actions.getD state #[]).getD n []
  | none => []

/-- The state behind a phrase. -/
def goto? (table : Table T N) (state : Nat) (n : N) : Option Nat :=
  table.grammar.phraseNumber[n]? >>= fun i =>
    table.automaton.move? state (table.grammar.terminals.size + i)

end Table

end CodeRisk.Grammar
