import Std.Data.HashMap
import CodeRisk.Grammar.Numbering

/-!
# The automaton of viable beginnings

A position is a production with a place in it; a state is the set of positions that a beginning of
the input can be at, given by the positions that are not at the start of their production. Moving
over a symbol leads from state to state. `Automaton.follows` gives for each move over a phrase the
terminals that may come after that phrase there.
-/
namespace CodeRisk.Grammar

variable {T N : Type} [BEq T] [Hashable T] [BEq N] [Hashable N]

/-- A place in a production, packed into one number. -/
abbrev Position := Nat

namespace Position

/-- Longest right-hand side that a packed position can speak of. -/
def span : Nat := 32

/-- The place `dot` of production `p`. -/
def pack (p dot : Nat) : Position := p * span + dot

/-- The production of a position. -/
def production (i : Position) : Nat := i / span

/-- The number of symbols before a position. -/
def dot (i : Position) : Nat := i % span

end Position

/-- The states, each with its positions and its moves; `0` in a row of moves means that there is no
move, `s + 1` leads to state `s`. -/
structure Automaton where
  states : Array (List Position)
  moves : Array (Array Nat)

namespace Automaton

/-- The symbol after a position. -/
def nextSymbol? (g : Numbered T N) (i : Position) : Option Nat :=
  g.productions[i.production]? >>= fun q => q.symbols[i.dot]?

/-- What a state moves to: for each symbol the positions behind it. -/
def successors (g : Numbered T N) (openings : Array (List Nat)) (state : List Position) :
    Array (List Position) :=
  let put (row : Array (List Position)) (x : Nat) (i : Position) := row.modify x (i :: ·)
  let row := state.foldl (fun row i =>
    match nextSymbol? g i with
    | some x => put row x (i + 1)
    | none => row) (Array.replicate g.symbolCount [])
  let heads := (state.filterMap (nextSymbol? g)).flatMap fun x => openings.getD x []
  let (row, _) := heads.foldl (fun (row, seen) y =>
    if seen.getD y true then (row, seen)
    else
      ((g.productionsAt y).foldl (fun row p =>
        match g.firstSymbol? p with
        | some x => put row x (Position.pack p 1)
        | none => row) row, seen.setIfInBounds y true))
    (row, Array.replicate g.symbolCount false)
  row

/-- The states found so far, with the number of each. -/
structure Discovery where
  states : Array (List Position)
  moves : Array (Array Nat)
  numbers : Std.HashMap (List Position) Nat

/-- Enters a state, unless it is there already, and tells its number. -/
def Discovery.enter (d : Discovery) (state : List Position) : Discovery × Nat :=
  match d.numbers[state]? with
  | some n => (d, n)
  | none => ({ d with states := d.states.push state,
                      numbers := d.numbers.insert state d.states.size }, d.states.size)

/-- Works out the moves of the states from the first without moves on. -/
def explore (g : Numbered T N) (openings : Array (List Nat)) : Nat → Discovery → Discovery
  | 0, d => d
  | fuel + 1, d =>
    match d.states[d.moves.size]? with
    | none => d
    | some state =>
      let (d, row) := (successors g openings state).foldl (fun (d, row) target =>
        match target with
        | [] => (d, row.push 0)
        | _ =>
          let (d, n) := d.enter (target.mergeSort (· ≤ ·))
          (d, row.push (n + 1)))
        (d, (#[] : Array Nat))
      explore g openings fuel { d with moves := d.moves.push row }

/-- Most states that are looked at. -/
def stateLimit : Nat := 100000

/-- The automaton of a grammar. -/
def ofNumbered (g : Numbered T N) (openings : Array (List Nat)) : Automaton :=
  let start := [Position.pack 0 0]
  let d := explore g openings stateLimit ⟨#[start], #[], ({} : Std.HashMap _ _).insert start 0⟩
  ⟨d.states, d.moves⟩

/-- The state behind symbol `x`. -/
def move? (a : Automaton) (state x : Nat) : Option Nat :=
  match (a.moves.getD state #[]).getD x 0 with
  | 0 => none
  | n + 1 => some n

/-- The terminals that can be read in a state. -/
def readable (g : Numbered T N) (a : Automaton) (state : Nat) : TerminalSet :=
  (List.range g.terminals.size).foldl (fun set t =>
    if (a.move? state t).isSome then set ||| (1 <<< t) else set) 0

/-- The state in which a production that begins in `state` has been read, and the last move on the
way if it is one over a phrase. -/
def traverse (g : Numbered T N) (a : Automaton) :
    List Nat → Nat → Option (Nat × Nat) → Option (Nat × Option (Nat × Nat))
  | [], state, last => some (state, last)
  | x :: rest, state, _ => do
    let target ← a.move? state x
    traverse g a rest target (if g.isTerminal x then none else some (state, x))

/-- The terminals that may come after each phrase, by the state in which the phrase begins.
`sets` has a row for each state and an entry for each phrase symbol. -/
structure Follows where
  sets : Array (Array TerminalSet)

/-- The terminals after symbol `x` begun in `state`. -/
def Follows.get (f : Follows) (state x : Nat) : TerminalSet :=
  (f.sets.getD state #[]).getD x 0

/-- Adds terminals to those after `x` in `state`. -/
def Follows.add (f : Follows) (state x : Nat) (set : TerminalSet) : Follows :=
  ⟨f.sets.modify state fun row => row.modify x (· ||| set)⟩

/-- All moves over phrases. -/
def phraseMoves (g : Numbered T N) (a : Automaton) : List (Nat × Nat) :=
  (List.range a.states.size).flatMap fun s =>
    (List.range g.phrases.size).filterMap fun n =>
      let x := g.terminals.size + n
      if (a.move? s x).isSome then some (s, x) else none

/-- A move over a phrase that ends a production hands on what follows the production's phrase:
pairs of the phrase's move and the inner move. -/
def handOns (g : Numbered T N) (a : Automaton) (moves : List (Nat × Nat)) :
    List ((Nat × Nat) × (Nat × Nat)) :=
  moves.flatMap fun (s, x) => (g.productionsAt x).filterMap fun p => do
    let q ← g.productions[p]?
    let (_, last) ← traverse g a q.symbols.toList s none
    let inner ← last
    if inner == (s, x) then none else some ((s, x), inner)

/-- Hands on until nothing changes. -/
def settle (edges : List ((Nat × Nat) × (Nat × Nat))) : Nat → Follows → Follows
  | 0, f => f
  | fuel + 1, f =>
    let (f, changed) := edges.foldl (fun (f, changed) ((s, x), (r, y)) =>
      let old := f.get r y
      let new := old ||| f.get s x
      if new == old then (f, changed) else (f.add r y new, true)) (f, false)
    if changed then settle edges fuel f else f

/-- What may follow each phrase in each state; `ending` follows the whole. -/
def follows (g : Numbered T N) (a : Automaton) : Follows :=
  let moves := phraseMoves g a
  let empty : Follows := ⟨Array.replicate a.states.size (Array.replicate g.symbolCount 0)⟩
  let readables := (Array.range a.states.size).map (readable g a)
  let direct := moves.foldl (fun f (s, x) =>
    match a.move? s x with
    | some target => f.add s x (readables.getD target 0)
    | none => f) empty
  let start := (g.firstSymbol? 0).getD 0
  settle (handOns g a moves) (a.states.size + 2) (direct.add 0 start 1)

end Automaton

end CodeRisk.Grammar
