import Std.Data.HashMap
import CodeRisk.Grammar.Rule

/-!
# Numbered grammars

Table construction works on numbers. Terminals come first, phrases after them; production `0` is the
added production that wraps the start phrase. The sets of terminals are bit sets.
-/
namespace CodeRisk.Grammar

variable {T N F K : Type} [BEq T] [Hashable T] [BEq N] [Hashable N]

/-- A set of terminal numbers, as the bits of a natural number. -/
abbrev TerminalSet := Nat

/-- A production over symbol numbers. -/
structure NumberedProduction where
  phrase : Nat
  symbols : Array Nat
  bindings : Array Binding

/-- A grammar over symbol numbers. -/
structure Numbered (T N : Type) [BEq T] [Hashable T] [BEq N] [Hashable N] where
  terminals : Array T
  phrases : Array N
  terminalNumber : Std.HashMap T Nat
  phraseNumber : Std.HashMap N Nat
  /-- Production `p + 1` here is production `p` of the grammar. -/
  productions : Array NumberedProduction
  /-- The productions of each phrase, by the phrase's place among the phrases. -/
  productionsOf : Array (List Nat)

namespace Numbered

/-- The distinct elements of a list in order of first occurrence, with their places. -/
def index {α : Type} [BEq α] [Hashable α] (xs : List α) : Array α × Std.HashMap α Nat :=
  xs.foldl (fun (seen, places) x =>
    if places.contains x then (seen, places) else (seen.push x, places.insert x seen.size))
    (#[], {})

/-- The terminals of a list of productions, the end marker first. -/
def terminalsOf (ending : T) (ps : List (Production T N F K)) : List T :=
  ending :: ps.flatMap fun p => p.steps.filterMap fun s =>
    match s.symbol with
    | .terminal t => some t
    | .phrase _ => none

/-- Numbers a grammar whose input ends with the terminal `ending`. -/
def ofProductions (start : N) (ending : T) (ps : List (Production T N F K)) : Numbered T N :=
  let (terminals, terminalNumber) := index (terminalsOf ending ps)
  let (phrases, phraseNumber) := index (ps.map (·.phrase))
  let number (s : Symbol T N) : Nat :=
    match s with
    | .terminal t => terminalNumber.getD t 0
    | .phrase n => terminals.size + phraseNumber.getD n 0
  let numbered := ps.map fun p =>
    { phrase := phraseNumber.getD p.phrase 0
      symbols := (p.steps.map fun s => number s.symbol).toArray
      bindings := (p.steps.map (·.binding)).toArray : NumberedProduction }
  let wrapper : NumberedProduction :=
    ⟨phrases.size, #[number (.phrase start)], #[{}]⟩
  let productions := (wrapper :: numbered).toArray
  let productionsOf := productions.toList.zipIdx.foldl
    (fun table (p, i) => table.modify p.phrase (i :: ·))
    (Array.replicate (phrases.size + 1) [])
  ⟨terminals, phrases, terminalNumber, phraseNumber, productions,
    productionsOf.map List.reverse⟩

/-- The number of symbols. -/
def symbolCount (g : Numbered T N) : Nat :=
  g.terminals.size + g.phrases.size

/-- Whether a symbol number stands for a terminal. -/
def isTerminal (g : Numbered T N) (x : Nat) : Bool :=
  x < g.terminals.size

/-- The productions of the phrase with symbol number `x`. -/
def productionsAt (g : Numbered T N) (x : Nat) : List Nat :=
  g.productionsOf.getD (x - g.terminals.size) []

/-- The first symbol of a production. -/
def firstSymbol? (g : Numbered T N) (p : Nat) : Option Nat :=
  g.productions[p]? >>= fun q => q.symbols[0]?

/-- Adds to `seen` all phrases that can begin the phrases still to be visited. -/
def reach (g : Numbered T N) : Nat → List Nat → Array Bool → List Nat → List Nat
  | 0, _, _, found => found
  | _, [], _, found => found
  | fuel + 1, x :: rest, seen, found =>
    if g.isTerminal x || seen.getD x true then g.reach fuel rest seen found
    else
      let next := (g.productionsAt x).filterMap g.firstSymbol?
      g.reach fuel (next ++ rest) (seen.setIfInBounds x true) (x :: found)

/-- For each symbol the phrases that can stand at its very beginning, itself included if it is a
phrase. -/
def openings (g : Numbered T N) : Array (List Nat) :=
  (Array.range g.symbolCount).map fun x =>
    g.reach (2 * g.productions.size + g.symbolCount + 2) [x] (Array.replicate g.symbolCount false) []

/-- For each symbol the terminals that can begin it. No phrase of a numbered grammar is empty. -/
def firsts (g : Numbered T N) (openings : Array (List Nat)) : Array TerminalSet :=
  (Array.range g.symbolCount).map fun x =>
    if g.isTerminal x then 1 <<< x
    else (openings.getD x []).foldl (fun set y =>
      (g.productionsAt y).foldl (fun set p =>
        match g.firstSymbol? p with
        | some s => if g.isTerminal s then set ||| (1 <<< s) else set
        | none => set) set) 0

end Numbered

end CodeRisk.Grammar
