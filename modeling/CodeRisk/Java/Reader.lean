import CodeRisk.Grammar.Table
import CodeRisk.Java.Grammar
import CodeRisk.Java.Lexer
import CodeRisk.Java.Tree

/-!
# Reading Java text

`run` reads text from left to right along the moves of the parsing table; where the table leaves a
choice it follows each branch, and branches that meet again become one. The table only proposes: a
production is read backwards only if the symbols at hand are the symbols of the production, and the
text has been read only if the start phrase is all that is left. So every node has the shape of one
of the grammar's rules, whatever the table says.
-/
namespace CodeRisk.Java.Reader
open Grammar (Production Step Action)

/-- The productions of the grammar. They are many, and like the table they are not to be worked out
wherever one is looked up. -/
@[irreducible] def productions : Array (Production Terminal Phrase Field TokenKind) :=
  grammar.productions.toArray

/-- The parsing table of the grammar. -/
@[irreducible] def table : Grammar.Table Terminal Phrase :=
  .ofNumbered (.ofProductions grammar.start .ending grammar.productions)

/-- A symbol that has been read, with its trees and the comments behind it. -/
structure Frame where
  state : Nat
  symbol : Grammar.Symbol Terminal Phrase
  trees : List Tree
  comments : List Tree
  weight : Nat
  /-- The offset behind the symbol. -/
  stop : Nat
  /-- The row on which the symbol ends. -/
  row : Nat
  /-- The number of nodes in the trees. -/
  nodes : Nat

/-- A place in the text. -/
structure Place where
  rest : List Char
  offset : Nat
  row : Nat

namespace Place

/-- The place `n` characters further on. -/
def skip (p : Place) (n : Nat) : Place :=
  ⟨p.rest.drop n, p.offset + n, p.row + (p.rest.take n).count '\n'⟩

/-- The number of blank characters at a place. A byte order mark at the very beginning counts as
blank. -/
def blanks (p : Place) : Nat :=
  match p.offset, p.rest with
  | 0, '\uFEFF' :: rest => 1 + Lexer.run Lexer.isBlank rest
  | _, rest => Lexer.run Lexer.isBlank rest

end Place

/-- A token with the place behind it. -/
structure Token where
  terminal : Terminal
  lexeme : Lexeme
  after : Place

/-- The token of length `n` behind `blank` blank characters. -/
def Token.at (p : Place) (blank : Nat) (terminal : Terminal) (n : Nat) : Token :=
  let start := p.skip blank
  { terminal
    lexeme := ⟨String.ofList (p.rest.take blank), String.ofList (start.rest.take n), start.row, false⟩
    after := start.skip n }

/-- One way to read the text so far. `frames` holds the newest symbol first, `opening` the comments
before the first symbol, `endRow` the row on which the last token ends. -/
structure Thread where
  place : Place
  frames : List Frame
  opening : List Tree
  endRow : Nat

/-- The state on top of the frames. -/
def topState : List Frame → Nat
  | [] => 0
  | f :: _ => f.state

/-- The trees of a step's symbol, in the role and under the kind that the step gives them. -/
def dress (s : Step Terminal Phrase Field TokenKind) (trees : List Tree) : List Tree :=
  let trees := match s.shown with
    | some k => trees.map (Tree.shownAs k)
    | none => trees
  match s.label with
  | some f => trees.map (Tree.inRole f)
  | none => trees

/-- The children that the frames of a production give, the oldest frame first. Comments behind the
last frame stay outside. -/
def gather : List (Step Terminal Phrase Field TokenKind) → List Frame → List Tree
  | s :: ss, f :: fs => dress s f.trees ++ (if fs.isEmpty then [] else f.comments) ++ gather ss fs
  | _, _ => []

/-- The trees of a phrase: one node, or the parts themselves if the phrase yields no node. -/
def wrap : Phrase → List Tree → List Tree
  | .node k, parts => [.branch k none parts]
  | _, parts => parts

/-- The number of nodes that a phrase with these parts has. -/
def countNodes (phrase : Phrase) (parts : List Frame) : Nat :=
  (parts.map fun f => f.nodes + f.comments.length).foldr (· + ·) 0 +
    match phrase with
    | .node _ => 1
    | _ => 0

/-- Reads a production backwards, if its symbols are at hand. -/
def reduce? (p : Production Terminal Phrase Field TokenKind) (frames : List Frame) :
    Option (List Frame) :=
  let parts := (frames.take p.steps.length).reverse
  let below := frames.drop p.steps.length
  if parts.map (·.symbol) = p.steps.map (·.symbol) then
    (table.goto? (topState below) p.phrase).map fun state =>
      { state
        symbol := .phrase p.phrase
        trees := wrap p.phrase (gather p.steps parts)
        comments := (parts.getLast?.map (·.comments)).getD []
        weight := p.weight + (parts.map (·.weight)).foldr (· + ·) 0
        stop := (parts.getLast?.map (·.stop)).getD 0
        row := (parts.getLast?.map (·.row)).getD 0
        nodes := countNodes p.phrase parts } :: below
  else none

/-- The frame of a token that has just been read. -/
def shifted (state : Nat) (t : Token) : Frame where
  state
  symbol := .terminal t.terminal
  trees := [.leaf t.terminal.kind none t.lexeme]
  comments := []
  weight := 0
  stop := t.after.offset
  row := t.lexeme.endRow
  nodes := 1

/-- The frames after each way to read one of the tokens. In every state the first token that the
state knows is taken. -/
def advance : Nat → List Frame → List Token → List (List Frame × Token)
  | 0, _, _ => []
  | fuel + 1, frames, tokens =>
    let state := topState frames
    match tokens.find? fun t => !(table.actionsFor state t.terminal).isEmpty with
    | none => []
    | some t => (table.actionsFor state t.terminal).flatMap fun
      | .shift next =>
        [(shifted next t :: frames, t)]
      | .reduce 0 => [(frames, t)]
      | .reduce (p + 1) =>
        match productions[p]? >>= fun q => reduce? q frames with
        | some reduced => advance fuel reduced tokens
        | none => []

/-- The frames after each way to read one of the tokens, where a token that leads nowhere gives way
to those behind it. -/
def advanceAny (frames : List Frame) : List Token → List (List Frame × Token)
  | [] => []
  | t :: ts =>
    match advance (64 * frames.length + 256) frames (t :: ts) with
    | [] => advanceAny frames ts
    | results => results

/-- Puts a comment behind what has been read. -/
def Thread.addComment (th : Thread) (t : Tree) (after : Place) : Thread :=
  match th.frames with
  | [] => { th with opening := th.opening ++ [t], place := after }
  | f :: fs => { th with frames := { f with comments := f.comments ++ [t] } :: fs, place := after }

/-- What one step of a thread leads to. -/
inductive Outcome where
  /-- The thread goes on, possibly in several ways. -/
  | live (threads : List Thread)
  /-- The text has been read to its end. -/
  | done (threads : List Thread)
  /-- No token can follow. -/
  | stuck (at_ : Place)

/-- Whether the frames are one reading of the start phrase. -/
def Thread.isWhole (th : Thread) : Bool :=
  th.frames.map (·.symbol) == [.phrase grammar.start]

/-- Whether the text at hand is the inside of a string. -/
def insideString (state : Nat) : Bool :=
  !(table.actionsFor state .stringFragment).isEmpty ||
    !(table.actionsFor state .textFragment).isEmpty

/-- Reads one token or comment. -/
def Thread.step (th : Thread) : Outcome :=
  let within := insideString (topState th.frames)
  let blank := if within then 0 else th.place.blanks
  let start := th.place.skip blank
  match if within then none else Lexer.comment? start.rest with
  | some (k, n) =>
    let token := Token.at th.place blank .ending n
    .live [th.addComment (.leaf k none token.lexeme) token.after]
  | none =>
    let found := if within then Lexer.stringCandidates start.rest else Lexer.candidates start.rest
    let tokens := found.map fun (t, n) => Token.at th.place blank t n
    match advanceAny th.frames tokens with
    | [] => .stuck start
    | results =>
      let threads := results.map fun (frames, t) =>
        { th with frames, place := t.after, endRow := t.lexeme.endRow }
      if start.rest.isEmpty then .done (threads.filter Thread.isWhole) else .live threads

/-- How heavy the reading is. -/
def Thread.weight (th : Thread) : Nat :=
  (th.frames.map (·.weight)).foldr (· + ·) 0

/-- Whether two threads are at the same place in the same states. -/
def Thread.meets (a b : Thread) : Bool :=
  a.place.offset == b.place.offset && a.frames.map (·.state) == b.frames.map (·.state)

/-- Whether the first frames that differ in the number of their trees, seen from the bottom, have
fewer trees in the first list. -/
def fewerTrees (fs gs : List Frame) : Bool :=
  let sizes := (fs.reverse.zip gs.reverse).map fun (f, g) => (f.trees.length, g.trees.length)
  match sizes.find? fun (m, n) => m != n with
  | some (m, n) => m < n
  | none => false

/-- Whether a thread is taken rather than one that it meets: the heavier one is, and of equally heavy
ones the one that reads the text as fewer parts. -/
def Thread.better (a b : Thread) : Bool :=
  b.weight < a.weight || (a.weight == b.weight && fewerTrees a.frames b.frames)

/-- Adds a thread to those that wait, the one furthest behind first. Of two that meet the better one
stays. -/
def enqueue (th : Thread) : List Thread → List Thread
  | [] => [th]
  | other :: rest =>
    if th.meets other then
      (if th.better other then th else other) :: rest
    else if th.place.offset < other.place.offset then th :: other :: rest
    else other :: enqueue th rest

/-- A failed reading: the frames of the thread that came furthest and the place it could not pass. -/
structure Failure where
  thread : Thread
  place : Place

/-- The failure that came further; the earlier one if they came equally far. -/
def Failure.further (old : Option Failure) (new : Failure) : Failure :=
  match old with
  | none => new
  | some f => if f.place.offset < new.place.offset then new else f

/-- The best of some threads. -/
def best : List Thread → Option Thread
  | [] => none
  | th :: rest =>
    match best rest with
    | none => some th
    | some other => if other.better th then some other else some th

/-- Steps the threads until one has read the text or all are stuck. -/
def run : Nat → List Thread → Option Failure → Except (Option Failure) Thread
  | 0, _, failure => .error failure
  | _, [], failure => .error failure
  | fuel + 1, th :: rest, failure =>
    match th.step with
    | .live threads => run fuel (threads.foldl (fun queue t => enqueue t queue) rest) failure
    | .stuck place => run fuel rest (some (Failure.further failure ⟨th, place⟩))
    | .done threads =>
      match run fuel rest failure with
      | .ok other => .ok ((best (threads ++ [other])).getD other)
      | .error failure =>
        match best threads with
        | some th => .ok th
        | none => .error failure

/-- The trees that a thread has read. -/
def Thread.forest (th : Thread) : List Tree :=
  th.opening ++ th.frames.reverse.flatMap fun f => f.trees ++ f.comments

/-- The beginning of the text, with nothing read. -/
def start (source : String) : Thread :=
  { place := ⟨source.toList, 0, 0⟩, frames := [], opening := [], endRow := 0 }

/-- A bound on the number of steps. -/
def stepLimit (source : String) : Nat :=
  256 * (source.length + 16)

/-- Whether the text holds nothing but blank text and comments. -/
def isVoid : Nat → Thread → Option Thread
  | 0, _ => none
  | fuel + 1, th =>
    let blank := th.place.blanks
    let rest := (th.place.skip blank).rest
    match Lexer.comment? rest with
    | some (k, n) =>
      let token := Token.at th.place blank .ending n
      isVoid fuel (th.addComment (.leaf k none token.lexeme) token.after)
    | none => if rest.isEmpty then some th else none

end Reader

end CodeRisk.Java
