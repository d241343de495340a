import CodeRisk.Java.Reader

/-!
# Trees of faulty text

Text that is not Java still has a tree, in which the faults are marked. When no thread can go on,
reading is repaired in one of three ways: a semicolon is put in; what was read last is set aside, back
to a place where the next token fits; or tokens are skipped. What is set aside or skipped
becomes a node of kind `error`. Each repair has a cost. All repairs are tried side by side, and an
attempt is given up when another one is better by a margin that shrinks with every token read.
-/
namespace CodeRisk.Java.Repair
open Reader

/-! ## Costs -/

/-- The cost of a repair of any kind. -/
def repairCost : Nat := 500

/-- What a token that is put in costs besides. -/
def missingCost : Nat := 110

/-- What each tree in an error costs besides. -/
def treeCost : Nat := 100

/-- What each row in an error costs besides. -/
def rowCost : Nat := 30

/-- How much worse an attempt may be, times the tokens that the better one has read. -/
def margin : Nat := 1800

/-- The most attempts that are kept. -/
def mostAttempts : Nat := 6

/-- Whether a tree is of no account in an error: comments, and errors, which have had their cost. -/
def isFree (t : Tree) : Bool :=
  t.isComment || t.isNode .error

/-- The cost of an error that holds these trees. -/
def errorCost (trees : List Tree) : Nat :=
  let text := Lexeme.join (Tree.forestLeaves trees)
  repairCost + text.utf8ByteSize + rowCost * Lexeme.breaks text +
    treeCost * trees.countP fun t => !isFree t

/-! ## Attempts -/

/-- How an attempt stands. -/
inductive Standing where
  | reading
  /-- No token can follow at this place. -/
  | stuck (place : Place)
  /-- Tokens are skipped. The ways to see what was read before are kept. -/
  | lost (bases : List (List Frame)) (skipped : List Tree)

/-- One way to repair the text so far. -/
structure Attempt where
  thread : Thread
  standing : Standing
  /-- The cost of all errors in what was read. -/
  cost : Nat
  /-- The number of nodes that had been read at the last fault. -/
  mark : Nat

namespace Attempt

/-- The number of nodes in some trees that stand outside frames. -/
def looseNodes (trees : List Tree) : Nat :=
  trees.length + (trees.map fun t => t.children.length).foldr (· + ·) 0

/-- The number of nodes that have been read. -/
def nodes (a : Attempt) : Nat :=
  looseNodes a.thread.opening +
    (a.thread.frames.map fun f => f.nodes + looseNodes f.comments).foldr (· + ·) 0 +
    match a.standing with
    | .lost _ [] => 0
    | .lost _ skipped => skipped.length + 1
    | _ => 0

/-- The number of nodes that have been read since the last fault. -/
def progress (a : Attempt) : Nat := a.nodes - a.mark

/-- The attempt with its mark kept within what has been read. -/
def remark (a : Attempt) : Attempt :=
  { a with mark := min a.mark a.nodes }

/-- The offset up to which the text was taken. -/
def offset (a : Attempt) : Nat := a.thread.place.offset

/-- The cost with that of the fault at hand. -/
def total (a : Attempt) : Nat :=
  match a.standing with
  | .reading => a.cost
  | .stuck _ => a.cost + repairCost + treeCost
  | .lost _ [] => a.cost + repairCost
  | .lost _ skipped => a.cost + errorCost skipped

/-- Whether the attempt is not reading. -/
def inFault (a : Attempt) : Bool :=
  match a.standing with
  | .reading => false
  | _ => true

/-- Whether no token can follow. -/
def isStuck (a : Attempt) : Bool :=
  match a.standing with
  | .stuck _ => true
  | _ => false

end Attempt

/-- How two attempts compare. -/
inductive Verdict where
  | takeLeft
  | preferLeft
  | neither
  | preferRight
  | takeRight
  deriving DecidableEq

/-- Compares an attempt of a cost with another one. -/
def compare (costA : Nat) (faultA : Bool) (progressA : Nat) (b : Attempt) : Verdict :=
  let costB := b.total
  if !faultA && b.inFault then if costA < costB then .takeLeft else .preferLeft
  else if faultA && !b.inFault then if costB < costA then .takeRight else .preferRight
  else if costA < costB then
    if margin < (costB - costA) * (1 + progressA) then .takeLeft else .preferLeft
  else if costB < costA then
    if margin < (costA - costB) * (1 + b.progress) then .takeRight else .preferRight
  else .neither

/-- Whether two attempts have come to the same. -/
def meets (a b : Attempt) : Bool :=
  !a.inFault && !b.inFault && a.cost == b.cost && a.thread.meets b.thread

/-- Whether some attempt that has come as far is clearly better than one of this cost would be. -/
def isOutdone (others : List Attempt) (a : Attempt) (cost : Nat) : Bool :=
  others.any fun b => !b.isStuck && a.offset ≤ b.offset &&
    compare cost false a.progress b == .takeRight

/-- Puts an attempt among others, the more promising ones first, and drops those that are clearly
worse. -/
def enter (a : Attempt) : List Attempt → List Attempt
  | [] => [a]
  | b :: rest =>
    match compare b.total b.inFault b.progress a with
    | .takeLeft => b :: rest
    | .preferLeft | .neither => if meets a b then b :: rest else b :: enter a rest
    | .preferRight => if meets a b then b :: rest else a :: enter b rest
    | .takeRight => enter a rest

/-! ## Repairs -/

/-- The productions that can be read backwards in a state, whatever comes next. -/
def reductions (state : Nat) : List Nat :=
  ((table.actions.getD state #[]).toList.flatMap fun actions => actions.filterMap fun
    | .reduce (p + 1) => some p
    | _ => none).eraseDups

/-- Whether some token can be taken in a state. -/
def takesToken (state : Nat) : Bool :=
  (table.actions.getD state #[]).any fun actions => actions.any fun
    | .shift _ => true
    | .reduce _ => false

/-- Whether frames of the same height with the same state on top are in a list. -/
def isKnown (known : List (List Frame)) (frames : List Frame) : Bool :=
  known.any fun k => k.length == frames.length && topState k == topState frames

/-- The ways to see what has been read, where productions may be read backwards whatever comes
next. -/
def views : Nat → List (List Frame) → List (List Frame) → List (List Frame)
  | 0, _, known => known.reverse
  | _, [], known => known.reverse
  | fuel + 1, frames :: waiting, known =>
    if isKnown known frames then views fuel waiting known
    else
      let reduced := (reductions (topState frames)).filterMap fun p =>
        productions[p]? >>= fun q => reduce? q frames
      views fuel (waiting ++ reduced) (frames :: known)

/-- The views in which some token can be taken. -/
def bases (frames : List Frame) : List (List Frame) :=
  match (views 256 [frames] []).filter fun b => takesToken (topState b) with
  | [] => [frames]
  | bs => bs

/-- The token at a place where no token fits; a word is taken as a name. -/
def unfit? (p : Place) : Option Token :=
  let found := Lexer.candidates p.rest
  (found.find? (·.1 == Terminal.identifier) <|> found.head?).map fun (t, n) => Token.at p 0 t n

/-- The token that may be put in. -/
def stopper : Terminal := .fixed ";"

/-- The frames with a semicolon put in before the text at `p`, if the text can follow it. `here` and
`row` are where the semicolon would stand. -/
def insert? (p here : Place) (row : Nat) (frames : List Frame) : Option (List Frame) :=
  let next := (Lexer.candidates p.rest).map fun (t, n) => Token.at p 0 t n
  let token : Token := { terminal := stopper, lexeme := ⟨"", "", row, true⟩, after := here }
  (table.actionsFor (topState frames) stopper).findSome? fun
    | .shift state =>
      let longer := shifted state token :: frames
      let ends := next.any fun n => (table.actionsFor state n.terminal).any fun
        | .reduce _ => !(advanceAny longer [n]).isEmpty
        | .shift _ => false
      if ends then some longer else none
    | .reduce _ => none

/-- The attempt that puts in a semicolon. -/
def withStopper? (a : Attempt) (p : Place) (bs : List (List Frame)) : Option Attempt :=
  (bs.findSome? (insert? p a.thread.place a.thread.endRow)).map fun frames =>
    { a with thread := { a.thread with frames }
             standing := .reading
             cost := a.cost + repairCost + missingCost }

/-- Takes an error from the end of some trees, with its contents. -/
def splitError (trees : List Tree) : List Tree × List Tree :=
  match trees.reverse with
  | .branch .error _ inner :: before => (before.reverse, inner)
  | _ => (trees, [])

/-- Splits trees before the comments at their end. -/
def splitComments (trees : List Tree) : List Tree × List Tree :=
  let n := (trees.reverse.takeWhile Tree.isComment).length
  (trees.take (trees.length - n), trees.drop (trees.length - n))

/-- The thread and cost of an attempt that sets aside `depth` frames and what was skipped. -/
def setAside (a : Attempt) (base : List Frame) (skipped : List Tree) (depth : Nat) : Attempt :=
  let popped := (base.take depth).reverse.flatMap fun f => f.trees ++ f.comments
  let below := base.drop depth
  let before := match below with
    | [] => a.thread.opening
    | f :: _ => f.comments
  let (before, joined) := splitError before
  let (inner, after) := splitComments (joined ++ popped ++ skipped)
  let spared := if joined.isEmpty then 0 else errorCost joined
  let comments := before ++ [.branch .error none inner] ++ after
  let thread := match below with
    | [] => { a.thread with frames := [], opening := comments }
    | f :: fs => { a.thread with frames := { f with comments } :: fs }
  { a with thread, standing := .reading, cost := a.cost + errorCost inner - spared : Attempt }.remark

/-- How many frames are set aside at most. -/
def deepest : Nat := 31

/-- The frames to which an attempt may go back, with the number of frames that are set aside, the
fewest first. Each state of equal depth counts once. -/
def retreats (bs : List (List Frame)) (first : Nat) : List (Nat × List Frame) :=
  (List.range (deepest + 1 - first)).flatMap fun i =>
    let depth := first + i
    let known := bs.filter fun b => depth ≤ b.length
    let (_, found) := known.foldl (fun (seen, found) b =>
      let state := topState (b.drop depth)
      if seen.contains state then (seen, found) else (state :: seen, (depth, b) :: found))
      (([] : List Nat), [])
    found.reverse

/-- What going back costs at least. -/
def retreatCost (a : Attempt) (skipped : List Tree) (depth : Nat) (below : List Frame) : Nat :=
  let (stop, row) := match below with
    | [] => (0, 0)
    | f :: _ => (f.stop, f.row)
  a.total + treeCost * (depth + if skipped.isEmpty then 1 else 2) + (a.offset - stop) +
    rowCost * (a.thread.endRow - row)

/-- Goes back to the first frames on which a token fits, unless that would be clearly worse than
another attempt. -/
def retreat? (others : List Attempt) (a : Attempt) (skipped : List Tree) (token : Token) :
    List (Nat × List Frame) → Option Attempt
  | [] => none
  | (depth, base) :: rest =>
    let below := base.drop depth
    if others.any fun o =>
        !o.inFault && o.offset == a.offset && topState o.thread.frames == topState below then
      retreat? others a skipped token rest
    else if isOutdone others a (retreatCost a skipped depth below) then none
    else if (table.actionsFor (topState below) token.terminal).isEmpty then
      retreat? others a skipped token rest
    else some (setAside a base skipped depth)

/-- Goes back from skipping. -/
def goBack (others : List Attempt) (a : Attempt) (bs : List (List Frame)) (trees : List Tree)
    (token : Token) : List Attempt :=
  (retreat? others a trees token (retreats bs (if trees.isEmpty then 1 else 0))).toList

/-- Skips a token. -/
def skipped (a : Attempt) (bs : List (List Frame)) (trees : List Tree) (t : Tree) (after : Place)
    (row : Nat) : Attempt :=
  { a with thread := { a.thread with place := after, endRow := row }
           standing := .lost bs (trees ++ [t]) }

/-- What comes of an attempt that skips tokens when it meets one more: it goes on skipping, or goes
back to where the token fits, or both. -/
def meet (others : List Attempt) (a : Attempt) (bs : List (List Frame)) (trees : List Tree)
    (token : Token) : List Attempt :=
  let back := goBack others a bs trees token
  let cost := a.total + treeCost + token.lexeme.written.utf8ByteSize +
    rowCost * Lexeme.breaks token.lexeme.written
  if (!back.isEmpty && mostAttempts ≤ others.length + 1) || isOutdone others a cost then back
  else
    skipped a bs trees (.leaf token.terminal.kind none token.lexeme) token.after
      token.lexeme.endRow :: back

/-- The number of characters, at least one, with which no token begins. -/
def strayLength : List Char → Nat
  | [] => 0
  | _ :: cs => 1 + rest cs
where
  /-- The number of further characters with which no token begins. -/
  rest : List Char → Nat
    | [] => 0
    | c :: cs =>
      if Lexer.isBlank c || !(Lexer.candidates (c :: cs)).isEmpty ||
          (Lexer.comment? (c :: cs)).isSome then 0
      else 1 + rest cs

/-- Skips text with which no token begins. -/
def skipStray (others : List Attempt) (a : Attempt) (bs : List (List Frame)) (trees : List Tree)
    (p : Place) (blank : Nat) : List Attempt :=
  let token := Token.at p blank .ending (strayLength (p.skip blank).rest)
  let tree : Tree := .branch .error none [.leaf .fixed none token.lexeme]
  if isOutdone others a (a.total + treeCost) then []
  else [skipped a bs trees tree token.after token.lexeme.endRow]

/-- Begins to repair an attempt that is stuck. -/
def repair (others : List Attempt) (a : Attempt) (p : Place) : List Attempt :=
  let bs := bases a.thread.frames
  let blank := p.offset - a.offset
  let lost := { a with standing := .lost bs [], mark := a.nodes }
  let missing := (withStopper? a p bs).toList
  let others := others ++ missing
  let tried := match unfit? p with
    | none => skipStray others lost bs [] a.thread.place blank
    | some t =>
      if p.rest.isEmpty then [lost]
      else
        let token := Token.at a.thread.place blank t.terminal (t.after.offset - p.offset)
        meet others lost bs [] token
  tried ++ missing

/-- A tree of the whole text with its cost. -/
structure Result where
  tree : Tree
  cost : Nat

/-- What one step of an attempt leads to. -/
structure Outcome where
  live : List Attempt := []
  done : List Result := []

/-- One step of an attempt that skips tokens. -/
def stepLost (others : List Attempt) (a : Attempt) (bs : List (List Frame)) (trees : List Tree) :
    Outcome :=
  let place := a.thread.place
  let blank := place.blanks
  let start := place.skip blank
  match Lexer.comment? start.rest with
  | some (k, n) =>
    let token := Token.at place blank .ending n
    { live := [{ a with thread := { a.thread with place := token.after }
                        standing := .lost bs (trees ++ [.leaf k none token.lexeme]) }] }
  | none =>
    match (Lexer.candidates start.rest).head? with
    | none => { live := skipStray others a bs trees place blank }
    | some (t, n) =>
      let token := Token.at place blank t n
      if start.rest.isEmpty then
        let all := { a.thread with frames := bs.headD [] : Thread }.forest ++ trees
        { live := goBack others a bs trees token
          done := [⟨.branch .error none all, a.cost + errorCost all⟩] }
      else { live := meet others a bs trees token }

/-- One step of an attempt. -/
def step (others : List Attempt) (a : Attempt) : Outcome :=
  match a.standing with
  | .stuck _ => { live := [a] }
  | .lost bs trees => stepLost others a bs trees
  | .reading =>
    match a.thread.step with
    | .live threads =>
      { live := threads.map fun thread => { a with thread } }
    | .stuck place => { live := [{ a with standing := .stuck place }] }
    | .done threads => { done := threads.map fun t => ⟨.branch .program none t.forest, a.cost⟩ }

/-- The cheaper of two results, the first of equally cheap ones. -/
def cheaper (old : Option Result) (new : Result) : Option Result :=
  match old with
  | none => some new
  | some r => if new.cost < r.cost then some new else some r

/-- Steps each of some attempts until it has come further than the ones before it. -/
def round : Nat → Nat → List Attempt → List Attempt → Option Result →
    List Attempt × Option Result
  | 0, _, ready, waiting, found => (ready.reverse ++ waiting, found)
  | _, _, ready, [], found => (ready.reverse, found)
  | fuel + 1, last, ready, a :: waiting, found =>
    if a.isStuck then round fuel last (a :: ready) waiting found
    else
      let outcome := step (ready.reverse ++ waiting) a
      let found := outcome.done.foldl cheaper found
      match outcome.live with
      | [] => round fuel last ready waiting found
      | b :: more =>
        if last < b.offset || (!ready.isEmpty && last == b.offset) then
          round fuel b.offset (b :: ready) (waiting ++ more) found
        else round fuel last ready (b :: waiting ++ more) found

/-- Puts attempts in order, drops the worse ones and those too many. -/
def sift (attempts : List Attempt) : List Attempt :=
  (attempts.foldl (fun kept a => enter a kept) []).take (2 * mostAttempts)

/-- If the most promising attempt is stuck it is repaired; the others that are stuck are dropped. -/
def resume (attempts : List Attempt) : List Attempt :=
  match attempts with
  | [] => []
  | a :: rest =>
    let rest := rest.filter fun b => !b.isStuck
    match a.standing with
    | .stuck place =>
      match repair rest a place with
      | [] => rest
      | b :: more => b :: rest ++ more
    | _ => a :: rest

/-- The least cost of the attempts that are reading or will be read on. -/
def leastCost (attempts : List Attempt) : Option Nat :=
  let reading := (attempts.filter fun a => !a.inFault).map (·.total)
  let resumed := match attempts.head? with
    | some a => if a.isStuck then [a.cost + repairCost] else []
    | none => []
  (reading ++ resumed).min?

/-- Repairs until a tree has been found that no attempt can better. -/
def search : Nat → Nat → List Attempt → Option Result → Option Result
  | 0, _, _, found => found
  | _, _, [], found => found
  | fuel + 1, last, attempts, found =>
    let (after, found) := round 64 last [] attempts found
    let after := sift after
    let last := (after.map Attempt.offset).foldl max last
    let settled := match found, leastCost after with
      | none, _ => false
      | some _, none => true
      | some r, some least => r.cost < least
    if settled then found else search fuel last (resume after) found

/-- The first attempt after a failure. -/
def start (f : Failure) : Attempt where
  thread := f.thread
  standing := .stuck f.place
  cost := 0
  mark := 0

/-- The tree of a text that could not be read. -/
def tree (f : Failure) (limit : Nat) : Tree :=
  match search limit f.thread.place.offset (resume [start f]) none with
  | some r => r.tree
  | none => .branch .error none f.thread.forest

end Repair

/-- The syntax tree of a text. Text that is not Java yields a tree with an error in it. -/
def read (source : String) : Tree :=
  let start := Reader.start source
  match Reader.isVoid (source.length + 1) start with
  | some th => .branch .program none th.forest
  | none =>
    match Reader.run (Reader.stepLimit source) [start] none with
    | .ok th => .branch .program none th.forest
    | .error (some f) => Repair.tree f (Reader.stepLimit source)
    | .error none => .branch .error none []

end CodeRisk.Java
