import CodeRisk.Java.Tree

/-!
# Cursors

A cursor stands on a node of a tree and moves to the first child, the next sibling or the parent. It
keeps what it needs for the way back, so no move looks at more than one node.

A tree can be so high that a recursion over it would run out of stack. So its depth is taken with a
cursor: the walk goes down as long as there are children, then on to the next sibling, and up where
there is none, counting the level on the way and keeping the deepest one (`Tree.depth`).
-/
namespace CodeRisk.Java

namespace Tree

mutual

/-- The number of nodes of a tree. -/
def size : Tree → Nat
  | leaf .. => 1
  | branch _ _ cs => 1 + forestSize cs

/-- The number of nodes of the trees of a list. -/
def forestSize : List Tree → Nat
  | [] => 0
  | t :: ts => t.size + forestSize ts

end

end Tree

/-- A node that lacks one child, which a cursor went down to. -/
structure OpenNode where
  kind : NodeKind
  field : Option Field
  /-- The children before the missing one, the nearest first. -/
  before : List Tree
  after : List Tree

/-- The node with the child put in. -/
def OpenNode.close (o : OpenNode) (child : Tree) : Tree :=
  .branch o.kind o.field (o.before.reverse ++ child :: o.after)

/-- A place in a tree: a node and the nodes above it, the parent first. -/
structure Cursor where
  node : Tree
  above : List OpenNode

namespace Cursor

/-- A cursor on the root of a tree. -/
def start (t : Tree) : Cursor := ⟨t, []⟩

/-- The number of edges between the root and the node. -/
def level (c : Cursor) : Nat := c.above.length

/-- The whole tree. -/
def root (c : Cursor) : Tree :=
  c.above.foldl (fun t o => o.close t) c.node

/-- The cursor on the first child. -/
def firstChild? : Cursor → Option Cursor
  | ⟨.branch k f (t :: ts), above⟩ => some ⟨t, ⟨k, f, [], ts⟩ :: above⟩
  | _ => none

/-- The cursor on the next sibling. -/
def nextSibling? : Cursor → Option Cursor
  | ⟨t, ⟨k, f, before, s :: after⟩ :: above⟩ => some ⟨s, ⟨k, f, t :: before, after⟩ :: above⟩
  | _ => none

/-- The cursor on the parent. -/
def parent? : Cursor → Option Cursor
  | ⟨t, o :: above⟩ => some ⟨o.close t, above⟩
  | ⟨_, []⟩ => none

end Cursor

/-! ## Depth -/

/-- How far a walk has come: where the cursor stands, on which level it takes itself to be, and
which level was the deepest so far. -/
structure DepthWalk where
  cursor : Cursor
  /-- Whether all nodes below the cursor have been seen already. -/
  seen : Bool
  depth : Nat
  deepest : Nat

namespace DepthWalk

/-- A walk that begins at the root. -/
def start (t : Tree) : DepthWalk := ⟨.start t, false, 0, 0⟩

/-- The next step, if the walk is not at its end. -/
def step (w : DepthWalk) : Option DepthWalk :=
  if w.seen then
    match w.cursor.nextSibling? with
    | some c => some { w with cursor := c, seen := false }
    | none => w.cursor.parent?.map fun c => { w with cursor := c, depth := w.depth - 1 }
  else
    match w.cursor.firstChild? with
    | some c =>
      some { w with cursor := c, depth := w.depth + 1, deepest := max w.deepest (w.depth + 1) }
    | none => some { w with seen := true }

/-- What a step does. -/
inductive Moves : DepthWalk → DepthWalk → Prop where
  /-- Down to the first child. -/
  | down {k : NodeKind} {f : Option Field} {c : Tree} {cs : List Tree} {above : List OpenNode}
      {d m : Nat} :
      Moves ⟨⟨.branch k f (c :: cs), above⟩, false, d, m⟩
        ⟨⟨c, ⟨k, f, [], cs⟩ :: above⟩, false, d + 1, max m (d + 1)⟩
  /-- Nothing is below, so the walk goes on behind the node. -/
  | turn {t : Tree} {above : List OpenNode} {d m : Nat} (ht : t.children = []) :
      Moves ⟨⟨t, above⟩, false, d, m⟩ ⟨⟨t, above⟩, true, d, m⟩
  /-- On to the next sibling. -/
  | next {k : NodeKind} {f : Option Field} {before after : List Tree} {t s : Tree}
      {above : List OpenNode} {d m : Nat} :
      Moves ⟨⟨t, ⟨k, f, before, s :: after⟩ :: above⟩, true, d, m⟩
        ⟨⟨s, ⟨k, f, t :: before, after⟩ :: above⟩, false, d, m⟩
  /-- Up to the parent, behind the last of its children. -/
  | up {k : NodeKind} {f : Option Field} {before : List Tree} {t : Tree} {above : List OpenNode}
      {d m : Nat} :
      Moves ⟨⟨t, ⟨k, f, before, []⟩ :: above⟩, true, d, m⟩
        ⟨⟨OpenNode.close ⟨k, f, before, []⟩ t, above⟩, true, d - 1, m⟩

theorem moves_of_step {w w' : DepthWalk} (h : w.step = some w') : w.Moves w' := by
  obtain ⟨⟨t, above⟩, seen, depth, deepest⟩ := w
  cases seen with
  | true =>
    rcases above with _ | ⟨⟨k, f, before, _ | ⟨s, after⟩⟩, above⟩
    · cases h
    · exact Option.some.inj h ▸ .up
    · exact Option.some.inj h ▸ .next
  | false =>
    rcases t with ⟨k, f, l⟩ | ⟨k, f, _ | ⟨c, cs⟩⟩
    · exact Option.some.inj h ▸ .turn rfl
    · exact Option.some.inj h ▸ .turn rfl
    · exact Option.some.inj h ▸ .down

/-- The number of steps left behind a node that these nodes stand above. -/
def stepsBehind : List OpenNode → Nat
  | [] => 0
  | o :: above => 2 * Tree.forestSize o.after + 1 + stepsBehind above

/-- The number of steps left, with a last one that finds nothing more. Every node is met twice: on
the way down and on the way up. -/
def remaining (w : DepthWalk) : Nat :=
  (if w.seen then 1 else 2 * w.cursor.node.size) + stepsBehind w.cursor.above

/-- **After a step, one step less is left.** -/
theorem remaining_of_moves {w w' : DepthWalk} (h : w.Moves w') :
    w.remaining = w'.remaining + 1 := by
  cases h with
  | @down k f c cs above =>
    show 2 * (1 + (c.size + Tree.forestSize cs)) + stepsBehind above =
      2 * c.size + (2 * Tree.forestSize cs + 1 + stepsBehind above) + 1
    omega
  | @turn t above d m ht =>
    have hsize : t.size = 1 := by
      rcases t with ⟨k, f, l⟩ | ⟨k, f, _ | ⟨c, cs⟩⟩
      · rfl
      · rfl
      · cases ht
    show 2 * t.size + stepsBehind above = 1 + stepsBehind above + 1
    omega
  | @next k f before after t s above =>
    show 1 + (2 * (s.size + Tree.forestSize after) + 1 + stepsBehind above) =
      2 * s.size + (2 * Tree.forestSize after + 1 + stepsBehind above) + 1
    omega
  | @up k f before t above =>
    show 1 + (2 * 0 + 1 + stepsBehind above) = 1 + stepsBehind above + 1
    omega

/-- The walk at its end. -/
def run (w : DepthWalk) : DepthWalk :=
  match _hstep : w.step with
  | none => w
  | some w' => w'.run
termination_by w.remaining
decreasing_by
  have hremaining := remaining_of_moves (moves_of_step _hstep)
  omega

end DepthWalk

/-- The deepest level of a tree. -/
def Tree.depth (t : Tree) : Nat :=
  (DepthWalk.start t).run.deepest

end CodeRisk.Java
