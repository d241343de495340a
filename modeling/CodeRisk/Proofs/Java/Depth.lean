import CodeRisk.Java.Cursor
import CodeRisk.Proofs.Java.Conform

/-!
# The depth of a tree

The depth of a tree is taken by a walk with a cursor, which is a loop over a place in the tree and
two counters. The walk takes every node twice, so it ends (`DepthWalk.isSome_after`), and some facts
hold on the way (`DepthWalk.Tracks`): the cursor stands in the tree, its level is counted rightly,
and the deepest level so far, together with what is still ahead, is as deep as the tree is high. At
the end nothing is ahead, so the depth is the height (`Tree.depth_eq`).
-/
namespace CodeRisk.Java

/-! ## Heights -/

namespace Tree

theorem forestHeight_cons (t : Tree) (ts : List Tree) :
    forestHeight (t :: ts) = max (t.height + 1) (forestHeight ts) := rfl

theorem height_lt_forestHeight {t : Tree} {ts : List Tree} (h : t ∈ ts) :
    t.height < forestHeight ts := by
  induction ts with
  | nil => cases h
  | cons u us ih =>
    rw [forestHeight_cons]
    rcases List.mem_cons.mp h with rfl | h
    · omega
    · have htail := ih h
      omega

theorem height_lt_of_mem_children {c t : Tree} (h : c ∈ t.children) : c.height < t.height := by
  cases t with
  | leaf k f l => cases h
  | branch k f cs => exact height_lt_forestHeight h

theorem height_le_of_mem_nodes {n : Tree} (t : Tree) (h : n ∈ t.nodes) : n.height ≤ t.height := by
  cases t with
  | leaf k f l => exact Nat.le_of_eq (congrArg height (List.mem_singleton.mp h))
  | branch k f cs =>
    rw [nodes_branch] at h
    rcases List.mem_cons.mp h with rfl | h
    · exact Nat.le_refl _
    · obtain ⟨c, hc, hn⟩ := List.mem_flatMap.mp h
      have hchild : c.height < (branch k f cs).height := height_lt_of_mem_children hc
      have hbelow := height_le_of_mem_nodes c hn
      omega

theorem height_of_children_eq_nil {t : Tree} (h : t.children = []) : t.height = 0 := by
  cases t with
  | leaf => rfl
  | branch k f cs =>
    obtain rfl : cs = [] := h
    rfl

/-- The height of a node with children is one more than that of the highest of them. -/
theorem height_eq_succ {t : Tree} (h : t.children ≠ []) :
    t.height = 1 + (t.children.map height).foldr max 0 := by
  have hforest (c : Tree) (cs : List Tree) :
      forestHeight (c :: cs) = 1 + ((c :: cs).map height).foldr max 0 := by
    induction cs generalizing c with
    | nil =>
      show max (c.height + 1) 0 = 1 + max c.height 0
      omega
    | cons d ds ih =>
      show max (c.height + 1) (forestHeight (d :: ds)) =
        1 + max c.height (((d :: ds).map height).foldr max 0)
      rw [ih d]
      omega
  cases t with
  | leaf => exact absurd rfl h
  | branch k f cs =>
    cases cs with
    | nil => exact absurd rfl h
    | cons c cs => exact hforest c cs

/-- A path of `n` edges leads down from the tree to the node. -/
inductive HasBelow (t : Tree) : Nat → Tree → Prop where
  | self : HasBelow t 0 t
  | child {n : Nat} {s c : Tree} (hs : HasBelow t n s) (hc : c ∈ s.children) : HasBelow t (n + 1) c

namespace HasBelow
variable {t s c : Tree} {n m : Nat}

theorem trans (hs : t.HasBelow n s) (hc : s.HasBelow m c) : t.HasBelow (n + m) c := by
  induction hc with
  | self => exact hs
  | child _ hmem ih => exact .child ih hmem

/-- On the way down the height is used up. -/
theorem add_height_le (h : t.HasBelow n s) : n + s.height ≤ t.height := by
  induction h with
  | self => exact Nat.le_of_eq (Nat.zero_add _)
  | child _ hc ih =>
    have hheight := height_lt_of_mem_children hc
    omega

end HasBelow

theorem exists_mem_forestHeight {cs : List Tree} (h : cs ≠ []) :
    ∃ c ∈ cs, forestHeight cs = c.height + 1 := by
  induction cs with
  | nil => exact absurd rfl h
  | cons c cs ih =>
    by_cases hle : forestHeight cs ≤ c.height + 1
    · exact ⟨c, List.mem_cons_self .., Nat.max_eq_left hle⟩
    · have hne : cs ≠ [] := by
        rintro rfl
        exact hle (Nat.zero_le _)
      obtain ⟨d, hd, heq⟩ := ih hne
      refine ⟨d, List.mem_cons_of_mem c hd, ?_⟩
      rw [forestHeight_cons]
      omega

/-- A longest path from a node to a leaf has as many edges as the node is high. -/
theorem exists_hasBelow_height (t : Tree) : ∃ l, t.HasBelow t.height l ∧ l.children = [] := by
  cases t with
  | leaf k f l => exact ⟨leaf k f l, .self, rfl⟩
  | branch k f cs =>
    by_cases hcs : cs = []
    · subst hcs
      exact ⟨branch k f [], .self, rfl⟩
    · obtain ⟨c, hc, hheight⟩ := exists_mem_forestHeight hcs
      obtain ⟨l, hl, hleaf⟩ := exists_hasBelow_height c
      have hchild : (branch k f cs).HasBelow (0 + 1) c := .child .self hc
      refine ⟨l, ?_, hleaf⟩
      show (branch k f cs).HasBelow (forestHeight cs) l
      rw [hheight, Nat.add_comm]
      exact hchild.trans hl

mutual

theorem size_eq_length_nodes : (t : Tree) → t.size = t.nodes.length
  | leaf .. => rfl
  | branch k f cs => by
    rw [size, nodes, List.length_cons, forestSize_eq_length cs, Nat.add_comm]

theorem forestSize_eq_length : (ts : List Tree) → forestSize ts = (forestNodes ts).length
  | [] => rfl
  | t :: ts => by
    rw [forestSize, forestNodes, List.length_append, size_eq_length_nodes t,
      forestSize_eq_length ts]

end

end Tree

/-! ## Places in a tree -/

/-- A node is the same, whichever of two neighbours it lacks. -/
theorem OpenNode.close_next (k : NodeKind) (f : Option Field) (before after : List Tree)
    (t s : Tree) :
    OpenNode.close ⟨k, f, t :: before, after⟩ s = OpenNode.close ⟨k, f, before, s :: after⟩ t := by
  simp only [close, List.reverse_cons, List.append_assoc, List.singleton_append]

namespace Cursor

/-- The moves of a cursor are those in an ordered tree: down to the first of the children, across to
the next child of the same parent, and up to the node that has this one among its children. A move
that cannot be made would lead out of the tree. -/
structure MovesInOrder (c : Cursor) : Prop where
  down : ∀ c', c.firstChild? = some c' →
    c.node.children.head? = some c'.node ∧ c'.parent? = some c
  across : ∀ c', c.nextSibling? = some c' → ∃ p before after, c.parent? = some p ∧
    c'.parent? = some p ∧ p.node.children = before ++ c.node :: c'.node :: after
  up : ∀ p, c.parent? = some p →
    c.node ∈ p.node.children ∧ p.root = c.root ∧ p.level + 1 = c.level
  childless : c.firstChild? = none → c.node.children = []
  lastborn : c.nextSibling? = none → ∀ p, c.parent? = some p →
    p.node.children.getLast? = some c.node
  topmost : c.parent? = none → c = start c.root

theorem movesInOrder (c : Cursor) : c.MovesInOrder where
  down := by
    intro c' hc'
    rcases c with ⟨⟨k, f, l⟩ | ⟨k, f, _ | ⟨t, ts⟩⟩, above⟩
    · cases hc'
    · cases hc'
    · obtain rfl := Option.some.inj hc'
      exact ⟨rfl, rfl⟩
  across := by
    intro c' hc'
    rcases c with ⟨t, _ | ⟨⟨k, f, before, _ | ⟨s, after⟩⟩, above⟩⟩
    · cases hc'
    · cases hc'
    · obtain rfl := Option.some.inj hc'
      refine ⟨_, before.reverse, after, rfl, ?_, rfl⟩
      rw [← OpenNode.close_next]
      rfl
  up := by
    intro p hp
    rcases c with ⟨t, _ | ⟨o, above⟩⟩
    · cases hp
    · obtain rfl := Option.some.inj hp
      exact ⟨List.mem_append_right _ (List.mem_cons_self ..), rfl, rfl⟩
  childless := by
    intro hnone
    rcases c with ⟨⟨k, f, l⟩ | ⟨k, f, _ | ⟨t, ts⟩⟩, above⟩
    · rfl
    · rfl
    · cases hnone
  lastborn := by
    intro hnone p hp
    rcases c with ⟨t, _ | ⟨⟨k, f, before, _ | ⟨s, after⟩⟩, above⟩⟩
    · cases hp
    · obtain rfl := Option.some.inj hp
      exact List.getLast?_concat
    · cases hnone
  topmost := by
    intro hnone
    rcases c with ⟨t, _ | ⟨o, above⟩⟩
    · rfl
    · cases hnone

end Cursor

/-- The node under a cursor lies as far below the root as the cursor counts. -/
theorem Cursor.hasBelow (c : Cursor) : c.root.HasBelow c.level c.node := by
  obtain ⟨t, above⟩ := c
  induction above generalizing t with
  | nil => exact .self
  | cons o above ih =>
    have hchild : t ∈ (o.close t).children :=
      List.mem_append_right _ (List.mem_cons_self ..)
    exact .child (ih (o.close t)) hchild

/-! ## Steps -/

namespace DepthWalk
variable {w w' : DepthWalk} {t : Tree}

/-- The deepest level among the later siblings of a node and of the nodes above it. -/
def levelBehind : List OpenNode → Nat
  | [] => 0
  | o :: above => max (above.length + Tree.forestHeight o.after) (levelBehind above)

/-- The deepest level that has been seen or is still ahead. -/
def outlook (w : DepthWalk) : Nat :=
  max w.deepest
    (max (if w.seen then 0 else w.cursor.level + w.cursor.node.height)
      (levelBehind w.cursor.above))

/-- What holds in all of a walk over the tree `t`. -/
structure Tracks (t : Tree) (w : DepthWalk) : Prop where
  root : w.cursor.root = t
  depth : w.depth = w.cursor.level
  le_deepest : w.depth ≤ w.deepest
  outlook : w.outlook = t.height

theorem tracks_start (t : Tree) : Tracks t (start t) where
  root := rfl
  depth := rfl
  le_deepest := Nat.le_refl 0
  outlook := by
    show max 0 (max (0 + t.height) 0) = t.height
    omega

/-- **A step keeps track.** -/
theorem Tracks.moves (h : w.Tracks t) (hw : w.Moves w') : w'.Tracks t := by
  obtain ⟨hroot, hdepth, hle, houtlook⟩ := h
  cases hw with
  | @down k f c cs above d m =>
    have hlevel : d = above.length := hdepth
    have houtlook : max m (max (above.length + max (c.height + 1) (Tree.forestHeight cs))
        (levelBehind above)) = t.height := houtlook
    refine ⟨hroot, congrArg (· + 1) hdepth, Nat.le_max_right .., ?_⟩
    show max (max m (d + 1)) (max (above.length + 1 + c.height)
      (max (above.length + Tree.forestHeight cs) (levelBehind above))) = t.height
    omega
  | @turn s above d m hs =>
    have hlevel : d = above.length := hdepth
    have houtlook : max m (max (above.length + s.height) (levelBehind above)) = t.height := houtlook
    have hheight := Tree.height_of_children_eq_nil hs
    refine ⟨hroot, hdepth, hle, ?_⟩
    show max m (max 0 (levelBehind above)) = t.height
    change d ≤ m at hle
    omega
  | @next k f before after s u above d m =>
    have houtlook : max m (max 0 (max (above.length + max (u.height + 1) (Tree.forestHeight after))
        (levelBehind above))) = t.height := houtlook
    refine ⟨?_, hdepth, hle, ?_⟩
    · rw [← hroot, Cursor.root, List.foldl_cons, OpenNode.close_next]
      rfl
    · show max m (max (above.length + 1 + u.height)
        (max (above.length + Tree.forestHeight after) (levelBehind above))) = t.height
      omega
  | @up k f before s above d m =>
    have hlevel : d = above.length + 1 := hdepth
    have houtlook : max m (max 0 (max (above.length + 0) (levelBehind above))) = t.height :=
      houtlook
    change d ≤ m at hle
    refine ⟨hroot, ?_, ?_, ?_⟩
    · show d - 1 = above.length
      omega
    · show d - 1 ≤ m
      omega
    · show max m (max 0 (levelBehind above)) = t.height
      omega

/-- At its end the walk is back at the root, and nothing is ahead. -/
theorem eq_of_step_eq_none (h : w.step = none) :
    w.seen = true ∧ w.cursor.above = [] ∧ w.remaining = 1 := by
  obtain ⟨⟨t, above⟩, seen, depth, deepest⟩ := w
  cases seen with
  | true =>
    rcases above with _ | ⟨⟨k, f, before, _ | ⟨s, after⟩⟩, above⟩
    · exact ⟨rfl, rfl, rfl⟩
    · cases h
    · cases h
  | false => rcases t with ⟨k, f, l⟩ | ⟨k, f, _ | ⟨c, cs⟩⟩ <;> cases h

theorem Tracks.last (h : w.Tracks t) (hw : w.step = none) :
    w.cursor = .start t ∧ w.deepest = t.height := by
  obtain ⟨hseen, habove, -⟩ := eq_of_step_eq_none hw
  obtain ⟨⟨s, above⟩, seen, depth, deepest⟩ := w
  obtain rfl : seen = true := hseen
  obtain rfl : above = [] := habove
  obtain rfl : s = t := h.root
  have houtlook : max deepest (max 0 0) = s.height := h.outlook
  refine ⟨rfl, ?_⟩
  show deepest = s.height
  omega

/-! ## All steps -/

/-- The walk after some steps, if it goes on for so long. -/
def after : Nat → DepthWalk → Option DepthWalk
  | 0, w => some w
  | n + 1, w => w.step >>= after n

theorem after_succ (h : w.step = some w') (n : Nat) : after (n + 1) w = after n w' := by
  rw [after, h]
  rfl

theorem remaining_pos (w : DepthWalk) : 0 < w.remaining := by
  cases hstep : w.step with
  | none => exact (eq_of_step_eq_none hstep).2.2 ▸ Nat.one_pos
  | some w' => exact remaining_of_moves (moves_of_step hstep) ▸ Nat.succ_pos _

/-- **The walk goes on as long as steps are left**, and no longer. -/
theorem isSome_after (n : Nat) (w : DepthWalk) : (after n w).isSome ↔ n < w.remaining := by
  induction n generalizing w with
  | zero => exact iff_of_true rfl w.remaining_pos
  | succ n ih =>
    cases hstep : w.step with
    | none =>
      have hone := (eq_of_step_eq_none hstep).2.2
      rw [after, hstep]
      refine iff_of_false Bool.false_ne_true ?_
      omega
    | some w' =>
      have hremaining := remaining_of_moves (moves_of_step hstep)
      rw [after_succ hstep, ih w']
      omega

/-- All of a walk keeps track. -/
theorem Tracks.after {n : Nat} (h : w.Tracks t) (hw : w.after n = some w') : w'.Tracks t := by
  induction n generalizing w with
  | zero => exact Option.some.inj hw ▸ h
  | succ n ih =>
    obtain ⟨v, hv, hw⟩ := Option.bind_eq_some_iff.mp hw
    exact ih (h.moves (moves_of_step hv)) hw

/-- A run is the walk after all its steps. -/
theorem after_run (w : DepthWalk) :
    w.after (w.remaining - 1) = some w.run ∧ w.run.step = none := by
  induction w using run.induct with
  | case1 w hstep =>
    rw [run.eq_def, (eq_of_step_eq_none hstep).2.2]
    split
    next => exact ⟨rfl, hstep⟩
    next w' hsome => rw [hstep] at hsome; cases hsome
  | case2 w w' hstep ih =>
    have hremaining := remaining_of_moves (moves_of_step hstep)
    have hpos := w'.remaining_pos
    have hrun : w.run = w'.run := by
      rw [run.eq_def]
      split
      next hnone => rw [hstep] at hnone; cases hnone
      next v hsome => rw [hstep] at hsome; rw [Option.some.inj hsome]
    have hsteps : w.remaining - 1 = w'.remaining - 1 + 1 := by omega
    rw [hrun, hsteps, after_succ hstep]
    exact ih

end DepthWalk

namespace Tree

/-- The depth that the walk finds is the height. -/
theorem depth_eq (t : Tree) : t.depth = t.height := by
  obtain ⟨hafter, hend⟩ := (DepthWalk.start t).after_run
  exact (((DepthWalk.tracks_start t).after hafter).last hend).2

/-- There are two steps for each node, but for the one that would lead out of the tree. -/
theorem remaining_start (t : Tree) : (DepthWalk.start t).remaining = 2 * t.nodes.length := by
  rw [← size_eq_length_nodes]
  rfl

/-- **The depth of a tree is taken by a walk that ends, and it is the height.** The cursor moves as
in an ordered tree. The walk takes two steps for each node, less one, and no more. Before and after
each of them the cursor stands in the tree, on the level that is counted: so many edges lead down to
its node. So the count is positive whenever there is a parent to go up to, and it never falls below
zero. In the end the cursor is back at the root, and the deepest level that was met is the height: 0
for a node without children, and one more than the height of the highest child otherwise, which is
the number of edges on a longest path down from the root. -/
theorem depth_of_walk (t : Tree) :
    (∀ c : Cursor, c.MovesInOrder) ∧
    (∀ n, ((DepthWalk.start t).after n).isSome ↔ n < 2 * t.nodes.length) ∧
    (∀ n w, (DepthWalk.start t).after n = some w →
      w.cursor.root = t ∧ w.depth = w.cursor.level ∧ t.HasBelow w.depth w.cursor.node ∧
      (w.cursor.parent?.isSome → 0 < w.depth)) ∧
    (∃ w, (DepthWalk.start t).after (2 * t.nodes.length - 1) = some w ∧ w.cursor = .start t ∧
      t.depth = w.deepest) ∧
    t.depth = t.height ∧
    (t.children = [] → t.height = 0) ∧
    (t.children ≠ [] → t.height = 1 + (t.children.map height).foldr max 0) ∧
    (∃ l, t.HasBelow t.height l ∧ l.children = []) ∧
    ∀ n l, t.HasBelow n l → n ≤ t.height := by
  obtain ⟨hafter, hend⟩ := (DepthWalk.start t).after_run
  have hlast := ((DepthWalk.tracks_start t).after hafter).last hend
  refine ⟨Cursor.movesInOrder, fun n => ?ends, fun n w hw => ?tracks, ⟨_, ?last, hlast.1, rfl⟩,
    t.depth_eq, height_of_children_eq_nil, height_eq_succ, t.exists_hasBelow_height,
    fun n l hl => ?paths⟩
  case ends => rw [DepthWalk.isSome_after, remaining_start]
  case tracks =>
    have htracks := (DepthWalk.tracks_start t).after hw
    have hbelow := w.cursor.hasBelow
    rw [htracks.root, ← htracks.depth] at hbelow
    refine ⟨htracks.root, htracks.depth, hbelow, fun hparent => ?_⟩
    rw [htracks.depth]
    obtain ⟨⟨s, above⟩, seen, depth, deepest⟩ := w
    cases above with
    | nil => cases hparent
    | cons o above => exact Nat.succ_pos _
  case last => rwa [remaining_start] at hafter
  case paths =>
    have hheight := hl.add_height_le
    omega

/-- A block with a mark in it, and a comment behind the block. -/
def sampleBlock : Tree :=
  branch .program none [
    branch .block none [leaf .fixed none ⟨"", "\x7b", 0, false⟩],
    leaf .lineComment none ⟨" ", "// done", 0, false⟩]

/-- The fourth step leads from the mark up to the block. -/
theorem depth_of_walk_sampleBlock :
    sampleBlock.depth = 2 ∧
    (∃ w, (DepthWalk.start sampleBlock).after 3 = some w ∧ w.seen = true ∧
      w.cursor.parent?.isSome ∧ w.depth = 2 ∧ 0 < w.depth) ∧
    sampleBlock.children ≠ [] ∧
    sampleBlock.height = 1 + (sampleBlock.children.map height).foldr max 0 ∧
    ∃ l, sampleBlock.HasBelow 2 l ∧ 2 ≤ sampleBlock.height := by
  obtain ⟨-, -, hwalk, -, hdepth, -, hheight, ⟨l, hl, -⟩, hpaths⟩ := depth_of_walk sampleBlock
  obtain ⟨-, -, -, hpositive⟩ := hwalk 3 _ rfl
  have hchildren : sampleBlock.children ≠ [] := List.cons_ne_nil _ _
  exact ⟨hdepth, ⟨_, rfl, rfl, rfl, rfl, hpositive rfl⟩, hchildren, hheight hchildren, l, hl,
    hpaths 2 l hl⟩

end Tree

end CodeRisk.Java
