import Mathlib.Algebra.Ring.Nat

/-!
# Outlines

An outline is a tree of labels: what is left of a tree of code when one only asks which nodes stand
where. Its occurrences are its nodes, each with the labels of all nodes around it, so a number that
depends on where a node stands is a sum over occurrences.

How a node counts is said by its label alone (`Ranked`): the number of branches it adds, and whether
what is inside it lies one level deeper. From this the three figures of a list of occurrences follow
(`branches`, `cognition`, `nesting`). Most nodes add nothing; `charges` keeps those that do, with
their depth, and determines all three figures (`branches_occurrencesIn` and the two after it).
-/
namespace CodeRisk

/-- A tree of labels. -/
inductive Outline (α : Type) where
  | node (label : α) (parts : List (Outline α))

/-- How a node with a label counts. -/
class Ranked (α : Type) where
  /-- The number of branches it adds. -/
  ways : α → Nat
  /-- Whether what is inside it lies one level deeper. -/
  nests : α → Bool

/-- A node of an outline with the labels of all nodes around it, the innermost first. -/
structure Occurrence (α : Type) where
  label : α
  around : List α

namespace Occurrence
variable {α : Type} [Ranked α]

/-- The number of branches the node adds. -/
def ways (o : Occurrence α) : Nat :=
  Ranked.ways o.label

/-- Whether what is inside the node lies one level deeper. -/
def nests (o : Occurrence α) : Bool :=
  Ranked.nests o.label

/-- The number of nodes around this one that put their inside one level deeper. -/
def depth (o : Occurrence α) : Nat :=
  o.around.countP Ranked.nests

/-- The branches of the node, and its depth if it puts its inside one level deeper. -/
def weight (o : Occurrence α) : Nat :=
  o.ways + if o.nests then o.depth else 0

end Occurrence

namespace Outline
variable {α : Type}

mutual

/-- All nodes of an outline that stands inside nodes labelled `around`, each before its parts. -/
def occurrences (around : List α) : Outline α → List (Occurrence α)
  | node a parts => ⟨a, around⟩ :: occurrencesIn (a :: around) parts

/-- All nodes of some outlines that stand inside nodes labelled `around`. -/
def occurrencesIn (around : List α) : List (Outline α) → List (Occurrence α)
  | [] => []
  | o :: os => occurrences around o ++ occurrencesIn around os

end

mutual

/-- The labels of all nodes of an outline, each before those of its parts. -/
def labels : Outline α → List α
  | node a parts => a :: labelsIn parts

/-- The labels of all nodes of some outlines. -/
def labelsIn : List (Outline α) → List α
  | [] => []
  | o :: os => labels o ++ labelsIn os

end

@[simp] theorem labels_node (a : α) (parts : List (Outline α)) :
    labels (node a parts) = a :: labelsIn parts := rfl

@[simp] theorem labelsIn_nil : labelsIn ([] : List (Outline α)) = [] := rfl

@[simp] theorem labelsIn_cons (o : Outline α) (os : List (Outline α)) :
    labelsIn (o :: os) = labels o ++ labelsIn os := rfl

@[simp] theorem labelsIn_append (os ps : List (Outline α)) :
    labelsIn (os ++ ps) = labelsIn os ++ labelsIn ps := by
  induction os with
  | nil => rfl
  | cons o os ih => simp [ih]

mutual

theorem map_label_occurrences (around : List α) : (o : Outline α) →
    (occurrences around o).map Occurrence.label = labels o
  | node a parts => by
    rw [occurrences, labels, List.map_cons, map_label_occurrencesIn (a :: around) parts]

theorem map_label_occurrencesIn (around : List α) : (os : List (Outline α)) →
    (occurrencesIn around os).map Occurrence.label = labelsIn os
  | [] => rfl
  | o :: os => by
    rw [occurrencesIn, List.map_append, map_label_occurrences around o,
      map_label_occurrencesIn around os, labelsIn]

end

/-! ## Figures -/

variable [Ranked α]

/-- The number of branches that some nodes add. -/
def branches (os : List (Occurrence α)) : Nat :=
  (os.map Occurrence.ways).sum

/-- The branches that some nodes add, each weighed by where it stands. -/
def cognition (os : List (Occurrence α)) : Nat :=
  (os.map Occurrence.weight).sum

/-- The deepest level that is reached inside some nodes. -/
def nesting (os : List (Occurrence α)) : Nat :=
  ((os.filter Occurrence.nests).map fun o => o.depth + 1).foldr max 0

/-- The weight is the number of branches and the depths of the nodes that nest. -/
theorem cognition_eq_branches_add (os : List (Occurrence α)) :
    cognition os = branches os + ((os.filter Occurrence.nests).map Occurrence.depth).sum := by
  induction os with
  | nil => rfl
  | cons o os ih =>
    rw [cognition, branches, List.map_cons, List.map_cons, List.sum_cons, List.sum_cons,
      ← cognition, ← branches, ih, Occurrence.weight, List.filter_cons]
    split <;> simp <;> omega

theorem nesting_cons (o : Occurrence α) (os : List (Occurrence α)) :
    nesting (o :: os) = max (if o.nests then o.depth + 1 else 0) (nesting os) := by
  rw [nesting, List.filter_cons]
  split
  · rfl
  · exact (Nat.zero_max _).symm

theorem nesting_append (os ps : List (Occurrence α)) :
    nesting (os ++ ps) = max (nesting os) (nesting ps) := by
  induction os with
  | nil => exact (Nat.zero_max _).symm
  | cons o os ih => rw [List.cons_append, nesting_cons, nesting_cons, ih, Nat.max_assoc]

/-- The deepest level is no deeper than what is inside any node that nests. -/
theorem nesting_le {n : Nat} {os : List (Occurrence α)}
    (h : ∀ o ∈ os, o.nests → o.depth + 1 ≤ n) : nesting os ≤ n := by
  induction os with
  | nil => exact Nat.zero_le n
  | cons o os ih =>
    obtain ⟨ho, hos⟩ := List.forall_mem_cons.mp h
    have htail := ih hos
    rw [nesting_cons]
    split
    next hnests =>
      have hhead := ho hnests
      omega
    next => omega

end Outline

/-! ## Charges -/

/-- What a node adds to the figures: its branches, and its depth if it nests. -/
structure Charge where
  ways : Nat
  nests : Bool
  depth : Nat
  deriving DecidableEq, Repr

namespace Charge

/-- The branches, and the depth of a charge that nests. -/
def weight (c : Charge) : Nat :=
  c.ways + if c.nests then c.depth else 0

/-- The level inside the node, 0 if it does not nest. -/
def level (c : Charge) : Nat :=
  if c.nests then c.depth + 1 else 0

/-- The branches of some charges. -/
def branches (cs : List Charge) : Nat :=
  (cs.map ways).sum

/-- The weight of some charges. -/
def cognition (cs : List Charge) : Nat :=
  (cs.map weight).sum

/-- The deepest level of some charges. -/
def nesting (cs : List Charge) : Nat :=
  (cs.map level).foldr max 0

@[simp] theorem branches_nil : branches [] = 0 := rfl

@[simp] theorem cognition_nil : cognition [] = 0 := rfl

@[simp] theorem nesting_nil : nesting [] = 0 := rfl

@[simp] theorem branches_cons (c : Charge) (cs : List Charge) :
    branches (c :: cs) = c.ways + branches cs := by
  simp [branches]

@[simp] theorem cognition_cons (c : Charge) (cs : List Charge) :
    cognition (c :: cs) = c.weight + cognition cs := by
  simp [cognition]

@[simp] theorem nesting_cons (c : Charge) (cs : List Charge) :
    nesting (c :: cs) = max c.level (nesting cs) := by
  simp [nesting]

@[simp] theorem branches_append (cs ds : List Charge) :
    branches (cs ++ ds) = branches cs + branches ds := by
  simp [branches]

@[simp] theorem cognition_append (cs ds : List Charge) :
    cognition (cs ++ ds) = cognition cs + cognition ds := by
  simp [cognition]

@[simp] theorem nesting_append (cs ds : List Charge) :
    nesting (cs ++ ds) = max (nesting cs) (nesting ds) := by
  induction cs with
  | nil => simp
  | cons c cs ih => rw [List.cons_append, nesting_cons, nesting_cons, ih, Nat.max_assoc]

end Charge

namespace Outline
variable {α : Type} [Ranked α]

/-- What one node adds at a depth; nothing at all for most labels. -/
def charge (depth : Nat) (a : α) : List Charge :=
  if Ranked.nests a || Ranked.ways a != 0 then [⟨Ranked.ways a, Ranked.nests a, depth⟩] else []

/-- The depth of what is inside a node at the given depth. -/
def inside (depth : Nat) (a : α) : Nat :=
  if Ranked.nests a then depth + 1 else depth

mutual

/-- What the nodes of an outline at the given depth add, each before its parts. -/
def charges (depth : Nat) : Outline α → List Charge
  | node a parts => charge depth a ++ chargesIn (inside depth a) parts

/-- What the nodes of some outlines at the given depth add. -/
def chargesIn (depth : Nat) : List (Outline α) → List Charge
  | [] => []
  | o :: os => charges depth o ++ chargesIn depth os

end

@[simp] theorem charges_node (d : Nat) (a : α) (parts : List (Outline α)) :
    charges d (node a parts) = charge d a ++ chargesIn (inside d a) parts := rfl

@[simp] theorem chargesIn_nil (d : Nat) : chargesIn d ([] : List (Outline α)) = [] := rfl

@[simp] theorem chargesIn_cons (d : Nat) (o : Outline α) (os : List (Outline α)) :
    chargesIn d (o :: os) = charges d o ++ chargesIn d os := rfl

@[simp] theorem chargesIn_append (d : Nat) (os ps : List (Outline α)) :
    chargesIn d (os ++ ps) = chargesIn d os ++ chargesIn d ps := by
  induction os with
  | nil => rfl
  | cons o os ih => simp [ih]

/-! ## The charges of occurrences -/

/-- One more node around changes the depth as the node says. -/
theorem countP_cons_eq_inside (a : α) (around : List α) :
    (a :: around).countP Ranked.nests = inside (around.countP Ranked.nests) a := by
  rw [List.countP_cons, inside]
  split <;> simp

mutual

/-- The occurrences of an outline add what its charges say, in the same order. -/
theorem flatMap_charge_occurrences (around : List α) : (o : Outline α) →
    ((occurrences around o).flatMap fun x => charge x.depth x.label) =
      charges (around.countP Ranked.nests) o
  | node a parts => by
    rw [occurrences, charges, List.flatMap_cons, flatMap_charge_occurrencesIn (a :: around) parts,
      countP_cons_eq_inside]
    rfl

/-- The same for some outlines. -/
theorem flatMap_charge_occurrencesIn (around : List α) : (os : List (Outline α)) →
    ((occurrencesIn around os).flatMap fun x => charge x.depth x.label) =
      chargesIn (around.countP Ranked.nests) os
  | [] => rfl
  | o :: os => by
    rw [occurrencesIn, chargesIn, List.flatMap_append, flatMap_charge_occurrences around o,
      flatMap_charge_occurrencesIn around os]

end

private theorem branches_eq (os : List (Occurrence α)) :
    branches os = Charge.branches (os.flatMap fun x => charge x.depth x.label) := by
  induction os with
  | nil => rfl
  | cons o os ih =>
    have hhead : o.ways = Charge.branches (charge o.depth o.label) := by
      rw [Occurrence.ways, charge]
      split <;> simp_all
    rw [List.flatMap_cons, Charge.branches_append, ← ih, ← hhead]
    rfl

private theorem cognition_eq (os : List (Occurrence α)) :
    cognition os = Charge.cognition (os.flatMap fun x => charge x.depth x.label) := by
  induction os with
  | nil => rfl
  | cons o os ih =>
    have hhead : o.weight = Charge.cognition (charge o.depth o.label) := by
      rw [Occurrence.weight, Occurrence.ways, Occurrence.nests, charge]
      by_cases hn : Ranked.nests o.label <;> by_cases hw : Ranked.ways o.label = 0 <;>
        simp [hn, hw, Charge.weight]
    rw [List.flatMap_cons, Charge.cognition_append, ← ih, ← hhead]
    rfl

private theorem nesting_eq (os : List (Occurrence α)) :
    nesting os = Charge.nesting (os.flatMap fun x => charge x.depth x.label) := by
  induction os with
  | nil => rfl
  | cons o os ih =>
    have hhead : Charge.nesting (charge o.depth o.label) = if o.nests then o.depth + 1 else 0 := by
      rw [Occurrence.nests, charge]
      split <;> simp_all [Charge.level]
    rw [List.flatMap_cons, Charge.nesting_append, ← ih, hhead, nesting, nesting, List.filter_cons]
    split <;> simp

/-- The number of branches is that of the charges. -/
theorem branches_occurrencesIn (around : List α) (os : List (Outline α)) :
    branches (occurrencesIn around os) =
      Charge.branches (chargesIn (around.countP Ranked.nests) os) := by
  rw [branches_eq, flatMap_charge_occurrencesIn]

/-- The weight is that of the charges. -/
theorem cognition_occurrencesIn (around : List α) (os : List (Outline α)) :
    cognition (occurrencesIn around os) =
      Charge.cognition (chargesIn (around.countP Ranked.nests) os) := by
  rw [cognition_eq, flatMap_charge_occurrencesIn]

/-- The deepest level is that of the charges. -/
theorem nesting_occurrencesIn (around : List α) (os : List (Outline α)) :
    nesting (occurrencesIn around os) =
      Charge.nesting (chargesIn (around.countP Ranked.nests) os) := by
  rw [nesting_eq, flatMap_charge_occurrencesIn]

end Outline

end CodeRisk
