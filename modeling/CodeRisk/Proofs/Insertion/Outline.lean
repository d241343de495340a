import CodeRisk.Proofs.Outline
import Mathlib.Algebra.Order.BigOperators.Group.List
import Mathlib.Algebra.Order.Ring.Nat

/-!
# Outlines with nodes put in

An outline lies within another one if it comes out of it by leaving away whole parts. The nodes that
stay keep what is around them, so the occurrences of the smaller outline are a sublist of those of
the larger one (`WithinAll.occurrencesIn_sublist`), and no figure of a sublist is larger than that
of the list.
-/
namespace CodeRisk
namespace Outline
variable {α : Type}

mutual

/-- The first outline is the second without some parts of its nodes. -/
inductive Within : Outline α → Outline α → Prop where
  | node (a : α) {os ps : List (Outline α)} (h : WithinAll os ps) :
      Within (.node a os) (.node a ps)

/-- The first outlines are the second without some of them and without some parts of others. -/
inductive WithinAll : List (Outline α) → List (Outline α) → Prop where
  | nil : WithinAll [] []
  | cons {o p : Outline α} {os ps : List (Outline α)} (h : Within o p) (hs : WithinAll os ps) :
      WithinAll (o :: os) (p :: ps)
  | insert (p : Outline α) {os ps : List (Outline α)} (hs : WithinAll os ps) :
      WithinAll os (p :: ps)

end

mutual

theorem Within.refl : (o : Outline α) → Within o o
  | node a parts => .node a (WithinAll.refl parts)

theorem WithinAll.refl : (os : List (Outline α)) → WithinAll os os
  | [] => .nil
  | o :: os => .cons (Within.refl o) (WithinAll.refl os)

end

namespace WithinAll
variable {os ps : List (Outline α)}

theorem append_left (fixed : List (Outline α)) (h : WithinAll os ps) :
    WithinAll (fixed ++ os) (fixed ++ ps) := by
  induction fixed with
  | nil => exact h
  | cons o fixed ih => exact .cons (.refl o) ih

theorem append_right (fixed : List (Outline α)) {os ps : List (Outline α)} :
    WithinAll os ps → WithinAll (os ++ fixed) (ps ++ fixed)
  | .nil => .refl fixed
  | .cons h hs => .cons h (hs.append_right fixed)
  | .insert p hs => .insert p (hs.append_right fixed)

/-- Parts before and behind are kept. -/
theorem frame (before : List (Outline α)) (h : WithinAll os ps) (after : List (Outline α)) :
    WithinAll (before ++ os ++ after) (before ++ ps ++ after) :=
  append_right after (h.append_left before)

end WithinAll

mutual

theorem Within.occurrences_sublist {o p : Outline α} (around : List α) : Within o p →
    (occurrences around o).Sublist (occurrences around p)
  | .node a h => by
    rw [occurrences, occurrences]
    exact (h.occurrencesIn_sublist (a :: around)).cons_cons _

/-- **What is put in adds occurrences** and leaves all others with what is around them. -/
theorem WithinAll.occurrencesIn_sublist {os ps : List (Outline α)} (around : List α) :
    WithinAll os ps → (occurrencesIn around os).Sublist (occurrencesIn around ps)
  | .nil => List.Sublist.refl _
  | .cons h hs => by
    rw [occurrencesIn, occurrencesIn]
    exact (h.occurrences_sublist around).append (hs.occurrencesIn_sublist around)
  | .insert p hs => by
    rw [occurrencesIn]
    exact (hs.occurrencesIn_sublist around).trans (List.sublist_append_right ..)

end

/-! ## Figures -/

variable [Ranked α] {os ps : List (Occurrence α)}

theorem branches_le_of_sublist (h : os.Sublist ps) : branches os ≤ branches ps :=
  (h.map _).sum_le_sum fun _ _ => Nat.zero_le _

theorem cognition_le_of_sublist (h : os.Sublist ps) : cognition os ≤ cognition ps :=
  (h.map _).sum_le_sum fun _ _ => Nat.zero_le _

theorem nesting_le_of_sublist (h : os.Sublist ps) : nesting os ≤ nesting ps := by
  induction h with
  | slnil => exact Nat.le_refl _
  | cons o _ ih =>
    rw [nesting_cons]
    omega
  | cons_cons o _ ih =>
    rw [nesting_cons, nesting_cons]
    omega

end Outline

end CodeRisk
