import CodeRisk.Dependency
import CodeRisk.Proofs.Counter
import CodeRisk.Proofs.ExactScale
import Mathlib.Data.List.Nodup
import Mathlib.Data.List.Perm.Subperm

/-!
# Fan-out and instability

The outgoing dependencies of a file are its project imports, each once, and the fan-out is their
number. With no incoming ones the instability is 1 as soon as there is a dependency
(`DependencyInspector.instability_eq`). More imports leave no dependency out
(`DependencyInspector.size_outgoing_le`).
-/
namespace CodeRisk

namespace StringSet

theorem nodup_toList (s : StringSet) : s.toList.Nodup :=
  s.increasing.imp fun h => (String.ne_of_lt h)

theorem eq_of_toList {s t : StringSet} (h : s.toList = t.toList) : s = t := by
  obtain ⟨xs, hxs⟩ := s
  obtain ⟨ys, hys⟩ := t
  obtain rfl : xs = ys := h
  rfl

/-- Sets with the same elements are the same. -/
theorem ext {s t : StringSet} (h : ∀ x, x ∈ s.toList ↔ x ∈ t.toList) : s = t := by
  have hperm : s.toList.Perm t.toList :=
    (List.perm_ext_iff_of_nodup s.nodup_toList t.nodup_toList).mpr h
  exact eq_of_toList (hperm.eq_of_pairwise' s.increasing t.increasing)

/-- A set with all elements of another one is no smaller. -/
theorem size_le_of_subset {s t : StringSet} (h : ∀ x ∈ s.toList, x ∈ t.toList) :
    s.size ≤ t.size :=
  (List.subperm_of_subset s.nodup_toList h).length_le

end StringSet

namespace DependencyInspector
variable {ν : Type} [Scale ν] (d : DependencyInspector)

/-- The project imports among some imports, each once. -/
def outgoing (imports : List String) : StringSet :=
  .ofList (imports.filter d.isProjectLocal)

@[simp] theorem mem_outgoing {imports : List String} {x : String} :
    x ∈ (d.outgoing imports).toList ↔ x ∈ imports ∧ d.isProjectLocal x = true := by
  rw [outgoing, StringSet.mem_ofList, List.mem_filter]

/-- All that is said of dependencies follows from the outgoing ones. -/
theorem inspect_congr {d e : DependencyInspector} {xs ys : List String}
    (h : (d.inspect xs : DependencyImpact ν).outgoing =
      (e.inspect ys : DependencyImpact ν).outgoing) :
    (d.inspect xs : DependencyImpact ν) = e.inspect ys := by
  have hset : StringSet.ofList (xs.filter d.isProjectLocal) =
      StringSet.ofList (ys.filter e.isProjectLocal) := h
  simp only [inspect, hset]

theorem toNat_fanOut {imports : List String} (h : (d.outgoing imports).size < Counter.limit) :
    (d.inspect imports : DependencyImpact ν).fanOut.toNat = (d.outgoing imports).size :=
  Counter.toNat_ofNat_of_lt h

/-- The outgoing dependencies are still there among more imports. -/
theorem size_outgoing_le {xs ys : List String} (h : xs ⊆ ys) :
    (d.outgoing xs).size ≤ (d.outgoing ys).size := by
  refine StringSet.size_le_of_subset fun x hx => ?_
  obtain ⟨hmem, hlocal⟩ := d.mem_outgoing.mp hx
  exact d.mem_outgoing.mpr ⟨h hmem, hlocal⟩

/-- With no incoming dependencies the share of the outgoing ones is all or nothing. -/
theorem instability_eq {κ : Type} [Field κ] [LinearOrder κ] [IsStrictOrderedRing κ] [FloorRing κ]
    (imports : List String) :
    (@inspect κ (.exact κ) d imports).instability =
      if 0 < (@inspect κ (.exact κ) d imports).fanOut then 1 else 0 := by
  generalize hfan : (@inspect κ (.exact κ) d imports).fanOut = n
  have hshare : (@inspect κ (.exact κ) d imports).instability =
      if n + 0 = 0 then 0.0 else (n.toNat : κ) / ((n + 0).toNat : κ) := hfan ▸ rfl
  rw [hshare, UInt32.add_zero]
  by_cases hzero : n = 0
  · subst hzero
    norm_num
  · have hpos : 0 < n := UInt32.pos_iff_ne_zero.mpr hzero
    have hne : (n.toNat : κ) ≠ 0 := Nat.cast_ne_zero.mpr fun h => hzero (UInt32.toNat_inj.mp h)
    rw [if_neg hzero, if_pos hpos, div_self hne]

end DependencyInspector

end CodeRisk
