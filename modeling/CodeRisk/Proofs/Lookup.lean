import Mathlib.Data.List.Nodup

/-!
# Named things

In a list of named things in which no two have the same name, what is found under a name is what
stands in the list with that name.
-/
namespace CodeRisk

variable {α : Type} {es : List (String × α)} {name : String} {x : α}

theorem mem_of_lookup (h : es.lookup name = some x) : (name, x) ∈ es := by
  obtain ⟨front, rest, rfl, -⟩ := List.lookup_eq_some_iff.mp h
  exact List.mem_append_right front List.mem_cons_self

theorem lookup_eq_some_iff_mem (h : (es.map Prod.fst).Nodup) :
    es.lookup name = some x ↔ (name, x) ∈ es := by
  induction es with
  | nil => simp
  | cons e es ih =>
    obtain ⟨n, y⟩ := e
    rw [List.map_cons, List.nodup_cons] at h
    rw [List.lookup_cons, List.mem_cons, Prod.mk.injEq]
    by_cases hname : name = n
    · subst hname
      have hother : (name, x) ∉ es := fun hmem => h.1 (List.mem_map.mpr ⟨_, hmem, rfl⟩)
      simp [hother, eq_comm]
    · have hne : (name == n) = false := beq_eq_false_iff_ne.mpr hname
      rw [hne]
      simp [hname, ih h.2]

end CodeRisk
