/-!
# Sets of strings

A set of strings is the list of its elements in increasing order. Characters compare by code point,
which is also the order of the bytes in UTF-8.
-/
namespace CodeRisk

/-- Whether each element is smaller than all that follow. -/
def Increasing (xs : List String) : Prop :=
  xs.Pairwise (· < ·)

/-- A finite set of strings. -/
structure StringSet where
  toList : List String
  increasing : Increasing toList

namespace StringSet

/-- Puts a string at its place in an increasing list, unless it is there already. -/
def insertInto (x : String) : List String → List String
  | [] => [x]
  | y :: ys => if x < y then x :: y :: ys else if x = y then y :: ys else y :: insertInto x ys

theorem mem_insertInto {x z : String} {ys : List String} :
    z ∈ insertInto x ys ↔ z = x ∨ z ∈ ys := by
  induction ys with
  | nil => simp [insertInto]
  | cons y ys ih =>
    simp only [insertInto]
    split
    · simp
    · split
      · simp_all
      · simp [ih, or_left_comm]

theorem increasing_insertInto {x : String} {ys : List String} (h : Increasing ys) :
    Increasing (insertInto x ys) := by
  induction ys with
  | nil => simp [insertInto, Increasing]
  | cons y ys ih =>
    have hy : ∀ z ∈ ys, y < z := (List.pairwise_cons.mp h).1
    have hys : Increasing ys := (List.pairwise_cons.mp h).2
    simp only [insertInto]
    split
    · rename_i hxy
      refine List.pairwise_cons.mpr ⟨fun z hz => ?_, h⟩
      rcases List.mem_cons.mp hz with rfl | hz
      · exact hxy
      · exact String.lt_trans hxy (hy z hz)
    · split
      · exact h
      · rename_i hle hne
        refine List.pairwise_cons.mpr ⟨fun z hz => ?_, ih hys⟩
        rcases mem_insertInto.mp hz with rfl | hz
        · have hyz : y ≤ z := String.not_lt.mp hle
          exact String.not_le.mp fun hzy => hne (String.le_antisymm hzy hyz)
        · exact hy z hz

/-- The set with nothing in it. -/
def empty : StringSet := ⟨[], List.Pairwise.nil⟩

/-- The set with one more string. -/
def insert (s : StringSet) (x : String) : StringSet :=
  ⟨insertInto x s.toList, increasing_insertInto s.increasing⟩

/-- The set of the strings in a list. -/
def ofList (xs : List String) : StringSet :=
  xs.foldr (fun x s => s.insert x) empty

/-- The number of strings in the set. -/
def size (s : StringSet) : Nat := s.toList.length

/-- A string is in the set of a list if it is in the list. -/
theorem mem_ofList {x : String} {xs : List String} : x ∈ (ofList xs).toList ↔ x ∈ xs := by
  induction xs with
  | nil => simp [ofList, empty]
  | cons y ys ih =>
    change x ∈ insertInto y (ofList ys).toList ↔ x ∈ y :: ys
    rw [mem_insertInto, ih, List.mem_cons]

end StringSet

end CodeRisk
