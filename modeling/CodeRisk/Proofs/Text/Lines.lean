import Mathlib.Data.List.Basic

/-!
# Lines

The lines of a text are what stands between its newlines; a text that ends in a newline has an empty
last line. Lines that are put together with newlines between them are found again as long as there
is no newline in any of them (`lines_intercalate`).
-/
namespace CodeRisk.Text

/-- The lines of a text. -/
def lines (s : String) : List String :=
  (s.toList.splitOn '\n').map String.ofList

/-- Whether a text is a single line. -/
def IsLine (s : String) : Prop :=
  '\n' ∉ s.toList

instance (s : String) : Decidable (IsLine s) :=
  inferInstanceAs (Decidable (_ ∉ _))

variable {s t : String}

@[simp] theorem isLine_empty : IsLine "" := by decide

@[simp] theorem isLine_append : IsLine (s ++ t) ↔ IsLine s ∧ IsLine t := by
  simp [IsLine]

@[simp] theorem isLine_ofList {cs : List Char} : IsLine (.ofList cs) ↔ '\n' ∉ cs := by
  simp [IsLine]

theorem isLine_intercalate {ss : List String} (hs : IsLine s) (hss : ∀ x ∈ ss, IsLine x) :
    IsLine (s.intercalate ss) := by
  induction ss with
  | nil => exact isLine_empty
  | cons x xs ih =>
    obtain ⟨hx, hxs⟩ := List.forall_mem_cons.mp hss
    cases xs with
    | nil => exact hx
    | cons y ys =>
      rw [String.intercalate_cons_cons, isLine_append, isLine_append]
      exact ⟨⟨hx, hs⟩, ih hxs⟩

/-- Decimal digits are no newlines. -/
theorem newline_not_mem_toDigits (n : Nat) : '\n' ∉ Nat.toDigits 10 n := by
  intro h
  have hdigit : '\n'.isDigit := Nat.isDigit_of_mem_toDigits (by decide) (by decide) h
  exact absurd hdigit (by decide)

theorem isLine_natToString (n : Nat) : IsLine (toString n) := by
  rw [Nat.toString_eq_repr, Nat.repr_eq_ofList_toDigits, isLine_ofList]
  exact newline_not_mem_toDigits n

theorem isLine_intToString (n : Int) : IsLine (toString n) := by
  cases n with
  | ofNat n => exact isLine_natToString n
  | negSucc n =>
    show IsLine ("-" ++ Nat.repr (n + 1))
    rw [isLine_append]
    exact ⟨by decide, isLine_natToString (n + 1)⟩

/-- **The lines of a text** that was put together from lines. -/
theorem lines_intercalate {ls : List String} (h : ∀ l ∈ ls, IsLine l) (hne : ls ≠ []) :
    lines ("\n".intercalate ls) = ls := by
  have hnewline : ∀ cs ∈ ls.map String.toList, '\n' ∉ cs := by
    intro cs hcs
    obtain ⟨l, hl, rfl⟩ := List.mem_map.mp hcs
    exact h l hl
  have hsplit : (['\n'].intercalate (ls.map String.toList)).splitOn '\n' = ls.map String.toList :=
    List.splitOn_intercalate '\n' hnewline (by simpa using hne)
  rw [lines, String.toList_intercalate]
  show (List.splitOn '\n' (['\n'].intercalate _)).map _ = _
  rw [hsplit, List.map_map]
  exact List.map_id'' (fun l => String.ofList_toList) ls

theorem lines_of_isLine (h : IsLine s) : lines s = [s] := by
  rw [lines, List.splitOn_eq_singleton h, List.map_singleton, String.ofList_toList]

/-- A newline ends a line, whatever stands around it. -/
theorem lines_append_newline (s t : String) : lines (s ++ "\n" ++ t) = lines s ++ lines t := by
  have hsplit : (s ++ "\n" ++ t).toList.splitOn '\n' =
      s.toList.splitOn '\n' ++ t.toList.splitOn '\n' := by
    rw [String.toList_append, String.toList_append, List.append_assoc]
    exact List.splitOn_append_cons_self s.toList t.toList
  rw [lines, hsplit, List.map_append]
  rfl

/-- Whatever a text holds, its lines give it back. -/
theorem intercalate_lines (s : String) : "\n".intercalate (lines s) = s := by
  rw [← String.toList_inj, String.toList_intercalate, lines, List.map_map]
  have hid : (String.toList ∘ String.ofList) = id := by
    funext cs
    exact String.toList_ofList
  rw [hid, List.map_id]
  exact List.intercalate_splitOn '\n'

end CodeRisk.Text
