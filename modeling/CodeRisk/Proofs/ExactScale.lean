import CodeRisk.Scale
import Mathlib.Algebra.Order.Field.Basic
import Mathlib.Algebra.Order.Floor.Ring
import Mathlib.Data.Rat.Floor

/-!
# Exact arithmetic

Scores in the numbers of an ordered field, where nothing is lost to rounding. A statement about
exact scores takes this scale; the rational and the real numbers are such fields.
-/
namespace CodeRisk

/-- Exact arithmetic in an ordered field with whole parts. -/
@[reducible] def Scale.exact (κ : Type) [Field κ] [LinearOrder κ] [FloorRing κ] : Scale κ where
  ofNat n := n
  round x := if 0 ≤ x then (⌊x + 1 / 2⌋ : ℤ) else (⌈x - 1 / 2⌉ : ℤ)
  decidableLT := inferInstance
  decidableLE := inferInstance

namespace Scale
variable {κ : Type} [Field κ] [LinearOrder κ] [FloorRing κ]

theorem sum_exact (xs : List κ) : @sum κ (.exact κ) xs = xs.sum := by
  rw [List.sum_eq_foldl]
  show xs.foldl (· + ·) ((0 : ℕ) : κ) = _
  rw [Nat.cast_zero]

theorem atMost_exact (limit x : κ) : @atMost κ (.exact κ) limit x = min limit x := by
  show (if x < limit then x else limit) = _
  rcases lt_or_ge x limit with h | h
  · rw [if_pos h, min_eq_right h.le]
  · rw [if_neg h.not_gt, min_eq_left h]

theorem clamp_exact {low high : κ} (hle : low ≤ high) (x : κ) :
    @clamp κ (.exact κ) low high x = max low (min high x) := by
  show (if x < low then low else if high < x then high else x) = _
  rcases lt_or_ge x low with h | h
  · rw [if_pos h, max_eq_left ((min_le_right ..).trans h.le)]
  · rw [if_neg h.not_gt, max_eq_right (le_min hle h)]
    rcases lt_or_ge high x with h' | h'
    · rw [if_pos h', min_eq_left h'.le]
    · rw [if_neg h'.not_gt, min_eq_right h']

end Scale

end CodeRisk
