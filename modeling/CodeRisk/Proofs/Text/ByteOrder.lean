import Mathlib.Data.String.Basic
import Mathlib.Tactic.SplitIfs

/-!
# The order of bytes

Texts are ordered by their characters, and the names on a disk by their bytes. In UTF-8 the two are
the same order (`Text.lt_iff_bytes_lt`): of two characters the smaller one has the smaller bytes,
also where one has fewer bytes than the other, since the first byte grows with their number
(`Text.encode_lt`).
-/
namespace CodeRisk.Text

/-- The bytes of a text in UTF-8. -/
def bytes (s : String) : List UInt8 :=
  s.toUTF8.data.toList

theorem bytes_eq_flatMap (s : String) : bytes s = s.toList.flatMap String.utf8EncodeChar := by
  rw [bytes, String.toUTF8_eq_toByteArray, ← String.utf8Encode_toList, List.utf8Encode,
    List.toList_data_toByteArray]

/-- A number below 2²¹ is compared by its digits to the base 64. -/
private theorem digits_lt {v w : Nat} (h : v < w) (hw : w < 0x200000) :
    v / 262144 % 8 < w / 262144 % 8 ∨ v / 262144 % 8 = w / 262144 % 8 ∧
      (v / 4096 % 64 < w / 4096 % 64 ∨ v / 4096 % 64 = w / 4096 % 64 ∧
        (v / 64 % 64 < w / 64 % 64 ∨ v / 64 % 64 = w / 64 % 64 ∧ v % 64 < w % 64)) := by
  rw [Nat.mod_eq_of_lt (by omega : v / 262144 < 8), Nat.mod_eq_of_lt (by omega : w / 262144 < 8)]
  omega

private theorem toNat_digit (n : Nat) {m k : Nat} (hm : 0 < m) (hk : m + k ≤ 256) :
    (UInt8.ofNat (n % m + k)).toNat = n % m + k := by
  have := Nat.mod_lt n hm
  exact UInt8.toNat_ofNat_of_lt' (show _ < 256 by omega)

/-- The bytes of a character decide the order, whatever follows. -/
theorem encode_lt {c d : Char} (h : c < d) (r s : List UInt8) :
    String.utf8EncodeChar c ++ r < String.utf8EncodeChar d ++ s := by
  have hval : c.val.toNat < d.val.toNat := h
  have hmax : d.val.toNat < 0x110000 := d.valid.elim (fun h => by omega) (·.2)
  have hdigits := digits_lt hval (by omega)
  unfold String.utf8EncodeChar
  generalize c.val.toNat = v at *
  generalize d.val.toNat = w at *
  -- with as many bytes the digits decide, with more of them the first byte does
  dsimp only
  split_ifs <;>
    simp (disch := decide) only [List.cons_append, List.nil_append, List.cons_lt_cons_iff,
      UInt8.lt_iff_toNat_lt, ← UInt8.toNat_inj, ↓toNat_digit, UInt8.toNat_ofNat'] <;>
    omega

theorem flatMap_encode_lt {as bs : List Char} (h : as < bs) :
    as.flatMap String.utf8EncodeChar < bs.flatMap String.utf8EncodeChar := by
  induction h with
  | @nil b bs =>
    obtain ⟨x, xs, hbytes⟩ := List.exists_cons_of_ne_nil (String.utf8EncodeChar_ne_nil (c := b))
    rw [List.flatMap_nil, List.flatMap_cons, hbytes]
    exact .nil
  | rel hlt => exact encode_lt hlt _ _
  | cons _ ih => exact List.append_left_lt ih

/-- **Texts are ordered by their bytes.** -/
theorem lt_iff_bytes_lt {a b : String} : a < b ↔ bytes a < bytes b := by
  rw [bytes_eq_flatMap, bytes_eq_flatMap]
  refine ⟨flatMap_encode_lt, fun h => ?_⟩
  rcases lt_trichotomy a b with hlt | rfl | hgt
  · exact hlt
  · exact absurd h (List.lt_irrefl _)
  · exact absurd (flatMap_encode_lt hgt) (List.lt_asymm h)

theorem le_iff_bytes_le {a b : String} : a ≤ b ↔ bytes a ≤ bytes b := by
  rw [← String.not_lt, ← List.not_lt, lt_iff_bytes_lt]

end CodeRisk.Text
