import CodeRisk.Scale
import Mathlib

/-!
# Counts in floating point

The program computes its scores in doubles. A count below `2 ^ 53` is a double exactly: its mantissa
is the count, moved up to 53 bits (`FloatScale.exists_ofNat_eq`). Such a mantissa goes through
packing and rounding unchanged (`FloatScale.unpack_pack`, `FloatScale.roundWithAccuracy_eq`). So a
share of all there is is one, with nothing lost to rounding (`FloatScale.ofNat_div_self`).
-/
namespace CodeRisk.FloatScale
open Float.Model Float.Model.UnpackedFloat

/-! ## Rounding -/

theorem targetExponent_eq (t : Int) :
    Format.binary64.targetExponent t = max (t - 53) (-1074) := rfl

theorem log2_mul_two_pow {m : Nat} (hm : 0 < m) (k : Nat) : (m * 2 ^ k).log2 = m.log2 + k := by
  have hne : m * 2 ^ k ≠ 0 := Nat.mul_ne_zero hm.ne' (Nat.two_pow_pos k).ne'
  obtain ⟨hlow, hhigh⟩ := (Nat.log2_eq_iff hm.ne').mp rfl
  refine (Nat.log2_eq_iff hne).mpr ⟨?_, ?_⟩
  · rw [Nat.pow_add]
    exact Nat.mul_le_mul_right _ hlow
  · rw [Nat.add_right_comm, Nat.pow_add]
    exact Nat.mul_lt_mul_of_pos_right hhigh (Nat.two_pow_pos k)

/-- Zeros at the end of a mantissa are shifted out without a trace. -/
theorem shiftRight_exact (m k : Nat) :
    ExtendedMantissa.ofMantissaAndAccuracy (m * 2 ^ k) .exact >>> k = ⟨m, false, false⟩ := by
  have hshift (j : Nat) (hj : j ≤ k) :
      ExtendedMantissa.ofMantissaAndAccuracy (m * 2 ^ k) .exact >>> j =
        ⟨m * 2 ^ (k - j), false, false⟩ := by
    induction j with
    | zero => rfl
    | succ j ih =>
      have hpow : m * 2 ^ (k - j) = m * 2 ^ (k - (j + 1)) * 2 := by
        rw [Nat.mul_assoc, ← Nat.pow_succ]
        congr 2
        omega
      show ExtendedMantissa.shiftRightOne
        (ExtendedMantissa.ofMantissaAndAccuracy (m * 2 ^ k) .exact >>> j) = _
      rw [ih (by omega), hpow]
      simp [ExtendedMantissa.shiftRightOne]
  simpa using hshift k le_rfl

/-- **Rounding keeps a mantissa of 53 bits**, whatever number of zeros follows it. -/
theorem roundWithAccuracy_eq (s : Sign) {m : Nat} {e : Int} (hm : m.log2 = 52) (hpos : 0 < m)
    (he : -1074 ≤ e) (k : Nat) :
    roundWithAccuracy Format.binary64 s (m * 2 ^ k) (e - k) .exact = .finite s m e hpos := by
  have htarget (j : Nat) :
      Format.binary64.targetExponent (totalExponent (m * 2 ^ j) (e - j)) = e := by
    rw [targetExponent_eq, totalExponent, log2_mul_two_pow hpos, hm]
    omega
  have hshift (j : Nat) :
      shiftToTargetExponent Format.binary64 (m * 2 ^ j) (e - j) .exact =
        (⟨m, false, false⟩, e) := by
    have hamount : (e - (e - (j : Int))).toNat = j := by omega
    rw [shiftToTargetExponent, htarget, shiftToExponent, hamount, shiftRight_exact,
      Int.sub_add_cancel]
  -- the second shift is there for a mantissa that has grown, which this one has not
  have hkept : shiftToTargetExponent Format.binary64 m e .exact = (⟨m, false, false⟩, e) := by
    simpa using hshift 0
  have hrounded : ExtendedMantissa.roundedMantissa ⟨m, false, false⟩ = m := rfl
  simp only [roundWithAccuracy, hshift, hrounded, hkept]
  exact dif_neg hpos.ne'

/-! ## Packing -/

/-- The first bit of a mantissa of 53 bits is not stored, and it is put back. -/
theorem toNat_one_append {m : Nat} (hm : m.log2 = 52) (hpos : 0 < m) :
    (1#1 ++ BitVec.ofNat 52 m).toNat = m := by
  obtain ⟨hlow, hhigh⟩ := (Nat.log2_eq_iff hpos.ne').mp hm
  have hrest : m % 2 ^ 52 < 2 ^ 52 := Nat.mod_lt _ (Nat.two_pow_pos _)
  rw [BitVec.toNat_append, BitVec.toNat_ofNat, BitVec.toNat_ofNat,
    ← Nat.shiftLeft_add_eq_or_of_lt hrest, Nat.shiftLeft_eq]
  omega

theorem pack_eq (s : Sign) {m : Nat} {e : Int} (hm : m.log2 = 52) (hpos : 0 < m)
    (hlow : -1074 ≤ e) (hhigh : e ≤ 971) :
    UnpackedFloat.pack Format.binary64 (.finite s m e hpos) =
      packComponents Format.binary64 s (BitVec.ofNat 11 (e + 1075).toNat) (BitVec.ofNat 52 m) := by
  have hexponent : (e + 1023 + 52).toNat = (e + 1075).toNat := by omega
  have hfits : ¬ 2 ^ 11 ≤ (e + 1023 + 52).toNat + 1 := by omega
  have hbits : m.log2 + 1 = Format.binary64.mantissaBits := by
    rw [hm]
    rfl
  rw [← hexponent]
  show (if 2 ^ 11 ≤ (e + 1023 + 52).toNat + 1 then _
    else if m.log2 + 1 = Format.binary64.mantissaBits then _ else _) = _
  rw [if_neg hfits, if_pos hbits]
  rfl

/-- **Packing keeps a number** with a mantissa of 53 bits and an exponent within bounds. -/
theorem unpack_pack (s : Sign) {m : Nat} {e : Int} (hm : m.log2 = 52) (hpos : 0 < m)
    (hlow : -1074 ≤ e) (hhigh : e ≤ 971) :
    (Float.Model.pack (.finite s m e hpos)).unpack = .finite s m e hpos := by
  have hexponent : (BitVec.ofNat 11 (e + 1075).toNat).toNat = (e + 1075).toNat := by
    rw [BitVec.toNat_ofNat]
    omega
  have hfinite : BitVec.ofNat 11 (e + 1075).toNat ≠ -1#11 := by
    rw [← BitVec.toNat_inj.ne, hexponent]
    show (e + 1075).toNat ≠ 2047
    omega
  have hnormal : BitVec.ofNat 11 (e + 1075).toNat ≠ 0#11 := by
    rw [← BitVec.toNat_inj.ne, hexponent]
    show (e + 1075).toNat ≠ 0
    omega
  have hunbiased : ((e + 1075).toNat : Int) - ((1023 : Nat) + (52 : Nat)) = e := by omega
  show UnpackedFloat.unpack Format.binary64
    (UnpackedFloat.pack Format.binary64 (.finite s m e hpos)) = _
  rw [pack_eq s hm hpos hlow hhigh, UnpackedFloat.unpack]
  simp only [unpackExponent_packComponents, unpackMantissa_packComponents,
    unpackSign_packComponents]
  rw [if_neg hfinite, if_neg hnormal, finite.injEq, hexponent]
  exact ⟨Sign.ofBitVec_toBitVec s, toNat_one_append hm hpos, hunbiased⟩

/-! ## Counts -/

/-- A count as a number: its mantissa is the count, moved up to 53 bits. -/
theorem exists_ofNat_eq {n : Nat} (hpos : 0 < n) (hn : n < 2 ^ 53) :
    ∃ m e, ∃ h : 0 < m, m.log2 = 52 ∧ -52 ≤ e ∧ e ≤ 0 ∧
      UnpackedFloat.ofNat Format.binary64 n = .finite .positive m e h := by
  have hlog : n.log2 < 53 := (Nat.log2_lt hpos.ne').mpr hn
  have hm : (n * 2 ^ (52 - n.log2)).log2 = 52 := by
    rw [log2_mul_two_pow hpos]
    omega
  have hmpos : 0 < n * 2 ^ (52 - n.log2) := Nat.mul_pos hpos (Nat.two_pow_pos _)
  have htarget : Format.binary64.targetExponent (totalExponent n 0) = (n.log2 : Int) - 52 := by
    rw [targetExponent_eq, totalExponent]
    omega
  have hamount : (0 - ((n.log2 : Int) - 52)).toNat = 52 - n.log2 := by omega
  have hexponent : (0 : Int) - (52 - n.log2 : Nat) = (n.log2 : Int) - 52 := by omega
  have hround := roundWithAccuracy_eq .positive hm hmpos (e := (n.log2 : Int) - 52) (by omega) 0
  refine ⟨_, (n.log2 : Int) - 52, hmpos, hm, by omega, by omega, ?_⟩
  rw [UnpackedFloat.ofNat, UnpackedFloat.ofInt, UnpackedFloat.normalize,
    Int.compare_eq_gt.mpr (by omega)]
  simp only [UnpackedFloat.round, Int.toNat_natCast, htarget, decreaseExponent, hamount, hexponent,
    Nat.shiftLeft_eq]
  simpa using hround

/-- The bits of the number one. -/
def oneBits : UInt64 := 0x3FF0000000000000

theorem unpack_oneBits :
    (Float.Model.ofBits oneBits).unpack =
      .finite .positive (2 ^ 52) (-52) (Nat.two_pow_pos 52) := rfl

/-- A count is converted as a word and multiplied by one. -/
theorem toModel_ofNat {n : Nat} (hn : n < 2 ^ 53) :
    (Float.ofNat n).toModel = Float.Model.ofNat n * Float.Model.ofBits oneBits := by
  have hword : n.toUInt64.toNat = n := Nat.mod_eq_of_lt (by omega)
  show (Float.ofScientific n false 0).toModel = _
  rw [Float.ofScientific, dif_pos ⟨hn, by omega⟩]
  show Float.Model.ofNat n.toUInt64.toNat * _ = _
  rw [hword]
  rfl

theorem exists_unpack_ofNat_eq {n : Nat} (hpos : 0 < n) (hn : n < 2 ^ 53) :
    ∃ m e, ∃ h : 0 < m, (Float.ofNat n).toModel.unpack = .finite .positive m e h := by
  obtain ⟨m, e, hm, hlog, hlow, hhigh, hcount⟩ := exists_ofNat_eq hpos hn
  have hpacked : (Float.Model.pack (.finite .positive m e hm)).unpack =
      .finite .positive m e hm :=
    unpack_pack .positive hlog hm (by omega) (by omega)
  have hword : (Float.Model.ofNat n).unpack = .finite .positive m e hm := by
    rw [Float.Model.ofNat, hcount]
    exact hpacked
  have hproduct : UnpackedFloat.mul Format.binary64 (.finite .positive m e hm)
      (.finite .positive (2 ^ 52) (-52) (Nat.two_pow_pos 52)) = .finite .positive m e hm :=
    roundWithAccuracy_eq .positive hlog hm (by omega) 52
  refine ⟨m, e, hm, ?_⟩
  rw [toModel_ofNat hn]
  show (Float.Model.pack (UnpackedFloat.mul Format.binary64 (Float.Model.ofNat n).unpack
    (Float.Model.ofBits oneBits).unpack)).unpack = _
  rw [hword, unpack_oneBits, hproduct]
  exact hpacked

/-- A finite number other than zero, divided by itself, is one. -/
theorem div_self_of_finite {m : Nat} {e : Int} (h : 0 < m) :
    UnpackedFloat.div Format.binary64 (.finite .positive m e h) (.finite .positive m e h) =
      .finite .positive (2 ^ 52) (-52) (Nat.two_pow_pos 52) := by
  have htarget : min (e - e) (Format.binary64.targetExponent
      (totalExponent m e - totalExponent m e)) = -53 := by
    rw [targetExponent_eq]
    omega
  have hamount : (e - e - (-53 : Int)).toNat = 53 := by omega
  have hcore : divCore Format.binary64 m e m e = (2 ^ 53, -53, .exact) := by
    rw [divCore, htarget, hamount, Nat.shiftLeft_eq, Nat.mul_div_cancel_left _ h,
      Nat.mul_mod_right]
    rfl
  have hround : roundWithAccuracy Format.binary64 .positive (2 ^ 52 * 2 ^ 1) (-52 - (1 : Nat))
      .exact = .finite .positive (2 ^ 52) (-52) (Nat.two_pow_pos 52) :=
    roundWithAccuracy_eq .positive Nat.log2_two_pow (Nat.two_pow_pos 52) (by omega) 1
  show (let (m, e, acc) := divCore Format.binary64 m e m e
    roundWithAccuracy Format.binary64 .positive m e acc) = _
  rw [hcore]
  exact hround

/-- **A count divided by itself is one.** -/
theorem ofNat_div_self {n : Nat} (hpos : 0 < n) (hn : n < 2 ^ 53) :
    Float.ofNat n / Float.ofNat n = 1.0 := by
  obtain ⟨m, e, h, hunpack⟩ := exists_unpack_ofNat_eq hpos hn
  show Float.ofModel (.pack (UnpackedFloat.div Format.binary64 (Float.ofNat n).toModel.unpack
    (Float.ofNat n).toModel.unpack)) = _
  rw [hunpack, div_self_of_finite h]
  rfl

end CodeRisk.FloatScale
