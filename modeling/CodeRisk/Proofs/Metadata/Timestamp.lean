import CodeRisk.Metadata.Timestamp
import Mathlib.Algebra.Ring.Nat

/-!
# Texts of points in time

The text of a point in time says all about it: two points in time on the calendar with the same text
are the same (`Timestamp.render_injective`). The text is a list of numbers with a mark behind each,
so it is taken apart from the left; days and dates correspond to each other
(`Timestamp.dayNumber_dateOf`).
-/
namespace CodeRisk.Timestamp

/-! ## Days and dates -/

/-- The days of 400 years in centuries, periods of four years and a rest. -/
theorem exists_cycles {doe : Int} (hlow : 0 ≤ doe) (hhigh : doe < 146097) :
    ∃ k q s, doe = 36524 * k + 1461 * q + s ∧ k = doe / 36524 - doe / 146096 ∧
      (0 ≤ k ∧ k ≤ 3) ∧ (0 ≤ q ∧ q ≤ 24) ∧ 0 ≤ s ∧ s ≤ 1460 := by
  have hcentury : 0 ≤ doe / 36524 - doe / 146096 ∧ doe / 36524 - doe / 146096 ≤ 3 ∧
      0 ≤ doe - 36524 * (doe / 36524 - doe / 146096) ∧
      doe - 36524 * (doe / 36524 - doe / 146096) ≤ 36524 := by omega
  generalize doe / 36524 - doe / 146096 = k at hcentury
  exact ⟨k, (doe - 36524 * k) / 1461, (doe - 36524 * k) % 1461, by omega, rfl, by omega, by omega,
    by omega⟩

/-- The rest has at most three full years before its day. -/
theorem exists_year {k q s : Int} (hk : 0 ≤ k ∧ k ≤ 3) (hq : 0 ≤ q ∧ q ≤ 24)
    (hs : 0 ≤ s ∧ s ≤ 1460) :
    ∃ t, (36524 * k + 1461 * q + s - (36524 * k + 1461 * q + s) / 1460 + k) / 365 =
        100 * k + 4 * q + t ∧
      (0 ≤ t ∧ t ≤ 3) ∧ 365 * t ≤ s ∧ s ≤ 365 * t + 365 := by
  have hshort : (36524 * k + 1461 * q + s) / 1460 = 25 * k + q + (24 * k + q + s) / 1460 := by omega
  have hlate : 0 ≤ (24 * k + q + s) / 1460 ∧ (24 * k + q + s) / 1460 ≤ 1 ∧
      (s = 1460 → 1 ≤ (24 * k + q + s) / 1460) ∧ (1 ≤ (24 * k + q + s) / 1460 → 365 ≤ s) := by
    omega
  rw [hshort]
  generalize (24 * k + q + s) / 1460 = d at hlate
  exact ⟨(s - d) / 365, by omega, by omega, by omega, by omega⟩

theorem leapDays_eq {k q t : Int} (hq : 0 ≤ q ∧ q ≤ 24) (ht : 0 ≤ t ∧ t ≤ 3) :
    (100 * k + 4 * q + t) / 4 - (100 * k + 4 * q + t) / 100 = 24 * k + q := by
  have hfour : (100 * k + 4 * q + t) / 4 = 25 * k + q := by omega
  have hhundred : (100 * k + 4 * q + t) / 100 = k := by omega
  rw [hfour, hhundred]
  omega

/-- The year that a day of 400 years lies in begins at most 365 days before. -/
theorem day_spec {doe yoe : Int} (hlow : 0 ≤ doe) (hhigh : doe < 146097)
    (h : yoe = (doe - doe / 1460 + doe / 36524 - doe / 146096) / 365) :
    (0 ≤ yoe ∧ yoe < 400) ∧ 365 * yoe + yoe / 4 - yoe / 100 ≤ doe ∧
      doe ≤ 365 * yoe + yoe / 4 - yoe / 100 + 365 := by
  obtain ⟨k, q, s, hdoe, hcentury, hk, hq, hs⟩ := exists_cycles hlow hhigh
  obtain ⟨t, hyear, ht, hdays⟩ := exists_year hk hq hs
  rw [Int.add_sub_assoc, ← hcentury, hdoe, hyear] at h
  rw [Int.add_sub_assoc, h, leapDays_eq hq ht, hdoe]
  clear h hyear hcentury hdoe hlow hhigh
  omega

/-- The date of a day of a month, in a year that begins in March. -/
def dateIn (y : Int) (mp d : Nat) : Date :=
  let month := if mp < 10 then mp + 3 else mp - 9
  ⟨y + if month ≤ 2 then 1 else 0, month, d⟩

theorem dayNumber_dateIn {y : Int} {mp d : Nat} (h : mp < 12) :
    dayNumber (dateIn y mp d) = 365 * y + y / 4 - y / 100 + y / 400 + daysBefore mp + d - 1 := by
  by_cases hlate : mp < 10
  · have hmonth : ¬ mp + 3 ≤ 2 := by omega
    have hback : (mp + 3 + 9) % 12 = mp := by omega
    simp only [dayNumber, dateIn, if_pos hlate, if_neg hmonth, hback, Int.add_zero]
  · have hmonth : mp - 9 ≤ 2 := by omega
    have hback : (mp - 9 + 9) % 12 = mp := by omega
    simp only [dayNumber, dateIn, if_neg hlate, if_pos hmonth, hback, Int.add_sub_cancel]

theorem eraDays_eq (era : Int) {yoe : Int} (h : 0 ≤ yoe ∧ yoe < 400) :
    365 * yoe + 365 * (era * 400) + (yoe + era * 400) / 4 - (yoe + era * 400) / 100 +
      (yoe + era * 400) / 400 = 146097 * era + (365 * yoe + yoe / 4 - yoe / 100) := by
  have hfour : (yoe + era * 400) / 4 = yoe / 4 + 100 * era := by omega
  have hhundred : (yoe + era * 400) / 100 = yoe / 100 + 4 * era := by omega
  have hall : (yoe + era * 400) / 400 = era := by omega
  rw [hfour, hhundred, hall]
  omega

/-- **Each day has a date of its own**: its number is found again from the date. -/
theorem dayNumber_dateOf (n : Int) : dayNumber (dateOf n) = n := by
  have hera : n = 146097 * (n / 146097) + n % 146097 := (Int.mul_ediv_add_emod n 146097).symm
  have hlow : 0 ≤ n % 146097 := Int.emod_nonneg n (by decide)
  have hhigh : n % 146097 < 146097 := Int.emod_lt_of_pos n (by decide)
  generalize hdoe : n % 146097 = doe at hera hlow hhigh
  obtain ⟨yoe, hyoe⟩ :
      ∃ yoe, yoe = (doe - doe / 1460 + doe / 36524 - doe / 146096) / 365 := ⟨_, rfl⟩
  obtain ⟨hyears, hday, hlast⟩ := day_spec hlow hhigh hyoe
  obtain ⟨doy, hdoy⟩ := Int.eq_ofNat_of_zero_le (Int.sub_nonneg_of_le hday)
  have hdate : dateOf n = dateIn (yoe + n / 146097 * 400) ((5 * doy + 2) / 153)
      (doy - daysBefore ((5 * doy + 2) / 153) + 1) := by
    simp only [dateOf, hdoe, ← hyoe, hdoy]
    rfl
  have hmonth : (5 * doy + 2) / 153 < 12 := by omega
  have hfirst : daysBefore ((5 * doy + 2) / 153) ≤ doy := by
    rw [daysBefore]
    omega
  rw [hdate, dayNumber_dateIn hmonth]
  generalize daysBefore ((5 * doy + 2) / 153) = before at hfirst
  clear hmonth hdate hyoe hdoe
  generalize n / 146097 = era at hera
  rw [Int.mul_add, eraDays_eq era hyears]
  omega

/-! ## Numbers and marks -/

section Digits
variable {ds es : List Char} {c d : Char} {r s : List Char} {n k l : Nat}

/-- A number ends where the digits end. -/
theorem split_digits (hds : ∀ x ∈ ds, x.isDigit) (hes : ∀ x ∈ es, x.isDigit)
    (hc : c.isDigit = false) (hd : d.isDigit = false) (h : ds ++ c :: r = es ++ d :: s) :
    ds = es ∧ c = d ∧ r = s := by
  have htake {xs : List Char} {x : Char} (rest : List Char) (hxs : ∀ y ∈ xs, y.isDigit)
      (hx : x.isDigit = false) : (xs ++ x :: rest).takeWhile Char.isDigit = xs := by
    rw [List.takeWhile_append_of_pos hxs, List.takeWhile_cons, hx]
    simp
  have heq : ds = es := by
    rw [← htake r hds hc, h, htake s hes hd]
  subst heq
  obtain ⟨hcd, hrs⟩ := List.cons.inj (List.append_cancel_left h)
  exact ⟨rfl, hcd, hrs⟩

theorem toList_padded :
    (padded n k).toList =
      List.replicate (n - (Nat.toDigits 10 k).length) '0' ++ Nat.toDigits 10 k := by
  rw [padded, String.toList_ofList]

theorem isDigit_of_mem_padded : ∀ x ∈ (padded n k).toList, x.isDigit := by
  rw [toList_padded]
  intro x hx
  obtain hx | hx := List.mem_append.mp hx
  · obtain ⟨-, rfl⟩ := List.mem_replicate.mp hx
    rfl
  · exact Nat.isDigit_of_mem_toDigits (by decide) (by decide) hx

theorem ofDigitChars_padded : Nat.ofDigitChars 10 (padded n k).toList 0 = k := by
  rw [toList_padded, Nat.ofDigitChars_append, Nat.ofDigitChars_replicate_zero, Nat.mul_zero,
    Nat.ofDigitChars_ten_toDigits]

theorem padded_inj (h : (padded n k).toList = (padded n l).toList) : k = l := by
  rw [← ofDigitChars_padded (n := n) (k := k), h, ofDigitChars_padded]

theorem length_padded (hn : 0 < n) (hk : k < 10 ^ n) : (padded n k).toList.length = n := by
  have hlength := (Nat.length_toDigits_le_iff (by decide) hn).mpr hk
  rw [toList_padded, List.length_append, List.length_replicate]
  omega

theorem padded_ne_nil : (padded n k).toList ≠ [] := by
  rw [toList_padded]
  exact List.append_ne_nil_of_right_ne_nil _ Nat.toDigits_ne_nil

/-- A number with a mark behind it is read off the text. -/
theorem padded_append_inj (hc : c.isDigit = false) (hd : d.isDigit = false)
    (h : (padded n k).toList ++ c :: r = (padded n l).toList ++ d :: s) :
    k = l ∧ c = d ∧ r = s := by
  obtain ⟨hkl, hcd, hrs⟩ := split_digits isDigit_of_mem_padded isDigit_of_mem_padded hc hd h
  exact ⟨padded_inj hkl, hcd, hrs⟩

end Digits

/-! ## Years -/

/-- The sign of a year. -/
def yearSign (y : Int) : List Char :=
  if 0 ≤ y ∧ y ≤ 9999 then [] else if y < 0 then ['-'] else ['+']

theorem toList_renderYear (y : Int) :
    (renderYear y).toList = yearSign y ++ (padded 4 y.natAbs).toList := by
  by_cases hplain : 0 ≤ y ∧ y ≤ 9999
  · have habs : y.toNat = y.natAbs := by omega
    simp [renderYear, yearSign, hplain, habs]
  · by_cases hneg : y < 0
    · simp [renderYear, yearSign, hplain, hneg]
    · simp [renderYear, yearSign, hplain, hneg]

theorem yearSign_eq_minus_iff {y : Int} : yearSign y = ['-'] ↔ y < 0 := by
  unfold yearSign
  split
  case isTrue h => simpa using h.1
  case isFalse => split <;> simp_all

def isSign (c : Char) : Bool := c == '-' || c == '+'

/-- The sign of a year ends where its digits begin. -/
theorem takeWhile_isSign (y : Int) (n k : Nat) (r : List Char) :
    (yearSign y ++ ((padded n k).toList ++ r)).takeWhile isSign = yearSign y := by
  obtain ⟨c, cs, hcs⟩ := List.exists_cons_of_ne_nil (padded_ne_nil (n := n) (k := k))
  have hdigit : c.isDigit := isDigit_of_mem_padded c (by rw [hcs]; exact List.mem_cons_self)
  have hc : isSign c = false := by
    rw [isSign, Bool.or_eq_false_iff, beq_eq_false_iff_ne, beq_eq_false_iff_ne]
    constructor <;> (rintro rfl; cases hdigit)
  have hsign : ∀ x ∈ yearSign y, isSign x := by
    unfold yearSign
    split
    · simp
    · split <;> simp [isSign]
  rw [List.takeWhile_append_of_pos hsign, hcs, List.cons_append, List.takeWhile_cons, hc]
  simp

theorem renderYear_append_inj {y z : Int} {r s : List Char}
    (h : (renderYear y).toList ++ '-' :: r = (renderYear z).toList ++ '-' :: s) :
    y = z ∧ r = s := by
  rw [toList_renderYear, toList_renderYear, List.append_assoc, List.append_assoc] at h
  have hsign : yearSign y = yearSign z := by
    rw [← takeWhile_isSign y, h, takeWhile_isSign]
  rw [hsign] at h
  obtain ⟨habs, -, hrest⟩ := padded_append_inj rfl rfl (List.append_cancel_left h)
  have hneg : y < 0 ↔ z < 0 := by
    rw [← yearSign_eq_minus_iff, ← yearSign_eq_minus_iff, hsign]
  exact ⟨by omega, hrest⟩

/-! ## Fractions -/

/-- The nanoseconds that a fraction stands for. -/
def fractionValue : List Char → Nat
  | [] => 0
  | _ :: ds => Nat.ofDigitChars 10 ds 0 * 10 ^ (9 - ds.length)

theorem fractionValue_render {nano : Nat} (h : nano < 10 ^ 9) :
    fractionValue (renderFraction nano).toList = nano := by
  have hdigits {n k : Nat} (hn : 0 < n) (hk : k < 10 ^ n) :
      fractionValue ("." ++ padded n k).toList = k * 10 ^ (9 - n) := by
    rw [String.toList_append, show ".".toList = ['.'] from rfl, List.singleton_append,
      fractionValue, ofDigitChars_padded, length_padded hn hk]
  unfold renderFraction
  split
  case isTrue hzero =>
    rw [hzero]
    rfl
  case isFalse =>
    split
    case isTrue hmillis =>
      rw [hdigits (by decide) (by omega)]
      omega
    case isFalse =>
      split
      case isTrue hmicros =>
        rw [hdigits (by decide) (by omega)]
        omega
      case isFalse =>
        rw [hdigits (by decide) h]
        omega

/-! ## Points in time -/

/-- On the calendar: the second is one of the day, and only the last second of a minute may be
followed by a leap second. -/
def IsValid (t : Timestamp) : Prop :=
  t.second < 86400 ∧ (t.nano < 10 ^ 9 ∨ t.second % 60 = 59 ∧ t.nano < 2 * 10 ^ 9)

instance (t : Timestamp) : Decidable t.IsValid :=
  inferInstanceAs (Decidable (_ ∧ _))

/-- The text up to the fraction, and the rest. -/
theorem toList_render (mark : String) (t : Timestamp) :
    (t.render mark).toList =
      (renderYear (dateOf t.day).year).toList ++ '-' ::
        ((padded 2 (dateOf t.day).month).toList ++ '-' ::
          ((padded 2 (dateOf t.day).day).toList ++ 'T' ::
            ((padded 2 (t.second / 3600)).toList ++ ':' ::
              ((padded 2 (t.second / 60 % 60)).toList ++ ':' ::
                ((padded 2 (t.second % 60 + t.nano / 1000000000)).toList ++
                  ((renderFraction (t.nano % 1000000000)).toList ++ mark.toList)))))) := by
  simp [render, String.toList_append]

/-- What follows the seconds begins with a mark. -/
theorem exists_mark {mark : String} {c : Char} {cs : List Char} (hmark : mark.toList = c :: cs)
    (hc : c.isDigit = false) (nano : Nat) :
    ∃ d ds, (renderFraction nano).toList ++ mark.toList = d :: ds ∧ d.isDigit = false := by
  have hpoint (digits : String) : ∃ d ds, ("." ++ digits).toList ++ mark.toList = d :: ds ∧
      d.isDigit = false :=
    ⟨'.', digits.toList ++ mark.toList, by simp [String.toList_append], rfl⟩
  unfold renderFraction
  split
  case isTrue => exact ⟨c, cs, hmark, hc⟩
  case isFalse =>
    split
    case isTrue => exact hpoint _
    case isFalse => split <;> exact hpoint _

/-- **The text of a point in time** says which one it is. -/
theorem render_injective {mark : String} {c : Char} {cs : List Char}
    (hmark : mark.toList = c :: cs) (hc : c.isDigit = false) {t u : Timestamp} (ht : t.IsValid)
    (hu : u.IsValid) (h : t.render mark = u.render mark) : t = u := by
  have htext := congrArg String.toList h
  rw [toList_render, toList_render] at htext
  obtain ⟨hyear, htext⟩ := renderYear_append_inj htext
  obtain ⟨hmonth, -, htext⟩ := padded_append_inj rfl rfl htext
  obtain ⟨hday, -, htext⟩ := padded_append_inj rfl rfl htext
  obtain ⟨hhour, -, htext⟩ := padded_append_inj rfl rfl htext
  obtain ⟨hminute, -, htext⟩ := padded_append_inj rfl rfl htext
  obtain ⟨d, ds, hd, hdigit⟩ := exists_mark hmark hc (t.nano % 1000000000)
  obtain ⟨e, es, he, hdigit'⟩ := exists_mark hmark hc (u.nano % 1000000000)
  rw [hd, he] at htext
  obtain ⟨hsecond, rfl, rfl⟩ := padded_append_inj hdigit hdigit' htext
  have hfraction : t.nano % 1000000000 = u.nano % 1000000000 := by
    have hlt (n : Nat) : n % 1000000000 < 10 ^ 9 := Nat.mod_lt n (by decide)
    have htail := List.append_cancel_right (hd.trans he.symm)
    rw [← fractionValue_render (hlt t.nano), htail, fractionValue_render (hlt u.nano)]
  have hdate : dateOf t.day = dateOf u.day := by
    rw [Date.mk.injEq]
    exact ⟨hyear, hmonth, hday⟩
  obtain ⟨day, second, nano⟩ := t
  obtain ⟨day', second', nano'⟩ := u
  obtain rfl : day = day' := by
    rw [← dayNumber_dateOf day, hdate, dayNumber_dateOf]
  simp only [IsValid] at *
  -- a second of 60 is that of a leap second
  obtain ⟨rfl, rfl⟩ : second = second' ∧ nano = nano' := by omega
  rfl

end CodeRisk.Timestamp
