import Mathlib.Data.UInt

/-!
# Counters

Counters are words that wrap around. A counter that holds the word of a number below the limit holds
that number.
-/
namespace CodeRisk
namespace Counter

/-- One more than the largest value of a counter. -/
def limit : Nat := 2 ^ 32

theorem toNat_ofNat_of_lt {n : Nat} (h : n < limit) : (UInt32.ofNat n).toNat = n :=
  UInt32.toNat_ofNat_of_lt' h

theorem ofNat_succ (n : Nat) : UInt32.ofNat n + 1 = UInt32.ofNat (n + 1) := by
  rw [UInt32.ofNat_add]
  rfl

/-- The sum of some counters is the counter of the sum. -/
theorem sum_ofNat {α : Type} (f : α → Nat) (xs : List α) :
    (xs.map fun x => UInt32.ofNat (f x)).sum = .ofNat (xs.map f).sum := by
  induction xs with
  | nil => rfl
  | cons x xs ih =>
    rw [List.map_cons, List.sum_cons, ih, List.map_cons, List.sum_cons, UInt32.ofNat_add]

theorem toNat_max (a b : UInt32) : (max a b).toNat = max a.toNat b.toNat := by
  show (if a ≤ b then b else a).toNat = _
  split
  case isTrue h =>
    rw [UInt32.le_iff_toNat_le] at h
    omega
  case isFalse h =>
    rw [UInt32.le_iff_toNat_le] at h
    omega

theorem max_assoc (a b c : UInt32) : max (max a b) c = max a (max b c) := by
  rw [← UInt32.toNat_inj]
  simp only [toNat_max, Nat.max_assoc]

theorem max_comm (a b : UInt32) : max a b = max b a := by
  rw [← UInt32.toNat_inj, toNat_max, toNat_max, Nat.max_comm]

@[simp] theorem zero_max (a : UInt32) : max 0 a = a := by
  rw [← UInt32.toNat_inj, toNat_max]
  exact Nat.zero_max _

@[simp] theorem max_zero (a : UInt32) : max a 0 = a := by
  rw [max_comm, zero_max]

/-- The largest of some counters, 0 if there is none. -/
def largest (cs : List UInt32) : UInt32 :=
  cs.foldr max 0

@[simp] theorem largest_nil : largest [] = 0 := rfl

@[simp] theorem largest_cons (c : UInt32) (cs : List UInt32) :
    largest (c :: cs) = max c (largest cs) := rfl

theorem largest_append (cs ds : List UInt32) :
    largest (cs ++ ds) = max (largest cs) (largest ds) := by
  induction cs with
  | nil => simp
  | cons c cs ih => rw [List.cons_append, largest_cons, largest_cons, ih, max_assoc]

/-- The order of the counters makes no difference to the largest one. -/
theorem largest_perm {cs ds : List UInt32} (h : cs.Perm ds) : largest cs = largest ds := by
  induction h with
  | nil => rfl
  | cons c _ ih => rw [largest_cons, largest_cons, ih]
  | swap c d cs =>
    simp only [largest_cons]
    rw [← max_assoc, max_comm d c, max_assoc]
  | trans _ _ ih₁ ih₂ => exact ih₁.trans ih₂

end Counter
end CodeRisk
