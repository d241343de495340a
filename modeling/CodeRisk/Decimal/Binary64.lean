/-!
# Binary floating-point numbers

A double is taken apart into its sign, a whole mantissa and a power of two, so that its exact value
can be worked with in whole numbers.
-/
namespace CodeRisk.Decimal

/-- What a double stands for: no number, an infinity, or `mantissa * 2 ^ exponent` with a sign. -/
inductive Binary64 where
  | nan
  | infinite (negative : Bool)
  | finite (negative : Bool) (mantissa : Nat) (exponent : Int)
  deriving DecidableEq, Repr

namespace Binary64

/-- The number with the given bit pattern. -/
def ofBits (bits : UInt64) : Binary64 :=
  let n := bits.toNat
  let negative := n / Nat.pow 2 63 == 1
  let power : Nat := (n / Nat.pow 2 52) % 2048
  let fraction : Nat := n % Nat.pow 2 52
  if power = 2047 then
    if fraction = 0 then infinite negative else nan
  else if power = 0 then finite negative fraction (-1074)
  else finite negative (fraction + Nat.pow 2 52) ((power : Int) - 1075)

/-- The number that a double stands for. -/
def ofFloat (x : Float) : Binary64 :=
  ofBits x.toBits

/-- Numerator and denominator of `m * 2 ^ e`. -/
def ratio (m : Nat) (e : Int) : Nat × Nat :=
  match e with
  | .ofNat k => (m * Nat.pow 2 k, 1)
  | .negSucc k => (m, Nat.pow 2 (k + 1))

end Binary64

/-- The decimal digits of a number. -/
def digits (n : Nat) : List Char :=
  Nat.toDigits 10 n

/-- `n` zeros. -/
def zeros (n : Nat) : List Char :=
  List.replicate n '0'

end CodeRisk.Decimal
