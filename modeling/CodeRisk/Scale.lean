/-!
# Scales

Scores are computed in any numbers that can be added, multiplied, divided, compared and rounded. The
program computes them in floating point; a statement about exact scores speaks of another scale.
-/
namespace CodeRisk

/-- Numbers in which scores are computed. -/
class Scale (ν : Type) extends Add ν, Mul ν, Div ν, LT ν, LE ν, OfScientific ν where
  /-- A count as a number of the scale. -/
  ofNat : Nat → ν
  /-- The nearest whole number; a half goes away from zero. -/
  round : ν → ν
  decidableLT : DecidableLT ν
  decidableLE : DecidableLE ν

attribute [reducible, instance] Scale.decidableLT Scale.decidableLE

instance : Scale Float where
  ofNat := Float.ofNat
  round := Float.round
  decidableLT := inferInstance
  decidableLE := inferInstance

namespace Scale

variable {ν : Type} [Scale ν]

/-- The smaller number; `limit` if the first is none. -/
def atMost (limit x : ν) : ν :=
  if x < limit then x else limit

/-- The number in the range from `low` to `high` that is nearest to `x`. -/
def clamp (low high x : ν) : ν :=
  if x < low then low else if high < x then high else x

/-- The sum of some numbers, from left to right. -/
def sum (xs : List ν) : ν :=
  xs.foldl (· + ·) (ofNat 0)

end Scale

end CodeRisk
