import CodeRisk.Decimal.Binary64

/-!
# Fixed decimal places

The exact value of a double rounded to a given number of places; a tie goes to the even neighbour.
-/
namespace CodeRisk.Decimal

/-- `num / den` rounded to the nearest whole number, ties to even. -/
def roundEven (num den : Nat) : Nat :=
  let q := num / den
  let r := num % den
  if 2 * r < den then q
  else if den < 2 * r then q + 1
  else if q % 2 = 0 then q else q + 1

/-- The text of `n / 10 ^ places`. -/
def placed (n places : Nat) : List Char :=
  let ds := digits n
  let padded := zeros (places + 1 - ds.length) ++ ds
  let whole := padded.take (padded.length - places)
  if places = 0 then whole else whole ++ '.' :: padded.drop (padded.length - places)

/-- A double with so many decimal places. The sign of a negative zero is kept. -/
def fixed (places : Nat) (x : Float) : String :=
  match Binary64.ofFloat x with
  | .nan => "NaN"
  | .infinite negative => if negative then "-inf" else "inf"
  | .finite negative m e =>
    let (num, den) := Binary64.ratio m e
    let text := String.ofList (placed (roundEven (num * Nat.pow 10 places) den) places)
    if negative then "-" ++ text else text

end CodeRisk.Decimal
