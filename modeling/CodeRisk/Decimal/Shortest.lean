import CodeRisk.Decimal.Binary64

/-!
# Shortest decimals

The fewest digits that read back as a given double: of all decimals that round to it, one with the
least number of digits, and of those the nearest. All comparisons are exact.
-/
namespace CodeRisk.Decimal

/-- The decimal `digits * 10 ^ exponent`. -/
structure Scientific where
  digits : Nat
  exponent : Int
  deriving DecidableEq, Repr

namespace Shortest

/-- The decimal order of `num / den`: the power of ten that is just not above it. -/
def order (num den : Nat) : Int :=
  if den ≤ num then ((digits (num / den)).length : Int) - 1
  else
    let k := (digits (den / num)).length
    if den ≤ num * Nat.pow 10 (k - 1) then -((k : Int) - 1) else -(k : Int)

/-- `num / den` scaled by `10 ^ (-p)`, as a fraction. -/
def scale (num den : Nat) (p : Int) : Nat × Nat :=
  match p with
  | .ofNat k => (num, den * Nat.pow 10 k)
  | .negSucc k => (num * Nat.pow 10 (k + 1), den)

/-- Whether `a / b ≤ c / d`, or `<` unless `closed`. -/
def below (closed : Bool) (a b c d : Nat) : Bool :=
  if closed then a * d ≤ c * b else a * d < c * b

/-- The point of the grid of multiples of `10 ^ p` that lies in the interval from `low` to `high`,
both over `den`, and is nearest to `num / den`. Of two equally near ones the even one is taken. -/
def onGrid (num low high den : Nat) (closed : Bool) (p : Int) : Option Nat :=
  let (n, d) := scale num den p
  let (l, _) := scale low den p
  let (h, _) := scale high den p
  let q := n / d
  let inside (x : Nat) : Bool := below closed l d x 1 && below closed x 1 h d
  match inside q, inside (q + 1) with
  | true, true =>
    let down := n - q * d
    let up := (q + 1) * d - n
    if down < up then some q
    else if up < down then some (q + 1)
    else if q % 2 = 0 then some q else some (q + 1)
  | true, false => some q
  | false, true => some (q + 1)
  | false, false => none

/-- The first grid with a hit among those with `n`, `n + 1`, … digits. -/
def search (num low high den : Nat) (closed : Bool) (top : Int) : Nat → Int → Scientific
  | 0, p => ⟨num / den, p⟩
  | fuel + 1, p =>
    match onGrid num low high den closed p with
    | some 0 => search num low high den closed top fuel (p - 1)
    | some q => ⟨q, p⟩
    | none => search num low high den closed top fuel (p - 1)

/-- Drops zeros at the end of the digits. -/
def trim : Nat → Scientific → Scientific
  | 0, s => s
  | fuel + 1, s =>
    if s.digits != 0 && s.digits % 10 = 0 then trim fuel ⟨s.digits / 10, s.exponent + 1⟩ else s

/-- Most digits that a double can need. -/
def maxDigits : Nat := 17

end Shortest

/-- The shortest decimal that rounds to the double `m * 2 ^ e`. -/
def shortest (m : Nat) (e : Int) : Scientific :=
  if m = 0 then ⟨0, 0⟩
  else
    let lowGap := if m = Nat.pow 2 52 && e != -1074 then 1 else 2
    let (num, den) := Binary64.ratio (4 * m) (e - 2)
    let (low, _) := Binary64.ratio (4 * m - lowGap) (e - 2)
    let (high, _) := Binary64.ratio (4 * m + 2) (e - 2)
    let top := Shortest.order num den
    Shortest.trim (Shortest.maxDigits + 3)
      (Shortest.search num low high den (m % 2 == 0) top (Shortest.maxDigits + 1) top)

/-- How a shortest decimal is written. -/
structure Style where
  /-- The point may stand at most so many places behind the first digit. -/
  pointLimit : Option Nat
  /-- At most so many zeros stand between the point and the first digit. -/
  zeroLimit : Option Nat
  /-- Whether whole numbers end in `.0`. -/
  pointAlways : Bool
  nan : String
  infinity : String

namespace Style

/-- Digits without an exponent, whatever their number; whole numbers have no point. -/
def positional : Style := ⟨none, none, false, "NaN", "inf"⟩

/-- Digits without an exponent, whole numbers with `.0`. -/
def pointed : Style := { positional with pointAlways := true }

/-- The notation of data files: an exponent from `1e16` on and below `1e-5`; what is no number is
`null`. -/
def data : Style := ⟨some 16, some 4, true, "null", "null"⟩

/-- Whether a limit, if there is one, is kept. -/
def within (n : Nat) : Option Nat → Bool
  | none => true
  | some limit => n ≤ limit

/-- The text of a decimal without its sign. -/
def unsigned (f : Style) (s : Scientific) : List Char :=
  if s.digits = 0 then if f.pointAlways then ['0', '.', '0'] else ['0']
  else
    let ds := digits s.digits
    let point : Int := ds.length + s.exponent
    let scientific : List Char :=
      let tail := ds.drop 1
      ds.take 1 ++ (if tail.isEmpty then [] else '.' :: tail) ++
        'e' :: (toString (point - 1)).toList
    match point with
    | .ofNat 0 => '0' :: '.' :: ds
    | .ofNat k =>
      if !within k f.pointLimit then scientific
      else if ds.length ≤ k then
        ds ++ zeros (k - ds.length) ++ (if f.pointAlways then ['.', '0'] else [])
      else ds.take k ++ '.' :: ds.drop k
    | .negSucc k =>
      if within (k + 1) f.zeroLimit then '0' :: '.' :: (zeros (k + 1) ++ ds) else scientific

/-- The text of a double. -/
def render (f : Style) (x : Float) : String :=
  let sign (negative : Bool) (s : String) := if negative then "-" ++ s else s
  match Binary64.ofFloat x with
  | .nan => f.nan
  | .infinite negative => sign (negative && f.infinity != "null") f.infinity
  | .finite negative m e => sign negative (String.ofList (f.unsigned (shortest m e)))

end Style

end CodeRisk.Decimal
