/-!
# Points in time

A point in time in UTC, by the calendar day and the time of day. `Timestamp.parse` reads the
internet date format with any offset; `Timestamp.render` writes it with a mark for UTC.
-/
namespace CodeRisk

/-- A point in time: days since the first of March of the year 0, seconds of that day, and
nanoseconds. In a leap second the nanoseconds reach beyond one second. -/
structure Timestamp where
  day : Int
  second : Nat
  nano : Nat
  deriving DecidableEq, Repr

namespace Timestamp

/-- A calendar date. -/
structure Date where
  year : Int
  month : Nat
  day : Nat
  deriving DecidableEq, Repr

/-- Days before the given month, of a year that begins in March. -/
def daysBefore (m : Nat) : Nat :=
  (153 * m + 2) / 5

/-- The number of a calendar day, counted from the first of March of the year 0. -/
def dayNumber (d : Date) : Int :=
  let y := if d.month ≤ 2 then d.year - 1 else d.year
  let m := (d.month + 9) % 12
  365 * y + y / 4 - y / 100 + y / 400 + daysBefore m + d.day - 1

/-- The calendar day of a number. -/
def dateOf (n : Int) : Date :=
  let era := n / 146097
  let doe := n % 146097
  let yoe := (doe - doe / 1460 + doe / 36524 - doe / 146096) / 365
  let doy := (doe - (365 * yoe + yoe / 4 - yoe / 100)).toNat
  let mp := (5 * doy + 2) / 153
  let month := if mp < 10 then mp + 3 else mp - 9
  { year := yoe + era * 400 + (if month ≤ 2 then 1 else 0)
    month
    day := doy - daysBefore mp + 1 }

/-- Whether a year has 366 days. -/
def isLeap (y : Int) : Bool :=
  y % 4 == 0 && (y % 100 != 0 || y % 400 == 0)

/-- The number of days of a month. -/
def monthLength (y : Int) (m : Nat) : Nat :=
  if m = 2 then if isLeap y then 29 else 28
  else if m = 4 || m = 6 || m = 9 || m = 11 then 30
  else 31

/-- Why a text is no point in time. -/
inductive Fault where
  | outOfRange
  | invalid
  | tooShort
  | tooLong
  deriving DecidableEq, Repr

def Fault.message : Fault → String
  | outOfRange => "input is out of range"
  | invalid => "input contains invalid characters"
  | tooShort => "premature end of input"
  | tooLong => "trailing input"

/-- `n` decimal digits. -/
def takeDigits : Nat → List Char → Except Fault (Nat × List Char)
  | 0, cs => .ok (0, cs)
  | n + 1, cs => do
    match cs with
    | [] => throw .tooShort
    | c :: rest =>
      if c.isDigit then
        let (low, rest) ← takeDigits n rest
        return ((c.toNat - '0'.toNat) * Nat.pow 10 n + low, rest)
      else throw .invalid

/-- One of the given characters. -/
def takeOne (choices : List Char) : List Char → Except Fault (List Char)
  | [] => .error .tooShort
  | c :: rest => if choices.contains c then .ok rest else .error .invalid

/-- The fraction of a second in nanoseconds; digits beyond the ninth are passed over. -/
def takeFraction : List Char → Except Fault (Nat × List Char)
  | '.' :: rest =>
    match rest.takeWhile Char.isDigit with
    | [] => .error (if rest.isEmpty then .tooShort else .invalid)
    | ds =>
      let shown := ds.take 9
      let n := shown.foldl (fun n c => 10 * n + (c.toNat - '0'.toNat)) 0
      .ok (n * Nat.pow 10 (9 - shown.length), rest.dropWhile Char.isDigit)
  | cs => .ok (0, cs)

/-- The offset from UTC in seconds. -/
def takeOffset : List Char → Except Fault (Int × List Char)
  | [] => .error .tooShort
  | 'Z' :: rest | 'z' :: rest => .ok (0, rest)
  | c :: rest => do
    if c != '+' && c != '-' then throw .invalid
    let (h, rest) ← takeDigits 2 rest
    let rest := match rest with
      | ':' :: more => more
      | _ => rest
    let (m, rest) ← takeDigits 2 rest
    if 60 ≤ m then throw .outOfRange
    let n : Int := h * 3600 + m * 60
    if 86400 ≤ n then throw .outOfRange
    return (if c == '-' then -n else n, rest)

/-- Reads a date and time of day with an offset. -/
def parse (text : String) : Except Fault Timestamp := do
  let (y, cs) ← takeDigits 4 text.toList
  let cs ← takeOne ['-'] cs
  let (mo, cs) ← takeDigits 2 cs
  let cs ← takeOne ['-'] cs
  let (d, cs) ← takeDigits 2 cs
  let cs ← takeOne ['T', 't', ' '] cs
  let (h, cs) ← takeDigits 2 cs
  let cs ← takeOne [':'] cs
  let (mi, cs) ← takeDigits 2 cs
  let cs ← takeOne [':'] cs
  let (s, cs) ← takeDigits 2 cs
  let (nano, cs) ← takeFraction cs
  let (offset, cs) ← takeOffset cs
  if !cs.isEmpty then throw .tooLong
  if mo = 0 || 12 < mo || d = 0 || monthLength y mo < d || 23 < h || 59 < mi || 60 < s then
    throw .outOfRange
  let leap := s = 60
  let seconds : Int := h * 3600 + mi * 60 + (if leap then 59 else s) - offset
  return { day := dayNumber ⟨y, mo, d⟩ + seconds / 86400
           second := (seconds % 86400).toNat
           nano := if leap then nano + 1000000000 else nano }

/-- A number with at least `n` digits. -/
def padded (n k : Nat) : String :=
  let ds := Nat.toDigits 10 k
  String.ofList (List.replicate (n - ds.length) '0' ++ ds)

/-- A year; one that does not fit into four digits has a sign. -/
def renderYear (y : Int) : String :=
  if 0 ≤ y && y ≤ 9999 then padded 4 y.toNat
  else (if y < 0 then "-" else "+") ++ padded 4 y.natAbs

/-- The fraction of a second with 3, 6 or 9 digits, as few as will do, or nothing. -/
def renderFraction (nano : Nat) : String :=
  if nano = 0 then ""
  else if nano % 1000000 = 0 then "." ++ padded 3 (nano / 1000000)
  else if nano % 1000 = 0 then "." ++ padded 6 (nano / 1000)
  else "." ++ padded 9 nano

/-- The text of a point in time with the given mark for UTC. -/
def render (mark : String) (t : Timestamp) : String :=
  let d := dateOf t.day
  let second := t.second % 60 + t.nano / 1000000000
  renderYear d.year ++ "-" ++ padded 2 d.month ++ "-" ++ padded 2 d.day ++ "T" ++
    padded 2 (t.second / 3600) ++ ":" ++ padded 2 (t.second / 60 % 60) ++ ":" ++
    padded 2 second ++ renderFraction (t.nano % 1000000000) ++ mark

end Timestamp

end CodeRisk
