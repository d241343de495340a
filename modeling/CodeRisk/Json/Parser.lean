import CodeRisk.Json.Value

/-!
# Reading JSON text

A reader for JSON by recursive descent on the characters. Each step consumes a character, so the
length of the text bounds the recursion.
-/
namespace CodeRisk.Json.Parser

/-- Drops blank characters. -/
def skipBlank (cs : List Char) : List Char :=
  cs.dropWhile fun c => c == ' ' || c == '\t' || c == '\n' || c == '\r'

/-- The value of a hexadecimal digit. -/
def hexValue? (c : Char) : Option Nat :=
  if c.isDigit then some (c.toNat - '0'.toNat)
  else if 'a' ≤ c && c ≤ 'f' then some (c.toNat - 'a'.toNat + 10)
  else if 'A' ≤ c && c ≤ 'F' then some (c.toNat - 'A'.toNat + 10)
  else none

/-- Four hexadecimal digits. -/
def unit? : List Char → Option (Nat × List Char)
  | a :: b :: c :: d :: rest => do
    let a ← hexValue? a
    let b ← hexValue? b
    let c ← hexValue? c
    let d ← hexValue? d
    some (((a * 16 + b) * 16 + c) * 16 + d, rest)
  | _ => none

/-- The character of an escape of one letter. -/
def escaped? : Char → Option Char
  | '"' => some '"'
  | '\\' => some '\\'
  | '/' => some '/'
  | 'b' => some '\x08'
  | 'f' => some '\x0c'
  | 'n' => some '\n'
  | 'r' => some '\r'
  | 't' => some '\t'
  | _ => none

/-- The character written as `\u` escapes; two of them may form a pair. -/
def codePoint? (cs : List Char) : Option (Char × List Char) := do
  let (n, rest) ← unit? cs
  if 0xD800 ≤ n && n < 0xDC00 then
    match rest with
    | '\\' :: 'u' :: more =>
      let (m, rest) ← unit? more
      if 0xDC00 ≤ m && m < 0xE000 then
        some (Char.ofNat (0x10000 + (n - 0xD800) * 0x400 + (m - 0xDC00)), rest)
      else none
    | _ => none
  else if 0xDC00 ≤ n && n < 0xE000 then none
  else some (Char.ofNat n, rest)

/-- The rest of a string behind its opening quote; `read` holds the characters so far, the newest
first. -/
def string? : Nat → List Char → List Char → Option (String × List Char)
  | 0, _, _ => none
  | fuel + 1, read, cs =>
    match cs with
    | [] => none
    | '"' :: rest => some (String.ofList read.reverse, rest)
    | '\\' :: 'u' :: rest => do
      let (c, rest) ← codePoint? rest
      string? fuel (c :: read) rest
    | '\\' :: c :: rest => do
      let c ← escaped? c
      string? fuel (c :: read) rest
    | c :: rest => if c.toNat < 32 then none else string? fuel (c :: read) rest

/-- The number that decimal digits stand for. -/
def number (ds : List Char) : Nat :=
  ds.foldl (fun n c => 10 * n + (c.toNat - '0'.toNat)) 0

/-- A sign before a number: whether it is a minus, and what follows. -/
def sign : List Char → Bool × List Char
  | '-' :: rest => (true, rest)
  | cs => (false, cs)

/-- The exponent of a number, 0 if there is none. -/
def exponent? : List Char → Option (Int × List Char)
  | c :: rest =>
    if c == 'e' || c == 'E' then
      let (negative, rest) := match rest with
        | '+' :: more => (false, more)
        | '-' :: more => (true, more)
        | _ => (false, rest)
      match rest.takeWhile Char.isDigit with
      | [] => none
      | ds => some (if negative then -(number ds : Int) else number ds, rest.dropWhile Char.isDigit)
    else some (0, c :: rest)
  | [] => some (0, [])

/-- The double nearest to `m * 10 ^ e`. -/
def toDouble (negative : Bool) (m : Nat) (e : Int) : Float :=
  let x := match e with
    | .ofNat k => Float.ofScientific m false k
    | .negSucc k => Float.ofScientific m true (k + 1)
  if negative then -x else x

/-- Largest whole number that stays a whole number. -/
def largestInteger : Nat := Nat.pow 2 64 - 1

/-- A number. -/
def number? (cs : List Char) : Option (Json × List Char) :=
  let (negative, cs) := sign cs
  let whole := cs.takeWhile Char.isDigit
  let rest := cs.dropWhile Char.isDigit
  if whole.isEmpty || (whole.length != 1 && whole.head? == some '0') then none
  else
    let fraction? := match rest with
      | '.' :: more =>
        match more.takeWhile Char.isDigit with
        | [] => none
        | ds => some (some ds, more.dropWhile Char.isDigit)
      | _ => some (none, rest)
    match fraction? with
    | none => none
    | some (fraction, rest) =>
      match exponent? rest with
      | none => none
      | some (e, after) =>
        let n := number whole
        if fraction.isNone && after.length == rest.length then
          if negative then
            if n = 0 || Nat.pow 2 63 < n then some (.float (toDouble true n 0), after)
            else some (.integer (-(n : Int)), after)
          else if n ≤ largestInteger then some (.integer n, after)
          else some (.float (toDouble false n 0), after)
        else
          let ds := fraction.getD []
          some (.float (toDouble negative (number (whole ++ ds)) (e - ds.length)), after)

/-- Puts a member into an object; a later member of the same name takes the place of an earlier
one. -/
def put (members : List (String × Json)) (name : String) (value : Json) : List (String × Json) :=
  if members.any fun m => m.1 == name then
    members.map fun m => if m.1 == name then (name, value) else m
  else members ++ [(name, value)]

mutual

/-- A value; blank characters before it are skipped. -/
def value? : Nat → List Char → Option (Json × List Char)
  | 0, _ => none
  | fuel + 1, cs =>
    match skipBlank cs with
    | 'n' :: 'u' :: 'l' :: 'l' :: rest => some (.null, rest)
    | 't' :: 'r' :: 'u' :: 'e' :: rest => some (.bool true, rest)
    | 'f' :: 'a' :: 'l' :: 's' :: 'e' :: rest => some (.bool false, rest)
    | '"' :: rest => (string? (rest.length + 1) [] rest).map fun (s, rest) => (.string s, rest)
    | '[' :: rest =>
      match skipBlank rest with
      | ']' :: rest => some (.array [], rest)
      | rest => (items? fuel rest []).map fun (xs, rest) => (.array xs, rest)
    | '{' :: rest =>
      match skipBlank rest with
      | '}' :: rest => some (.object [], rest)
      | rest => (members? fuel rest []).map fun (ms, rest) => (.object ms, rest)
    | rest => number? rest

/-- The items of an array up to its closing bracket. -/
def items? : Nat → List Char → List Json → Option (List Json × List Char)
  | 0, _, _ => none
  | fuel + 1, cs, read =>
    match value? fuel cs with
    | none => none
    | some (x, rest) =>
      match skipBlank rest with
      | ',' :: rest => items? fuel rest (x :: read)
      | ']' :: rest => some ((x :: read).reverse, rest)
      | _ => none

/-- The members of an object up to its closing brace. -/
def members? : Nat → List Char → List (String × Json) → Option (List (String × Json) × List Char)
  | 0, _, _ => none
  | fuel + 1, cs, read =>
    match skipBlank cs with
    | '"' :: rest =>
      match string? (rest.length + 1) [] rest with
      | none => none
      | some (name, rest) =>
        match skipBlank rest with
        | ':' :: rest =>
          match value? fuel rest with
          | none => none
          | some (x, rest) =>
            match skipBlank rest with
            | ',' :: rest => members? fuel rest (put read name x)
            | '}' :: rest => some (put read name x, rest)
            | _ => none
        | _ => none
    | _ => none

end

end Parser

/-- The value that a text holds, if it is JSON. -/
def parse? (text : String) : Option Json :=
  let cs := text.toList
  match Parser.value? (cs.length + 1) cs with
  | some (j, rest) => if (Parser.skipBlank rest).isEmpty then some j else none
  | none => none

end CodeRisk.Json
