import CodeRisk.Toml.Document

/-!
# Reading TOML text

A reader for TOML, version 1.0. Each function takes the rest of the text and gives back what it read
with what is left, or nothing if the text is not well-formed.
-/
namespace CodeRisk.Toml

/-- What is left of the text. -/
abbrev Rest := List Char

namespace Parser

/-- Characters that may stand in comments and strings. -/
def isPrintable (c : Char) : Bool :=
  c == '\t' || (0x20 ≤ c.toNat && c.toNat != 0x7f)

/-- Drops spaces and tabs. -/
def skipBlank (cs : Rest) : Rest :=
  cs.dropWhile fun c => c == ' ' || c == '\t'

/-- A line break. -/
def newline? : Rest → Option Rest
  | '\n' :: rest => some rest
  | '\r' :: '\n' :: rest => some rest
  | _ => none

/-- Drops a comment. -/
def skipComment? : Rest → Option Rest
  | '#' :: rest =>
    let after := rest.dropWhile fun c => c != '\n' && c != '\r'
    let text := rest.takeWhile fun c => c != '\n' && c != '\r'
    if text.all isPrintable then some after else none
  | cs => some cs

/-- Drops blank text, comments and line breaks. -/
def skipLines? : Nat → Rest → Option Rest
  | 0, _ => none
  | fuel + 1, cs => do
    let rest ← skipComment? (skipBlank cs)
    match newline? rest with
    | some rest => skipLines? fuel rest
    | none => some rest

/-- The end of a line: blank text, a comment, and a line break unless the text ends. -/
def lineEnd? (cs : Rest) : Option Rest := do
  let rest ← skipComment? (skipBlank cs)
  if rest.isEmpty then some rest else newline? rest

/-! ## Strings -/

/-- The value of a hexadecimal digit. -/
def hexValue? (c : Char) : Option Nat :=
  if c.isDigit then some (c.toNat - '0'.toNat)
  else if 'a' ≤ c && c ≤ 'f' then some (c.toNat - 'a'.toNat + 10)
  else if 'A' ≤ c && c ≤ 'F' then some (c.toNat - 'A'.toNat + 10)
  else none

/-- A character given by `n` hexadecimal digits. -/
def codePoint? (n : Nat) (cs : Rest) : Option (Char × Rest) := do
  let ds ← (cs.take n).mapM hexValue?
  if ds.length != n then none
  else
    let code := ds.foldl (fun n d => 16 * n + d) 0
    if code.isValidChar then some (Char.ofNat code, cs.drop n) else none

/-- The character of an escape behind its backslash. -/
def escape? : Rest → Option (Char × Rest)
  | 'b' :: rest => some ('\x08', rest)
  | 't' :: rest => some ('\t', rest)
  | 'n' :: rest => some ('\n', rest)
  | 'f' :: rest => some ('\x0c', rest)
  | 'r' :: rest => some ('\r', rest)
  | '"' :: rest => some ('"', rest)
  | '\\' :: rest => some ('\\', rest)
  | 'u' :: rest => codePoint? 4 rest
  | 'U' :: rest => codePoint? 8 rest
  | _ => none

/-- The rest of a string in double quotes; `read` holds its characters, the newest first. -/
def basic? : Nat → List Char → Rest → Option (String × Rest)
  | 0, _, _ => none
  | fuel + 1, read, cs =>
    match cs with
    | '"' :: rest => some (String.ofList read.reverse, rest)
    | '\\' :: rest => do
      let (c, rest) ← escape? rest
      basic? fuel (c :: read) rest
    | c :: rest => if isPrintable c then basic? fuel (c :: read) rest else none
    | [] => none

/-- The rest of a string in single quotes. -/
def literal? (read : List Char) : Rest → Option (String × Rest)
  | '\'' :: rest => some (String.ofList read.reverse, rest)
  | c :: rest => if isPrintable c then literal? (c :: read) rest else none
  | [] => none

/-- Drops blank text and at least one line break, as after a backslash at the end of a line. -/
def foldLines? (cs : Rest) : Option Rest := do
  let rest ← newline? (skipBlank cs)
  some (rest.dropWhile fun c => c == ' ' || c == '\t' || c == '\n' || c == '\r')

/-- The closing quotes of a string over several lines: three, or up to five of which the first ones
belong to the string. Gives the number of quotes that belong to it. -/
def closing? (quote : Char) (cs : Rest) : Option (Nat × Rest) :=
  let n := (cs.takeWhile (· == quote)).length
  if n < 3 then none else some (min n 5 - 3, cs.drop (min n 5))

/-- The rest of a string over several lines in double quotes. -/
def multiBasic? : Nat → List Char → Rest → Option (String × Rest)
  | 0, _, _ => none
  | fuel + 1, read, cs =>
    match closing? '"' cs with
    | some (n, rest) => some (String.ofList (List.replicate n '"' ++ read).reverse, rest)
    | none =>
      match cs with
      | '\\' :: rest =>
        match escape? rest with
        | some (c, rest) => multiBasic? fuel (c :: read) rest
        | none => do
          let rest ← foldLines? rest
          multiBasic? fuel read rest
      | '\r' :: '\n' :: rest | '\n' :: rest => multiBasic? fuel ('\n' :: read) rest
      | c :: rest => if isPrintable c then multiBasic? fuel (c :: read) rest else none
      | [] => none

/-- The rest of a string over several lines in single quotes. -/
def multiLiteral? : Nat → List Char → Rest → Option (String × Rest)
  | 0, _, _ => none
  | fuel + 1, read, cs =>
    match closing? '\'' cs with
    | some (n, rest) => some (String.ofList (List.replicate n '\'' ++ read).reverse, rest)
    | none =>
      match cs with
      | '\r' :: '\n' :: rest | '\n' :: rest => multiLiteral? fuel ('\n' :: read) rest
      | c :: rest => if isPrintable c then multiLiteral? fuel (c :: read) rest else none
      | [] => none

/-- Drops a line break that stands first. -/
def dropNewline (cs : Rest) : Rest :=
  (newline? cs).getD cs

/-- A string of any kind. -/
def string? (cs : Rest) : Option (String × Rest) :=
  match cs with
  | '"' :: '"' :: '"' :: rest => multiBasic? (rest.length + 1) [] (dropNewline rest)
  | '\'' :: '\'' :: '\'' :: rest => multiLiteral? (rest.length + 1) [] (dropNewline rest)
  | '"' :: rest => basic? (rest.length + 1) [] rest
  | '\'' :: rest => literal? [] rest
  | _ => none

/-! ## Keys -/

/-- Characters of keys without quotes. -/
def isBare (c : Char) : Bool :=
  c.isAlphanum || c == '_' || c == '-'

/-- A part of a key; `total` is the length of the whole text. -/
def simpleKey? (total : Nat) (cs : Rest) : Option (Key × Rest) :=
  let read : Option (String × Rest) :=
    match cs with
    | '"' :: rest => basic? (rest.length + 1) [] rest
    | '\'' :: rest => literal? [] rest
    | _ =>
      match cs.takeWhile isBare with
      | [] => none
      | ds => some (String.ofList ds, cs.dropWhile isBare)
  read.map fun (name, rest) => (⟨name, ⟨total - cs.length, total - rest.length⟩⟩, rest)

/-- A key of one or more parts with dots between them. -/
def key? (total : Nat) : Nat → Rest → Option (List Key × Rest)
  | 0, _ => none
  | fuel + 1, cs => do
    let (k, rest) ← simpleKey? total (skipBlank cs)
    match skipBlank rest with
    | '.' :: more => do
      let (ks, rest) ← key? total fuel more
      some (k :: ks, rest)
    | rest => some ([k], rest)

/-! ## Numbers, dates and times -/

/-- Digits with single underscores between them. -/
def digits? (p : Char → Bool) : Nat → Rest → Option (List Char × Rest)
  | 0, _ => none
  | fuel + 1, cs =>
    match cs.takeWhile p with
    | [] => none
    | ds =>
      match cs.dropWhile p with
      | '_' :: rest => (digits? p fuel rest).map fun (more, rest) => (ds ++ more, rest)
      | rest => some (ds, rest)

/-- The number that digits in a base stand for. -/
def number (base : Nat) (ds : List Char) : Nat :=
  ds.foldl (fun n c => base * n + (hexValue? c).getD 0) 0

/-- A sign: whether it is a minus, and what follows. -/
def sign : Rest → Bool × Rest
  | '-' :: rest => (true, rest)
  | '+' :: rest => (false, rest)
  | cs => (false, cs)

/-- The first whole number that is too large, and the smallest one negated. -/
def wholeBound : Nat := Nat.pow 2 63

/-- A whole number in another base. -/
def based? (p : Char → Bool) (base : Nat) (cs : Rest) : Option (Node × Rest) := do
  let (ds, rest) ← digits? p (cs.length + 1) cs
  let n := number base ds
  if n < wholeBound then some (.integer n, rest) else none

/-- A decimal number: whole, or with a fraction or an exponent. -/
def decimal? (cs : Rest) : Option (Node × Rest) := do
  let (negative, body) := sign cs
  let (whole, rest) ← digits? Char.isDigit (body.length + 1) body
  if whole.length != 1 && whole.head? == some '0' then none
  else
    let (fraction, rest) ← match rest with
      | '.' :: more => (digits? Char.isDigit (more.length + 1) more).map fun (ds, r) => (some ds, r)
      | _ => some (none, rest)
    let (power, rest) ← match rest with
      | 'e' :: more | 'E' :: more =>
        let (down, more) := sign more
        (digits? Char.isDigit (more.length + 1) more).map fun (ds, r) =>
          (some (if down then -(number 10 ds : Int) else number 10 ds), r)
      | _ => some (none, rest)
    match fraction, power with
    | none, none =>
      let n : Int := if negative then -(number 10 whole : Int) else number 10 whole
      if -(wholeBound : Int) ≤ n && n < wholeBound then some (.integer n, rest) else none
    | _, _ =>
      let ds := fraction.getD []
      let m := number 10 (whole ++ ds)
      let e : Int := power.getD 0 - ds.length
      let x := match e with
        | .ofNat k => Float.ofScientific m false k
        | .negSucc k => Float.ofScientific m true (k + 1)
      some (.float (if negative then -x else x), rest)

/-- A special number: no number, or an infinity. -/
def special? (cs : Rest) : Option (Node × Rest) :=
  let (negative, body) := sign cs
  match body with
  | 'i' :: 'n' :: 'f' :: rest => some (.float (if negative then -1.0 / 0.0 else 1.0 / 0.0), rest)
  | 'n' :: 'a' :: 'n' :: rest => some (.float (0.0 / 0.0), rest)
  | _ => none

/-- `n` digits with a value in a range. -/
def part? (n low high : Nat) (cs : Rest) : Option (Nat × Rest) :=
  let ds := cs.take n
  let value := number 10 ds
  if ds.length == n && ds.all Char.isDigit && low ≤ value && value ≤ high then
    some (value, cs.drop n)
  else none

/-- One character. -/
def expect? (c : Char) : Rest → Option Rest
  | [] => none
  | d :: rest => if d == c then some rest else none

/-- The number of days of a month. -/
def monthLength (year month : Nat) : Nat :=
  if month = 2 then
    if year % 4 = 0 && (year % 100 != 0 || year % 400 = 0) then 29 else 28
  else if month = 4 || month = 6 || month = 9 || month = 11 then 30
  else 31

/-- A day of the calendar. -/
def date? (cs : Rest) : Option Rest := do
  let (y, rest) ← part? 4 0 9999 cs
  let rest ← expect? '-' rest
  let (m, rest) ← part? 2 1 12 rest
  let rest ← expect? '-' rest
  let (_, rest) ← part? 2 1 (monthLength y m) rest
  some rest

/-- A time of the day. -/
def time? (cs : Rest) : Option Rest := do
  let (_, rest) ← part? 2 0 23 cs
  let rest ← expect? ':' rest
  let (_, rest) ← part? 2 0 59 rest
  let rest ← expect? ':' rest
  let (_, rest) ← part? 2 0 60 rest
  match rest with
  | '.' :: more =>
    if (more.takeWhile Char.isDigit).isEmpty then none else some (more.dropWhile Char.isDigit)
  | _ => some rest

/-- An offset from UTC, or nothing. -/
def offset? : Rest → Option Rest
  | 'Z' :: rest | 'z' :: rest => some rest
  | c :: rest =>
    if c == '+' || c == '-' then do
      let (_, rest) ← part? 2 0 23 rest
      let rest ← expect? ':' rest
      let (_, rest) ← part? 2 0 59 rest
      some rest
    else some (c :: rest)
  | [] => some []

/-- A date, a time, or both. -/
def datetime? (cs : Rest) : Option (Node × Rest) :=
  let read : Option Rest :=
    match date? cs with
    | some rest =>
      match rest with
      | c :: more =>
        if c == 'T' || c == 't' then time? more >>= offset?
        else if c == ' ' then
          match time? more with
          | some rest => offset? rest
          | none => some rest
        else some rest
      | [] => some []
    | none => time? cs
  read.map fun rest => (.datetime, rest)

/-- Whether a date or time begins here: two digits and a colon, or four digits and a hyphen. -/
def looksLikeDate (cs : Rest) : Bool :=
  let n := (cs.takeWhile Char.isDigit).length
  match n, cs.drop n with
  | 2, ':' :: _ => true
  | 4, '-' :: _ => true
  | _, _ => false

def isOctal (c : Char) : Bool := '0' ≤ c && c ≤ '7'

def isBinary (c : Char) : Bool := c == '0' || c == '1'

def isHex (c : Char) : Bool := (hexValue? c).isSome

/-- A value that is no string, list or table. -/
def plain? (cs : Rest) : Option (Node × Rest) :=
  match cs with
  | 't' :: 'r' :: 'u' :: 'e' :: rest => some (.boolean true, rest)
  | 'f' :: 'a' :: 'l' :: 's' :: 'e' :: rest => some (.boolean false, rest)
  | '0' :: 'x' :: rest => based? isHex 16 rest
  | '0' :: 'o' :: rest => based? isOctal 8 rest
  | '0' :: 'b' :: rest => based? isBinary 2 rest
  | _ =>
    match special? cs with
    | some r => some r
    | none => if looksLikeDate cs then datetime? cs else decimal? cs

/-! ## Values -/

/-- Deepest nesting of lists and tables inside a value. -/
def maxNesting : Nat := 80

mutual

/-- A value. -/
def value? (total : Nat) : Nat → Nat → Rest → Option (Node × Rest)
  | 0, _, _ => none
  | fuel + 1, depth, cs =>
    match cs with
    | '"' :: _ | '\'' :: _ => (string? cs).map fun (s, rest) => (.string s, rest)
    | '[' :: rest =>
      if depth = 0 then none
      else (items? total fuel (depth - 1) rest).map fun (xs, rest) => (.array xs, rest)
    | '{' :: rest =>
      if depth = 0 then none
      else
        match skipBlank rest with
        | '}' :: rest => some (.inline .header [], rest)
        | rest => (members? total fuel (depth - 1) rest []).map fun (es, rest) =>
            (.inline .header es, rest)
    | _ => plain? cs

/-- The items of a list up to its closing bracket. -/
def items? (total : Nat) : Nat → Nat → Rest → Option (List (Span × Node) × Rest)
  | 0, _, _ => none
  | fuel + 1, depth, cs => do
    let start ← skipLines? (cs.length + 1) cs
    match start with
    | ']' :: rest => some ([], rest)
    | _ =>
      let (x, rest) ← value? total fuel depth start
      let item := (Span.mk (total - start.length) (total - rest.length), x)
      let rest ← skipLines? (rest.length + 1) rest
      match rest with
      | ',' :: rest => do
        let (xs, rest) ← items? total fuel depth rest
        some (item :: xs, rest)
      | ']' :: rest => some ([item], rest)
      | _ => none

/-- The members of a table in braces up to the closing brace. -/
def members? (total : Nat) : Nat → Nat → Rest → Entries → Option (Entries × Rest)
  | 0, _, _, _ => none
  | fuel + 1, depth, cs, read => do
    let (path, rest) ← key? total (cs.length + 1) cs
    let rest ← expect? '=' rest
    let start := skipBlank rest
    let (x, rest) ← value? total fuel depth start
    let key ← path.getLast?
    let read ← Entries.put path.dropLast key
      ⟨total - start.length, total - rest.length⟩ x read
    match skipBlank rest with
    | ',' :: rest => members? total fuel depth rest read
    | '}' :: rest => some (read, rest)
    | _ => none

end

/-! ## Lines -/

/-- A document as far as it has been read: its entries, and the path of the table at hand. -/
structure Progress where
  entries : Entries
  path : List Key

/-- Adds a value to the table at hand. -/
def Progress.put (p : Progress) (path : List Key) (key : Key) (span : Span) (value : Node) :
    Option Progress :=
  (Entries.within false (fun _ inner => Entries.put path key span value inner) false p.path
    p.entries).map fun entries => { p with entries }

/-- The header of a table behind its opening brackets. -/
def header? (total start : Nat) (double : Bool) (p : Progress) (cs : Rest) :
    Option (Progress × Rest) := do
  let (path, rest) ← key? total (cs.length + 1) cs
  let rest ← expect? ']' rest
  let rest ← if double then expect? ']' rest else some rest
  let key ← path.getLast?
  let span : Span := ⟨start, total - rest.length⟩
  let entries ←
    if double then p.entries.openElement path.dropLast key span
    else p.entries.openTable path.dropLast key span
  let rest ← lineEnd? rest
  some (⟨entries, path⟩, rest)

/-- The lines of a document. -/
def lines? (total : Nat) : Nat → Progress → Rest → Option Entries
  | 0, _, _ => none
  | fuel + 1, p, cs => do
    let start ← skipLines? (cs.length + 1) cs
    match start with
    | [] => some p.entries
    | '[' :: '[' :: rest => do
      let (p, rest) ← header? total (total - start.length) true p rest
      lines? total fuel p rest
    | '[' :: rest => do
      let (p, rest) ← header? total (total - start.length) false p rest
      lines? total fuel p rest
    | _ => do
      let (path, rest) ← key? total (start.length + 1) start
      let rest ← expect? '=' rest
      let begin_ := skipBlank rest
      let (x, rest) ← value? total (begin_.length + 1) maxNesting begin_
      let key ← path.getLast?
      let p ← p.put path.dropLast key ⟨total - begin_.length, total - rest.length⟩ x
      let rest ← lineEnd? rest
      lines? total fuel p rest

end Parser

/-- The entries of a document, if the text is well-formed. A byte order mark at the beginning has no
meaning. -/
def parse? (text : String) : Option Entries :=
  let cs := text.toList
  let body := match cs with
    | '\uFEFF' :: rest => rest
    | _ => cs
  Parser.lines? cs.length (cs.length + 1) ⟨[], []⟩ body

end CodeRisk.Toml
