import CodeRisk.Java.Kind
import CodeRisk.Text.WordChar

/-!
# Tokens of Java text

The tokens that can stand at a place in the text. Words are not reserved and `>>` may be two
brackets, so a place has several candidates as a rule; they are listed longest first, and among
equally long ones keywords first. Which of them is meant, the grammar decides.
-/
namespace CodeRisk.Java.Lexer

/-- Blank characters between tokens. -/
def isBlank (c : Char) : Bool :=
  c == ' ' || c == '\t' || c == '\n' || c == '\x0b' || c == '\x0c' || c == '\r'

/-- Whether a word can begin with the character. -/
def isWordStart (c : Char) : Bool :=
  c == '_' || c == '$' || Text.isWordStart c

/-- Whether a word can go on with the character. -/
def isWordPart (c : Char) : Bool :=
  c == '_' || c == '$' || c == '¢' || Text.isWordExtender c

/-- The number of leading characters with the property `p`. -/
def run (p : Char → Bool) (cs : List Char) : Nat :=
  (cs.takeWhile p).length

/-! ## Numbers -/

def isHexDigit (c : Char) : Bool :=
  c.isDigit || ('a' ≤ c && c ≤ 'f') || ('A' ≤ c && c ≤ 'F')

def isOctalDigit (c : Char) : Bool := '0' ≤ c && c ≤ '7'

def isBinaryDigit (c : Char) : Bool := c == '0' || c == '1'

/-- The length of the suffix that begins with one of the characters: 1 or 0. -/
def suffix (choices : List Char) : List Char → Nat
  | [] => 0
  | c :: _ => if choices.contains c then 1 else 0

def longSuffix : List Char → Nat := suffix ['l', 'L']

def floatSuffix : List Char → Nat := suffix ['f', 'F', 'd', 'D']

/-- Groups of digits with one underscore between each two. `cs` may begin with the underscore if
`inside` holds. -/
def digitGroups (p : Char → Bool) (inside : Bool) : List Char → Nat
  | '_' :: c :: rest =>
    if inside && p c then 2 + digitGroups p true rest else 0
  | c :: rest => if p c then 1 + digitGroups p true rest else 0
  | [] => 0

/-- Digits with any number of underscores between each two. -/
def looseDigits : List Char → Nat
  | [] => 0
  | c :: rest =>
    let n := looseDigits rest
    if c.isDigit then n + 1
    else if c == '_' && n != 0 then n + 1
    else 0

/-- A decimal whole number: zero alone, or digits that do not begin with zero. After the first digit
at most one underscore may stand, later any number. -/
def wholeDigits : List Char → Nat
  | [] => 0
  | '0' :: _ => 1
  | c :: rest =>
    if !c.isDigit then 0
    else match rest with
      | '_' :: d :: more => if d.isDigit then 2 + looseDigits (d :: more) else 1
      | d :: more => if d.isDigit then 1 + looseDigits (d :: more) else 1
      | [] => 1

/-- An exponent that begins with one of the letters, with its sign and digits, or nothing. -/
def exponent (letters : List Char) : List Char → Nat
  | c :: rest =>
    if letters.contains c then
      let sign := suffix ['+', '-'] rest
      match digitGroups Char.isDigit false (rest.drop sign) with
      | 0 => 0
      | n => 1 + sign + n
    else 0
  | [] => 0

/-- A number of something, or nothing if it is 0. -/
def nonzero (n : Nat) : Option Nat := if n = 0 then none else some n

def decimalInteger (cs : List Char) : Option Nat :=
  (nonzero (wholeDigits cs)).map fun n => n + longSuffix (cs.drop n)

/-- A number in another base: a mark of two characters, digits, and a suffix. -/
def markedInteger (marks : List Char) (p : Char → Bool) : List Char → Option Nat
  | '0' :: m :: rest =>
    if marks.contains m then
      (nonzero (digitGroups p false rest)).map fun n => 2 + n + longSuffix (rest.drop n)
    else none
  | _ => none

def hexInteger : List Char → Option Nat := markedInteger ['x', 'X'] isHexDigit

def binaryInteger : List Char → Option Nat := markedInteger ['b', 'B'] isBinaryDigit

def octalInteger (cs : List Char) : Option Nat :=
  match markedInteger ['o', 'O'] isOctalDigit cs with
  | some n => some n
  | none =>
    match cs with
    | '0' :: rest =>
      (nonzero (digitGroups isOctalDigit false rest)).map fun n => 1 + n + longSuffix (rest.drop n)
    | _ => none

/-- The longer of two readings. -/
def longer : Option Nat → Option Nat → Option Nat
  | some m, some n => some (max m n)
  | some m, none => some m
  | none, n => n

/-- The rest of a decimal number behind its point: digits, exponent and suffix may all be absent. -/
def afterPoint (cs : List Char) : Nat :=
  let n := digitGroups Char.isDigit false cs
  let e := exponent ['e', 'E'] (cs.drop n)
  n + e + floatSuffix (cs.drop (n + e))

def decimalFloat (cs : List Char) : Option Nat :=
  let whole := digitGroups Char.isDigit false cs
  let pointed :=
    match cs.drop whole with
    | '.' :: rest =>
      if whole = 0 && digitGroups Char.isDigit false rest = 0 then none
      else some (whole + 1 + afterPoint rest)
    | _ => none
  let n := wholeDigits cs
  let scaled :=
    if n = 0 then none
    else
      match exponent ['e', 'E', 'p', 'P'] (cs.drop n) with
      | 0 => none
      | e => some (n + e + floatSuffix (cs.drop (n + e)))
  let marked :=
    if n = 0 then none
    else
      let e := exponent ['e', 'E'] (cs.drop n)
      match floatSuffix (cs.drop (n + e)) with
      | 0 => none
      | s => some (n + e + s)
  longer pointed (longer scaled marked)

def hexFloat : List Char → Option Nat
  | '0' :: m :: rest =>
    if m == 'x' || m == 'X' then
      let n := digitGroups isHexDigit false rest
      let k :=
        match rest.drop n with
        | '.' :: more => n + 1 + digitGroups isHexDigit false more
        | _ => n
      if k = 0 || (n = 0 && k = 1) then none
      else
        match exponent ['e', 'E', 'p', 'P'] (rest.drop k) with
        | 0 => some (2 + k)
        | e => some (2 + k + e + floatSuffix (rest.drop (k + e)))
    else none
  | _ => none

/-! ## Characters and strings -/

/-- The length of the inside of a character literal and its closing quote. -/
def characterRest : List Char → Option Nat
  | '\'' :: _ => some 1
  | '\\' :: _ :: rest => (characterRest rest).map (· + 2)
  | '\n' :: _ => none
  | '\\' :: [] => none
  | _ :: rest => (characterRest rest).map (· + 1)
  | [] => none

/-- A character literal; it holds at least one character. -/
def character : List Char → Option Nat
  | '\'' :: rest => (characterRest rest).bind fun n => if n = 1 then none else some (n + 1)
  | _ => none

/-- An escape inside a string. -/
def escape : List Char → Option Nat
  | '\\' :: 'x' :: a :: b :: _ => if isHexDigit a && isHexDigit b then some 4 else none
  | '\\' :: 'u' :: '{' :: rest =>
    let n := run isHexDigit rest
    if n != 0 && (rest.drop n).head? == some '}' then some (n + 4) else none
  | '\\' :: 'u' :: rest => if 4 ≤ run isHexDigit (rest.take 4) then some 6 else none
  | '\\' :: c :: rest =>
    if isOctalDigit c then some (1 + run isOctalDigit ((c :: rest).take 3))
    else if c == 'x' then none
    else some 2
  | _ => none

/-- The run of plain characters inside a string. -/
def stringFragment (cs : List Char) : Option Nat :=
  nonzero (run (fun c => c != '"' && c != '\\') cs)

/-- The run of plain characters inside a text block, where one or two quotes are plain too. -/
def textFragment (cs : List Char) : Option Nat :=
  match stringFragment cs, cs with
  | some n, _ => some n
  | none, '"' :: '"' :: '"' :: _ => none
  | none, '"' :: '"' :: _ => some 2
  | none, '"' :: _ => some 1
  | none, _ => none

/-! ## Comments -/

/-- The length of a block comment behind its opening, with its closing. -/
def blockCommentRest : List Char → Option Nat
  | '*' :: '/' :: _ => some 2
  | _ :: rest => (blockCommentRest rest).map (· + 1)
  | [] => none

/-- A comment at this place, with its kind and length. -/
def comment? : List Char → Option (TokenKind × Nat)
  | '/' :: '/' :: rest => some (.lineComment, 2 + run (· != '\n') rest)
  | '/' :: '*' :: rest => (blockCommentRest rest).map fun n => (.blockComment, n + 2)
  | _ => none

/-! ## Candidates -/

/-- Spellings that are no words, the longer ones before their own beginnings. -/
def punctuation : List String := [
  "non-sealed", "@interface", ">>>=", "\"\"\"", "...", ">>>", "<<=", ">>=",
  "->", "::", "++", "--", "+=", "-=", "*=", "/=", "&=", "|=", "^=", "%=", "==", "!=", "<=", ">=",
  "&&", "||", "<<", ">>", "\\\x7b", "(", ")", "[", "]", "\x7b", "\x7d", ";", ",", ".", "@",
  ":", "?", "=", "+", "-", "*", "/", "&", "|", "^", "%", "!", "~", "<", ">", "\""]

/-- The words that are keywords somewhere in the grammar. -/
def keywords : List String := [
  "abstract", "assert", "boolean", "break", "byte", "case", "catch", "char", "class", "continue",
  "default", "do", "double", "else", "enum", "exports", "extends", "false", "final", "finally",
  "float", "for", "if", "implements", "import", "instanceof", "int", "interface", "long", "module",
  "native", "new", "null", "open", "opens", "package", "permits", "private", "protected",
  "provides", "public", "record", "requires", "return", "sealed", "short", "static", "strictfp",
  "super", "switch", "synchronized", "this", "throw", "throws", "to", "transient", "transitive",
  "true", "try", "uses", "void", "volatile", "when", "while", "with", "yield", "_"]

/-- The candidates that are words. -/
def words (cs : List Char) : List (Terminal × Nat) :=
  match cs with
  | [] => []
  | c :: _ =>
    if isWordStart c then
      let word := cs.takeWhile isWordPart
      let plain := (Terminal.identifier, word.length)
      let spelling := String.ofList word
      if keywords.contains spelling then [(.fixed spelling, word.length), plain] else [plain]
    else []

/-- The candidates that are operators or brackets. -/
def fixedTokens (cs : List Char) : List (Terminal × Nat) :=
  punctuation.filterMap fun s =>
    if s.toList.isPrefixOf cs then some (.fixed s, s.length) else none

/-- The candidates that are literals. -/
def literals (cs : List Char) : List (Terminal × Nat) :=
  [(Terminal.decimalInteger, decimalInteger cs), (.hexInteger, hexInteger cs),
   (.octalInteger, octalInteger cs), (.binaryInteger, binaryInteger cs),
   (.decimalFloat, decimalFloat cs), (.hexFloat, hexFloat cs), (.character, character cs)].filterMap
    fun (t, n) => n.map fun n => (t, n)

/-- All tokens that can stand at the beginning of the text, the longest first. -/
def candidates (cs : List Char) : List (Terminal × Nat) :=
  match cs with
  | [] => [(.ending, 0)]
  | _ => (words cs ++ literals cs ++ fixedTokens cs).mergeSort fun a b => b.2 ≤ a.2

/-- The tokens that can stand at the beginning of the text inside a string: blank text and comments
have no meaning there. -/
def stringCandidates (cs : List Char) : List (Terminal × Nat) :=
  fixedTokens cs ++
    [(Terminal.escape, escape cs), (.stringFragment, stringFragment cs),
     (.textFragment, textFragment cs)].filterMap fun (t, n) => n.map fun n => (t, n)

end CodeRisk.Java.Lexer
