import CodeRisk.Decimal.Shortest
import CodeRisk.Json.Value

/-!
# Writing JSON text

Values in one line, or laid out with two spaces for each level. Strings escape quotes, backslashes
and control characters and nothing else.
-/
namespace CodeRisk.Json

/-- A hexadecimal digit. -/
def hexDigit (n : Nat) : Char :=
  (Nat.toDigits 16 n).head?.getD '0'

/-- A character as it is written inside a string. -/
def escapeChar (c : Char) : List Char :=
  if c == '"' then ['\\', '"']
  else if c == '\\' then ['\\', '\\']
  else if c == '\n' then ['\\', 'n']
  else if c == '\r' then ['\\', 'r']
  else if c == '\t' then ['\\', 't']
  else if c == '\x08' then ['\\', 'b']
  else if c == '\x0c' then ['\\', 'f']
  else if c.toNat < 32 then ['\\', 'u', '0', '0', hexDigit (c.toNat / 16), hexDigit (c.toNat % 16)]
  else [c]

/-- A string between quotes. -/
def quote (s : String) : String :=
  String.ofList ('"' :: (s.toList.flatMap escapeChar ++ ['"']))

/-- A value without parts. -/
def renderScalar : Json → String
  | null => "null"
  | bool b => if b then "true" else "false"
  | integer n => toString n
  | float x => Decimal.Style.data.render x
  | string s => quote s
  | array _ => "[]"
  | object _ => "\x7b\x7d"

mutual

/-- The value in one line. -/
def render : Json → String
  | array xs => "[" ++ ",".intercalate (renderItems xs) ++ "]"
  | object ms => "\x7b" ++ ",".intercalate (renderMembers ms) ++ "\x7d"
  | j => renderScalar j

/-- The items of an array, each in one line. -/
def renderItems : List Json → List String
  | [] => []
  | x :: xs => render x :: renderItems xs

/-- The members of an object, each in one line. -/
def renderMembers : List (String × Json) → List String
  | [] => []
  | (name, x) :: ms => (quote name ++ ":" ++ render x) :: renderMembers ms

end

/-- The blank text at the beginning of a line. -/
def indent (level : Nat) : String :=
  String.ofList (List.replicate (2 * level) ' ')

/-- Parts between brackets, each on a line of its own. -/
def framed (opening closing : String) (level : Nat) (parts : List String) : String :=
  opening ++ "\n" ++ ",\n".intercalate (parts.map (indent (level + 1) ++ ·)) ++ "\n" ++
    indent level ++ closing

mutual

/-- The value laid out over several lines, nested `level` deep. -/
def layout (level : Nat) : Json → String
  | array [] => "[]"
  | object [] => "\x7b\x7d"
  | array (x :: xs) => framed "[" "]" level (layout (level + 1) x :: layoutItems (level + 1) xs)
  | object ((name, x) :: ms) =>
    framed "\x7b" "\x7d" level
      ((quote name ++ ": " ++ layout (level + 1) x) :: layoutMembers (level + 1) ms)
  | j => renderScalar j

/-- The items of an array, each laid out. -/
def layoutItems (level : Nat) : List Json → List String
  | [] => []
  | x :: xs => layout level x :: layoutItems level xs

/-- The members of an object, each laid out. -/
def layoutMembers (level : Nat) : List (String × Json) → List String
  | [] => []
  | (name, x) :: ms => (quote name ++ ": " ++ layout level x) :: layoutMembers level ms

end

/-- The value laid out over several lines. -/
def pretty (j : Json) : String :=
  layout 0 j

end CodeRisk.Json
