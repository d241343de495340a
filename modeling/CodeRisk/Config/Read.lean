import CodeRisk.Config.Basic
import CodeRisk.Error
import CodeRisk.Record.Schema
import CodeRisk.Toml.Parser

/-!
# Reading a configuration

A configuration file is a TOML document with known keys. What does not fit is shown with the line it
stands on.
-/
namespace CodeRisk
open Record (Misfit)

/-- Why there is no configuration. -/
inductive ConfigFault where
  /-- The file cannot be read. -/
  | unreadable (path reason : String)
  /-- The text is no TOML. -/
  | notToml
  /-- A key or value does not fit; the text shows where it stands. -/
  | misfit (text : String) (span : Toml.Span) (reason : String)
  /-- There must be at least one worker. -/
  | noJobs

namespace ConfigFault

/-- The number of bytes of some characters in UTF-8. -/
def byteCount (cs : List Char) : Nat :=
  (cs.map Char.utf8Size).foldr (· + ·) 0

/-- `n` times the character. -/
def times (n : Nat) (c : Char) : String :=
  String.ofList (List.replicate n c)

/-- A reason under the line that it is about, with marks under the place. A place over several lines
has no more marks than its first line has bytes. -/
def frame (text : String) (span : Toml.Span) (reason : String) : String :=
  let cs := text.toList
  let before := cs.take span.start
  let line := before.count '\n'
  let column := (before.reverse.takeWhile (· != '\n')).length
  let content := (cs.drop (span.start - column)).takeWhile (· != '\n')
  let width := byteCount ((cs.drop span.start).take (span.stop - span.start))
  let number := toString (line + 1)
  let gutter := times (number.length + 1) ' ' ++ "|"
  s!"TOML parse error at line {number}, column {column + 1}\n" ++
    gutter ++ "\n" ++
    number ++ " | " ++ String.ofList content ++ "\n" ++
    gutter ++ times (column + 1) ' ' ++ times (max 1 (min width (byteCount content))) '^' ++ "\n" ++
    reason ++ "\n"

/-- The text of a fault. -/
def message : ConfigFault → String
  | unreadable path reason => s!"cannot read {path}: {reason}"
  | notToml => "TOML parse error\n"
  | misfit text span reason => frame text span reason
  | noJobs => "jobs must be at least 1"

/-- The error that a fault is. -/
def error (fault : ConfigFault) : AnalysisError :=
  .config fault.message

end ConfigFault

namespace Config

/-- A misfit with the place where it was met. -/
abbrev Placed := Toml.Span × Misfit

/-- How a value is called in a message. -/
def found : Toml.Node → String
  | .string s => Record.found (.string s)
  | .integer n => Record.found (.integer n)
  | .float x => Record.found (.float x)
  | .boolean b => Record.found (.bool b)
  | .array _ | .tables _ => "sequence"
  | .datetime | .inline .. | .table .. => "map"

/-- A natural number that fits into 64 bits. -/
def readSize (place : Toml.Span) : Toml.Node → Except Placed Nat
  | .integer (.ofNat n) => .ok n
  | .integer n => .error (place, .invalidValue s!"integer `{n}`" "usize")
  | node => .error (place, .invalidType (found node) "usize")

/-- A text. -/
def readText (place : Toml.Span) : Toml.Node → Except Placed String
  | .string s => .ok s
  | node => .error (place, .invalidType (found node) "a string")

/-- A list of texts. -/
def readTexts (place : Toml.Span) : Toml.Node → Except Placed (List String)
  | .array items | .tables items => items.mapM fun (span, node) => readText span node
  | node => .error (place, .invalidType (found node) "a sequence")

/-- The known keys. -/
def keys : List String := ["extra_platform_prefixes", "jobs", "max_depth"]

/-- Takes one entry into the settings. -/
def readEntry (c : Config) (e : Toml.Entry) : Except Placed Config :=
  let (key, span, node) := e
  let place := span.getD key.span
  if key.name == "extra_platform_prefixes" then
    (readTexts place node).map fun ps => { c with extraPlatformPrefixes := ps }
  else if key.name == "jobs" then (readSize place node).map fun n => { c with jobs := some n }
  else if key.name == "max_depth" then (readSize place node).map fun n => { c with maxDepth := n }
  else .error (key.span, .unknownField key.name keys)

/-- Reads a configuration. -/
def parse (text : String) : Except ConfigFault Config :=
  match Toml.parse? text with
  | none => .error .notToml
  | some entries =>
    match entries.foldlM readEntry {} with
    | .error (span, misfit) => .error (.misfit text span misfit.message)
    | .ok c => if c.isValid then .ok c else .error .noJobs

end Config

end CodeRisk
