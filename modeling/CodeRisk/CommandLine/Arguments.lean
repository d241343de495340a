/-!
# Arguments

How the words of a command line are read. A word that begins with two dashes is a long option, with
one dash a cluster of short ones; a dash alone is a path, and after `--` every word is a path.

The value of an option may be attached or be the next word. A value that is a word of its own is not
looked at before the next option or the next path, or the end: only then is it known to be complete.
So of two faults the one that is met first in this sense is reported, except that an unknown option
or a value that an option has no use for is reported at once.
-/
namespace CodeRisk.CommandLine

/-- How the output is written. -/
inductive Format where
  | text
  | json
  | toon
  deriving DecidableEq, Repr

/-- The name of a format on the command line. -/
def Format.name : Format → String
  | text => "text"
  | json => "json"
  | toon => "toon"

/-- The format of a name; upper and lower case differ. -/
def Format.ofName? (name : String) : Option Format :=
  [text, json, toon].find? fun f => f.name == name

/-- The options that take a value. -/
inductive Setting where
  | repositoryUrl
  | branch
  | format
  | config
  | jobs
  | maxDepth
  deriving DecidableEq, Repr

/-- The options that take none. -/
inductive Switch where
  | verbose
  | help
  | version
  deriving DecidableEq, Repr

/-- An option with or without a value. -/
inductive Choice where
  | setting (s : Setting)
  | switch (s : Switch)
  deriving DecidableEq, Repr

/-- The option of a long name. -/
def Choice.ofLong? : List Char → Option Choice := fun name =>
  [("repo-url", setting .repositoryUrl), ("branch", setting .branch), ("format", setting .format),
    ("config", setting .config), ("jobs", setting .jobs), ("max-depth", setting .maxDepth),
    ("verbose", switch .verbose), ("help", switch .help), ("version", switch .version)].lookup
    (String.ofList name)

/-- The option of a short name. -/
def Choice.ofShort? : Char → Option Choice
  | 'f' => some (setting .format)
  | 'c' => some (setting .config)
  | 'j' => some (setting .jobs)
  | 'v' => some (switch .verbose)
  | 'h' => some (switch .help)
  | 'V' => some (switch .version)
  | _ => none

/-- What is wrong with a command line. -/
inductive UsageFault where
  | noPaths
  /-- A value that is missing, empty where it must not be, or none of the known ones. -/
  | invalidValue (value : String)
  | unknownOption
  | notANumber (value : String)
  /-- A value for an option that takes none. -/
  | unwantedValue (value : String)
  | repeated
  deriving DecidableEq, Repr

/-- The text of a fault. -/
def UsageFault.message : UsageFault → String
  | noPaths => "no paths were given"
  | invalidValue value => s!"invalid value '{value}'"
  | unknownOption => "unknown option"
  | notANumber value => s!"'{value}' is not a number"
  | unwantedValue value => s!"unexpected value '{value}'"
  | repeated => "an option was given more than once"

/-- Why the words do not ask for an analysis. -/
inductive Stop where
  | help
  | version
  | fault (f : UsageFault)
  deriving DecidableEq, Repr

/-- Values from outside that stand in for options that are not given. -/
structure Environment where
  repositoryUrl : Option String := none
  branch : Option String := none
  deriving DecidableEq, Repr

/-- What the words have given so far. -/
structure Given where
  paths : List String := []
  repositoryUrl : Option String := none
  branch : Option String := none
  format : Option Format := none
  config : Option String := none
  jobs : Option Nat := none
  maxDepth : Option Nat := none
  verbosity : Nat := 0
  deriving DecidableEq, Repr

/-- The arguments of an analysis. -/
structure Arguments where
  paths : List String
  repositoryUrl : String
  branch : String
  format : Format
  config : Option String
  jobs : Option Nat
  maxDepth : Option Nat
  verbosity : Nat
  deriving DecidableEq, Repr

/-- Which messages are logged. -/
def Arguments.logFilter (a : Arguments) : String :=
  match a.verbosity with
  | 0 => "warn"
  | 1 => "riskmeta=info,warn"
  | 2 => "riskmeta=debug,info"
  | _ => "trace"

/-! ## Values -/

/-- The first number that is too large. -/
def sizeBound : Nat := Nat.pow 2 64

/-- A number of decimal digits, with a plus sign or without. -/
def number? (value : String) : Option Nat :=
  let digits := match value.toList with
    | '+' :: ds => ds
    | ds => ds
  if digits.isEmpty || digits.any (fun c => !c.isDigit) then none
  else
    let n := digits.foldl (fun n c => 10 * n + (c.toNat - '0'.toNat)) 0
    if n < sizeBound then some n else none

/-- A value where none was given before. -/
def once {α : Type} (old : Option α) (value : Except UsageFault α) :
    Except UsageFault (Option α) :=
  if old.isSome then .error .repeated else value.map some

/-- A path must not be empty. -/
def readPath (value : String) : Except UsageFault String :=
  if value == "" then .error (.invalidValue value) else .ok value

def readFormat (value : String) : Except UsageFault Format :=
  match Format.ofName? value with
  | some f => .ok f
  | none => .error (.invalidValue value)

def readNumber (value : String) : Except UsageFault Nat :=
  match number? value with
  | some n => .ok n
  | none => .error (.notANumber value)

namespace Given

/-- What is given with one more setting. -/
def set (g : Given) (s : Setting) (value : String) : Except UsageFault Given :=
  match s with
  | .repositoryUrl => do return { g with repositoryUrl := ← once g.repositoryUrl (.ok value) }
  | .branch => do return { g with branch := ← once g.branch (.ok value) }
  | .format => do return { g with format := ← once g.format (readFormat value) }
  | .config => do return { g with config := ← once g.config (readPath value) }
  | .jobs => do return { g with jobs := ← once g.jobs (readNumber value) }
  | .maxDepth => do return { g with maxDepth := ← once g.maxDepth (readNumber value) }

/-- The most that verbosity counts. -/
def mostVerbose : Nat := 255

/-- What is given with the environment and the defaults for the rest. -/
def complete (g : Given) (env : Environment) : Except UsageFault Arguments :=
  if g.paths.isEmpty then .error .noPaths
  else
    .ok {
      paths := g.paths
      repositoryUrl := (g.repositoryUrl <|> env.repositoryUrl).getD ""
      branch := (g.branch <|> env.branch).getD "main"
      format := g.format.getD .text
      config := g.config
      jobs := g.jobs
      maxDepth := g.maxDepth
      verbosity := g.verbosity }

end Given

/-! ## Words -/

/-- What was read but not looked at yet. -/
inductive Pending where
  | nothing
  /-- An option without its value. -/
  | awaiting (s : Setting)
  | valued (s : Setting) (value : String)
  /-- Paths, the last first. -/
  | paths (backwards : List String)
  deriving DecidableEq, Repr

/-- The state between two words. -/
structure Reading where
  given : Given := {}
  pending : Pending := .nothing
  /-- Whether every further word is a path. -/
  onlyPaths : Bool := false
  deriving DecidableEq, Repr

namespace Reading

/-- Ends with a fault. -/
def stop {α : Type} (f : UsageFault) : Except Stop α :=
  .error (.fault f)

/-- A fault ends the reading. -/
def orStop {α : Type} : Except UsageFault α → Except Stop α
  | .ok x => .ok x
  | .error f => .error (.fault f)

/-- Looks at what is pending. -/
def settle (r : Reading) : Except Stop Given :=
  match r.pending with
  | .nothing => .ok r.given
  | .awaiting _ => stop (.invalidValue "")
  | .valued s value => orStop (r.given.set s value)
  | .paths backwards => orStop do
    return { r.given with paths := r.given.paths ++ (← backwards.reverse.mapM readPath) }

/-- Settles what is pending and goes on. -/
def settled (r : Reading) : Except Stop Reading := do
  return { r with given := ← r.settle, pending := .nothing }

/-- Takes a switch. -/
def switch (r : Reading) (s : Switch) : Except Stop Reading := do
  let r ← r.settled
  match s with
  | .verbose =>
    return { r with given.verbosity := min Given.mostVerbose (r.given.verbosity + 1) }
  | .help => .error .help
  | .version => .error .version

/-- Takes an option with the value that is attached to it, if there is one. -/
def setting (r : Reading) (s : Setting) (attached : Option (List Char)) :
    Except Stop Reading := do
  let r ← r.settled
  match attached with
  | none => return { r with pending := .awaiting s }
  | some value => return { r with given := ← orStop (r.given.set s (String.ofList value)) }

/-- Takes a long option; the word without its dashes is given. -/
def long (r : Reading) (word : List Char) : Except Stop Reading :=
  let value := match word.dropWhile (· != '=') with
    | _ :: v => some v
    | [] => none
  match Choice.ofLong? (word.takeWhile (· != '=')), value with
  | none, _ => stop .unknownOption
  | some (.switch _), some v => stop (.unwantedValue (String.ofList v))
  | some (.switch s), none => r.switch s
  | some (.setting s), _ => r.setting s value

/-- Takes a cluster of short options. -/
def short (r : Reading) : List Char → Except Stop Reading
  | [] => .ok r
  | c :: cs =>
    match Choice.ofShort? c with
    | none => stop .unknownOption
    | some (.switch s) => do (← r.switch s).short cs
    | some (.setting s) =>
      match cs with
      | [] => r.setting s none
      | '=' :: value => r.setting s (some value)
      | value => r.setting s (some value)

/-- Takes a path. -/
def path (r : Reading) (word : String) : Except Stop Reading :=
  match r.pending with
  | .paths backwards => .ok { r with pending := .paths (word :: backwards) }
  | _ => do return { (← r.settled) with pending := .paths [word] }

/-- Takes one word. -/
def word (r : Reading) (w : String) : Except Stop Reading :=
  if r.onlyPaths then r.path w
  else
    match w.toList with
    | ['-', '-'] => .ok { r with onlyPaths := true }
    | '-' :: '-' :: rest => r.long rest
    | '-' :: c :: rest => r.short (c :: rest)
    | _ =>
      match r.pending with
      | .awaiting s => .ok { r with pending := .valued s w }
      | _ => r.path w

end Reading

/-- What all words have given. -/
def given (words : List String) : Except Stop Given := do
  (← words.foldlM Reading.word {}).settle

/-- Reads the words of a command line. -/
def arguments (env : Environment) (words : List String) : Except Stop Arguments := do
  Reading.orStop ((← given words).complete env)

end CodeRisk.CommandLine
