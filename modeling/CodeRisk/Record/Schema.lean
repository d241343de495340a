import CodeRisk.Decimal.Shortest
import CodeRisk.Json.Value
import CodeRisk.Text.Quoted

/-!
# Record schemas

A schema says what a JSON value must look like to be read as a record. `Schema.check` goes through a
value in the order in which it is written and either stops at the first thing that does not fit, or
gives the value back in its canonical form: all fields in the order of the schema, absent options as
`null`, nothing else.
-/
namespace CodeRisk.Record

/-- Why a value cannot be read as a record. -/
inductive Misfit where
  | missingField (name : String)
  | invalidType (found expected : String)
  | invalidValue (found expected : String)
  | invalidLength (length : Nat) (expected : String)
  | unknownVariant (found : String) (known : List String)
  | unknownField (name : String) (known : List String)
  | unreadable (reason : String)
  deriving DecidableEq, Repr

/-- The known names of a choice, as they are listed in a message. -/
def listed (known : List String) : String :=
  match known.map fun k => s!"`{k}`" with
  | [] => "there are no variants"
  | [a] => "expected " ++ a
  | [a, b] => "expected " ++ a ++ " or " ++ b
  | all => "expected one of " ++ ", ".intercalate all

/-- The text of a misfit. -/
def Misfit.message : Misfit → String
  | missingField name => s!"missing field `{name}`"
  | invalidType found expected => s!"invalid type: {found}, expected {expected}"
  | invalidValue found expected => s!"invalid value: {found}, expected {expected}"
  | invalidLength length expected => s!"invalid length {length}, expected {expected}"
  | unknownVariant found known => s!"unknown variant `{found}`, {listed known}"
  | unknownField name known => s!"unknown field `{name}`, {listed known}"
  | unreadable reason => reason

/-- How a value is called in a message. -/
def found : Json → String
  | .null => "null"
  | .bool b => if b then "boolean `true`" else "boolean `false`"
  | .integer n => s!"integer `{n}`"
  | .float x => s!"floating point `{Decimal.Style.pointed.render x}`"
  | .string s => "string " ++ Text.quoted s
  | .array _ => "sequence"
  | .object _ => "map"

/-- What a value must look like. -/
inductive Schema where
  | text
  | bool
  /-- A whole number from 0 to the limit. -/
  | whole (name : String) (limit : Nat)
  /-- A number; whole numbers will do. -/
  | real
  /-- A text that a reader of its own accepts or refuses. -/
  | read (expected : String) (accept : String → Except String Unit)
  | list (item : Schema)
  | option (item : Schema)
  /-- An object with named fields; the values in order will do. -/
  | fields (name : String) (fields : List (String × Schema))
  /-- One of several variants: a bare name, a name with a value, or a name with fields. -/
  | choice (bare : List String) (valued : List (String × Schema))
      (fielded : List (String × List (String × Schema))) (known : List String)
  /-- The schema of a type that is defined elsewhere. -/
  | named (type : String)

/-- The schemas of named types. -/
abbrev Definitions := String → Schema

namespace Schema

/-- The schema itself, a named one replaced by its definition. -/
def resolve (defs : Definitions) : Schema → Schema
  | named type => defs type
  | s => s

/-- What a value that is there must look like: names are replaced, and options count as what they
hold. -/
def content (defs : Definitions) : Schema → Schema
  | option (named type) => defs type
  | option s => s
  | named type =>
    match defs type with
    | option s => s
    | s => s
  | s => s

/-- Whether a value may be absent. -/
def isOption : Schema → Bool
  | option _ => true
  | _ => false

/-- The fields of an object in the order of the schema. A field that was not found must be an
option. -/
def complete (values : List (String × Json)) :
    List (String × Schema) → Except Misfit (List (String × Json))
  | [] => .ok []
  | (name, s) :: rest =>
    match values.lookup name with
    | some v => do return (name, v) :: (← complete values rest)
    | none =>
      if s.isOption then do return (name, .null) :: (← complete values rest)
      else .error (.missingField name)

/-- A whole number that must not be above the limit. -/
def checkWhole (name : String) (limit : Nat) : Json → Except Misfit Json
  | .integer n =>
    if 0 ≤ n && n ≤ limit then .ok (.integer n)
    else .error (.invalidValue s!"integer `{n}`" name)
  | j => .error (.invalidType (found j) name)

/-- A value without parts. -/
def checkScalar (s : Schema) (j : Json) : Except Misfit Json :=
  match s, j with
  | text, .string t => .ok (.string t)
  | text, _ => .error (.invalidType (found j) "a string")
  | bool, .bool b => .ok (.bool b)
  | bool, _ => .error (.invalidType (found j) "a boolean")
  | whole name limit, _ => checkWhole name limit j
  | real, .float x => .ok (.float x)
  | real, .integer n => .ok (.float (Float.ofInt n))
  | real, _ => .error (.invalidType (found j) "f64")
  | read _ accept, .string t =>
    match accept t with
    | .ok () => .ok (.string t)
    | .error reason => .error (.unreadable reason)
  | read expected _, _ => .error (.invalidType (found j) expected)
  | list _, _ => .error (.invalidType (found j) "a sequence")
  | fields name _, _ => .error (.invalidType (found j) name)
  | choice bare valued fielded known, .string v =>
    if bare.contains v then .ok (.string v)
    else if (valued.lookup v).isSome then
      .error (.invalidType "unit variant" "newtype variant")
    else if (fielded.lookup v).isSome then
      .error (.invalidType "unit variant" "struct variant")
    else .error (.unknownVariant v known)
  | choice .., .object _ => .error (.invalidValue "map" "map with a single key")
  | choice .., _ => .error (.invalidType (found j) "string or map")
  | option _, _ => .ok .null
  | named _, _ => .error (.unreadable "undefined type")

mutual

/-- The canonical form of a value that fits the schema, or the first misfit. -/
def check (defs : Definitions) : Json → Schema → Except Misfit Json
  | .null, s => checkScalar (s.resolve defs) .null
  | .bool b, s => checkScalar (s.content defs) (.bool b)
  | .integer n, s => checkScalar (s.content defs) (.integer n)
  | .float x, s => checkScalar (s.content defs) (.float x)
  | .string t, s => checkScalar (s.content defs) (.string t)
  | .array xs, s =>
    match s.content defs with
    | list item => do return .array (← checkItems defs xs item)
    | fields name fs => do return .object (← checkPositions defs xs xs.length name fs fs [])
    | s => checkScalar s (.array xs)
  | .object [(v, body)], s =>
    match s.content defs with
    | fields _ fs => do return .object (← checkMembers defs [(v, body)] fs [])
    | choice bare valued fielded known =>
      if bare.contains v then
        match body with
        | .null => .ok (.string v)
        | _ => .error (.invalidType (found body) "unit")
      else
        match valued.lookup v with
        | some item => do return .object [(v, ← check defs body item)]
        | none =>
          match fielded.lookup v with
          | some fs =>
            match body with
            | .object ms => do return .object [(v, .object (← checkMembers defs ms fs []))]
            | _ => .error (.invalidType (found body) "struct variant")
          | none => .error (.unknownVariant v known)
    | s => checkScalar s (.object [(v, body)])
  | .object ms, s =>
    match s.content defs with
    | fields _ fs => do return .object (← checkMembers defs ms fs [])
    | s => checkScalar s (.object ms)

/-- The items of a list. -/
def checkItems (defs : Definitions) : List Json → Schema → Except Misfit (List Json)
  | [], _ => .ok []
  | x :: xs, item => do
    let x ← check defs x item
    return x :: (← checkItems defs xs item)

/-- The members of an object, of which those that are no fields are passed over. -/
def checkMembers (defs : Definitions) :
    List (String × Json) → List (String × Schema) → List (String × Json) →
    Except Misfit (List (String × Json))
  | [], fs, values => complete values fs
  | (name, x) :: ms, fs, values =>
    match fs.lookup name with
    | some s => do checkMembers defs ms fs ((name, ← check defs x s) :: values)
    | none => checkMembers defs ms fs values

/-- The values of an object that is written as a list. -/
def checkPositions (defs : Definitions) :
    List Json → Nat → String → List (String × Schema) → List (String × Schema) →
    List (String × Json) → Except Misfit (List (String × Json))
  | [], n, name, all, rest, values =>
    if rest.isEmpty then complete values all
    else .error (.invalidLength n s!"{name} with {all.length} elements")
  | _ :: _, n, _, _, [], _ => .error (.invalidLength n "fewer elements in array")
  | x :: xs, n, name, all, (field, s) :: rest, values => do
    checkPositions defs xs n name all rest ((field, ← check defs x s) :: values)

end

end Schema

end CodeRisk.Record
