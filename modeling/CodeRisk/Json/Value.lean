/-!
# JSON values

A JSON value as it stands in a text: objects keep the order of their members, and whole numbers are
told apart from numbers with a fraction or an exponent.
-/
namespace CodeRisk

/-- A JSON value. -/
inductive Json where
  | null
  | bool (b : Bool)
  | integer (n : Int)
  | float (x : Float)
  | string (s : String)
  | array (items : List Json)
  | object (members : List (String × Json))

namespace Json

/-- A natural number as a value. -/
def nat (n : Nat) : Json := integer n

/-- A list of strings as a value. -/
def strings (xs : List String) : Json := array (xs.map string)

/-- A string or nothing as a value. -/
def optional (x : Option Json) : Json := x.getD null

/-- The member with the given name. -/
def get? (j : Json) (name : String) : Option Json :=
  match j with
  | object members => members.lookup name
  | _ => none

end Json

end CodeRisk
