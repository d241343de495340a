/-!
# TOML documents

A document is a table of keys in the order in which they stand. Keys and values know where they
stand in the text. `Table.put` and `Table.open` build a document line by line and refuse what would
define a key twice.
-/
namespace CodeRisk.Toml

/-- A stretch of text, by the numbers of characters before its beginning and its end. -/
structure Span where
  start : Nat
  stop : Nat
  deriving DecidableEq, Repr

/-- A part of a key. -/
structure Key where
  name : String
  span : Span
  deriving DecidableEq, Repr

/-- How a table came about. -/
inductive TableForm where
  /-- By a header of its own. -/
  | header
  /-- By the header of a table inside it. -/
  | implied
  /-- By a key with dots. -/
  | dotted
  deriving DecidableEq, Repr

/-- A value, or a table or list of tables. -/
inductive Node where
  | string (s : String)
  | integer (n : Int)
  | float (x : Float)
  | boolean (b : Bool)
  | datetime
  | array (items : List (Span × Node))
  | inline (form : TableForm) (entries : List (Key × Option Span × Node))
  | table (form : TableForm) (entries : List (Key × Option Span × Node))
  | tables (elements : List (Span × Node))
  deriving Inhabited

/-- A key with its value; tables without a header have no place of their own. -/
abbrev Entry := Key × Option Span × Node

/-- Keys with their values in order. -/
abbrev Entries := List Entry

namespace Entries

/-- Whether a key is there. -/
def has (es : Entries) (name : String) : Bool :=
  es.any fun e => e.1.name == name

/-- Replaces the value of a key by what `f` makes of it. -/
def update (name : String) (f : Entry → Option Entry) : Entries → Option Entries
  | [] => some []
  | e :: es =>
    if e.1.name == name then (f e).map (· :: es) else (update name f es).map (e :: ·)

/-- The last element of a list replaced by what `f` makes of it. -/
def updateLast (f : Node → Option Node) : List (Span × Node) → Option (List (Span × Node))
  | [] => none
  | [(s, n)] => (f n).map fun m => [(s, m)]
  | x :: xs => (updateLast f xs).map (x :: ·)

/-- Applies `f` to the table at the end of a path that leads through tables and the last elements of
lists of tables. Tables that are not there yet are made. A path of a dotted key leads through tables
without a header only. -/
def within (dotted : Bool) (f : Bool → Entries → Option Entries) (asDotted : Bool) :
    List Key → Entries → Option Entries
  | [], es => f asDotted es
  | k :: ks, es =>
    if has es k.name then
      update k.name (fun (key, span, node) =>
        match node with
        | .table form inner =>
          if dotted && form == .header then none
          else (within dotted f (form == .dotted) ks inner).map fun inner =>
            (key, span, .table form inner)
        | .tables elements =>
          (updateLast (fun element =>
            match element with
            | .table form inner => (within dotted f (form == .dotted) ks inner).map (.table form)
            | _ => none) elements).map fun elements => (key, span, .tables elements)
        | _ => none) es
    else
      let form := if dotted then TableForm.dotted else .implied
      (within dotted f dotted ks []).map fun inner => es ++ [(k, none, .table form inner)]

/-- Adds a value under a dotted key. -/
def put (path : List Key) (key : Key) (span : Span) (value : Node) (es : Entries) :
    Option Entries :=
  within true (fun asDotted inner =>
    if asDotted == path.isEmpty || has inner key.name then none
    else some (inner ++ [(key, some span, value)])) false path es

/-- Opens the table with a header: it must be new or only implied so far. -/
def openTable (path : List Key) (key : Key) (span : Span) (es : Entries) : Option Entries :=
  within false (fun _ inner =>
    match inner.find? fun e => e.1.name == key.name with
    | none => some (inner ++ [(key, some span, .table .header [])])
    | some (_, _, .table .implied old) =>
      some ((inner.filter fun e => e.1.name != key.name) ++
        [(key, some span, .table .header old)])
    | some _ => none) false path es

/-- Adds an element to the list of tables with a header in double brackets. -/
def openElement (path : List Key) (key : Key) (span : Span) (es : Entries) : Option Entries :=
  within false (fun _ inner =>
    if has inner key.name then
      update key.name (fun (k, place, node) =>
        match node with
        | .tables elements =>
          let whole := (place.map fun s => Span.mk s.start span.stop).getD span
          some (k, some whole, .tables (elements ++ [(span, .table .header [])]))
        | _ => none) inner
    else some (inner ++ [(key, some span, .tables [(span, .table .header [])])])) false path es

end Entries

end CodeRisk.Toml
