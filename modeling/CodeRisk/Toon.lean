import CodeRisk.Batch
import CodeRisk.Decimal.Shortest
import CodeRisk.Scale

/-!
# Compact records

Analysis results in a notation with one line for each field, and with tables for lists of records of
the same shape. What is empty or false is left out where nothing is lost by it.
-/
namespace CodeRisk.Toon

/-- A value without parts. -/
inductive Scalar (ν : Type) where
  | text (s : String)
  | nat (n : Nat)
  | real (x : ν)
  | bool (b : Bool)
  deriving DecidableEq, Repr

/-- The value of a field. -/
inductive Value (ν : Type) where
  | scalar (x : Scalar ν)
  /-- A list of texts. -/
  | list (items : List String)
  /-- Rows of the same columns. -/
  | table (columns : List String) (rows : List (List (Scalar ν)))
  deriving DecidableEq, Repr

/-- The fields of a record in order. -/
abbrev Record (ν : Type) := List (String × Value ν)

variable {ν : Type}

namespace Value

def text (s : String) : Value ν := scalar (.text s)

def nat (n : Nat) : Value ν := scalar (.nat n)

def counter (n : UInt32) : Value ν := nat n.toNat

def bool (b : Bool) : Value ν := scalar (.bool b)

end Value

/-- A number rounded to hundredths. -/
def hundredths [Scale ν] (x : ν) : ν :=
  Scale.round (x * 100.0) / 100.0

/-- The field, unless the condition fails. -/
def field? (present : Bool) (name : String) (v : Value ν) : Record ν :=
  if present then [(name, v)] else []

/-- The row of a method over the thresholds. -/
def methodRow (m : MethodComplexity) : List (Scalar ν) :=
  [.text m.name, .nat m.cyclomatic.toNat, .nat m.cognitive.toNat, .nat m.lineCount]

/-- The fields of a file's results. -/
def ofMetadata [Scale ν] (m : FileMetadata ν) : Record ν :=
  [("file", .text m.filePath), ("class", .text m.className), ("package", .text m.packageName),
   ("repo", .text m.repositoryUrl), ("branch", .text m.branch), ("lines", .nat m.lineCount),
   ("risk", .scalar (.real (hundredths m.riskScore))),
   ("cyclomatic", .counter m.code.cyclomatic), ("cognitive", .counter m.code.cognitive),
   ("methods", .counter m.code.totalMethods),
   ("avg_method_lines", .scalar (.real (hundredths m.code.averageMethodLength))),
   ("max_nesting", .counter m.code.maxNestingDepth)] ++
  field? (!m.code.complexMethods.isEmpty) "complex_methods"
    (.table ["name", "cyclomatic", "cognitive", "lines"] (m.code.complexMethods.map methodRow)) ++
  [("criticality", .scalar (.real (hundredths m.business.criticality)))] ++
  field? m.business.hasBusinessAnnotations "business_annotated" (.bool true) ++
  field? (!m.business.businessMethods.isEmpty) "business_methods"
    (.list m.business.businessMethods) ++
  field? (m.business.validationComplexity != 0) "validation"
    (.counter m.business.validationComplexity) ++
  [("transactions", .bool m.business.transactionHandling),
   ("exceptions", .bool m.business.exceptionHandling),
   ("fan_out", .counter m.dependencies.fanOut)] ++
  field? (!m.dependencies.outgoing.toList.isEmpty) "depends_on"
    (.list m.dependencies.outgoing.toList) ++
  [("recommendations", .list (m.recommendations.map Recommendation.shown)),
   ("analyzed_at", .text (m.analyzedAt.render "+00:00"))]

/-! ## Texts -/

/-- Characters that make quotes necessary. -/
def delimiters : List Char :=
  ['[', ']', '{', '}', ':', '-', ',', ' ', '\t', '\n', '\r']

/-- Whether a text could be taken for a number. -/
def looksNumeric (s : List Char) : Bool :=
  let rest := match s with
    | '-' :: more => more
    | _ => s
  match rest with
  | [] => false
  | c :: more =>
    let zeroBefore := c == '0' && (more.head?.map Char.isDigit).getD false
    c.isDigit && !zeroBefore &&
      more.all fun d => d.isDigit || d == '.' || d == 'e' || d == 'E' || d == '+' || d == '-'

/-- Whether a text must stand between quotes. -/
def needsQuotes (s : String) : Bool :=
  s == "" || s == "null" || s == "true" || s == "false" || looksNumeric s.toList ||
    s.toList.any delimiters.contains

/-- A character between quotes. -/
def escapeChar (c : Char) : List Char :=
  match c with
  | '\n' => ['\\', 'n']
  | '\r' => ['\\', 'r']
  | '\t' => ['\\', 't']
  | '"' => ['\\', '"']
  | '\\' => ['\\', '\\']
  | c => [c]

/-- A text, between quotes if need be. -/
def text (s : String) : String :=
  if needsQuotes s then String.ofList ('"' :: (s.toList.flatMap escapeChar ++ ['"'])) else s

/-- The largest and the smallest whole number of 64 bits. -/
def clampWhole (n : Int) : Int :=
  let bound : Int := Nat.pow 2 63
  max (-bound) (min n (bound - 1))

/-- A number in floating point. A whole number is cut to 64 bits and ends in `.0`; a negative zero is
`0`. -/
def real (x : Float) : String :=
  match Decimal.Binary64.ofFloat x with
  | .nan | .infinite _ => "null"
  | .finite negative m e =>
    let (num, den) := Decimal.Binary64.ratio m e
    if negative && m = 0 then "0"
    else if num % den = 0 then
      let n : Int := (num / den : Nat)
      toString (clampWhole (if negative then -n else n)) ++ ".0"
    else Decimal.Style.positional.render x

/-- The text of a value without parts. -/
def scalar : Scalar Float → String
  | .text s => text s
  | .nat n => toString n
  | .real x => real x
  | .bool b => if b then "true" else "false"

/-- The lines of a field. -/
def lines (name : String) : Value Float → List String
  | .scalar x => [s!"{name}: {scalar x}"]
  | .list [] => [s!"{name}[0]:"]
  | .list items => [s!"{name}[{items.length}]: " ++ ",".intercalate (items.map text)]
  | .table columns rows =>
    (s!"{name}[{rows.length}]" ++ "\x7b" ++ ",".intercalate columns ++ "\x7d:") ::
      rows.map fun row => "  " ++ ",".intercalate (row.map scalar)

/-- The text of a record. -/
def render (r : Record Float) : String :=
  "\n".intercalate (r.flatMap fun (name, v) => lines name v)

/-- The text of a file's results. -/
def ofFile (m : FileMetadata Float) : String :=
  render (ofMetadata m)

/-- The record of the files that failed. -/
def ofFailures (fs : List BatchFailure) : Record Float :=
  [("_type", .text "failures"),
   ("failures", .table ["path", "kind", "reason"]
     (fs.map fun f => [.text f.path, .text f.kind, .text f.reason]))]

/-- The line behind each record of a batch. -/
def separator : String := "---"

/-- The text of a batch: the records, each with a separator behind it, and then the failures. -/
def ofBatch (b : BatchReport Float) : String :=
  String.join (b.results.map fun m => ofFile m ++ "\n" ++ separator ++ "\n") ++
    if b.failures.isEmpty then "" else render (ofFailures b.failures) ++ "\n"

end CodeRisk.Toon
