import CodeRisk.Error
import CodeRisk.Java.Cursor
import CodeRisk.Java.Repair
import CodeRisk.SourceUnit.OfTree

/-!
# Source units of Java text

A text is refused if its syntax tree is too high, whether or not it has errors, and otherwise if the
tree has an error. All other texts have a unit.
-/
namespace CodeRisk

/-- The highest syntax tree that is accepted. -/
def maxTreeHeight : Nat := 1000

/-- What is wrong with a text. -/
inductive Malformation where
  | tooDeep (height : Nat)
  | faulty (line : Nat)
  deriving DecidableEq, Repr

/-- The text of a malformation. -/
def Malformation.message : Malformation → String
  | tooDeep height => s!"syntax nesting depth {height} exceeds limit of {maxTreeHeight}"
  | faulty line => s!"syntax error near line {line}"

/-- The number of lines of a text; a line break at the end begins no new line. -/
def lineCountOf (source : String) : Nat :=
  let cs := source.toList
  cs.count '\n' + (if cs.isEmpty || cs.getLast? == some '\n' then 0 else 1)

namespace SourceUnit

/-- The unit of a syntax tree, unless the tree is out of order. -/
def ofTree? (lineCount : Nat) (tree : Java.Tree) : Except Malformation SourceUnit :=
  let depth := tree.depth
  if maxTreeHeight < depth then .error (.tooDeep depth)
  else if tree.hasError then .error (.faulty (tree.firstErrorLine.getD 1))
  else .ok (.ofTree lineCount tree)

/-- The unit of a Java text. The path only serves the error. -/
def parse (path source : String) : Except AnalysisError SourceUnit :=
  match ofTree? (lineCountOf source) (Java.read source) with
  | .ok u => .ok u
  | .error m => .error (.malformedUnit path m.message)

end SourceUnit

end CodeRisk
