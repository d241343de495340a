import CodeRisk.Text.Infix
import CodeRisk.Text.LowerCase

/-!
# Paths

A path is a text whose parts are set apart by slashes. Empty parts and single points stand for the
place where they occur, so they are passed over when the last name of a path is wanted; two points
stand for the directory above and are no name.
-/
namespace CodeRisk.Path

/-- The parts between the slashes of a path. -/
def parts : List Char → List (List Char)
  | [] => [[]]
  | c :: cs =>
    if c = '/' then [] :: parts cs
    else
      match parts cs with
      | [] => [[c]]
      | p :: ps => (c :: p) :: ps

/-- The part that stands for the place itself. -/
def isHere (part : List Char) : Bool :=
  part == [] || part == ['.']

/-- The part that stands for the directory above. -/
def isAbove (part : List Char) : Bool :=
  part == ['.', '.']

/-- The name that a path ends in, if it ends in a name. -/
def fileName? (path : String) : Option String :=
  match (parts path.toList).reverse.dropWhile isHere with
  | [] => none
  | p :: _ => if isAbove p then none else some (String.ofList p)

/-- What follows the last point of a name, unless that point begins the name. -/
def extension? (path : String) : Option String := do
  let backwards := (← fileName? path).toList.reverse
  match backwards.dropWhile (· != '.') with
  | _ :: _ :: _ => some (String.ofList (backwards.takeWhile (· != '.')).reverse)
  | _ => none

/-- Whether a path names a Java source; upper and lower case are the same. -/
def isJava (path : String) : Bool :=
  (extension? path).any fun e => Text.lower e == "java"

/-- Names of directories that hold what was built or fetched. -/
def builtNames : List String :=
  ["target", "build", "out", "bin", "node_modules", "generated-sources"]

/-- Whether a search passes over what bears the name that the path ends in: hidden things, and what
was built or fetched. -/
def isSkipped (path : String) : Bool :=
  (fileName? path).any fun name => Text.startsWith "." name || builtNames.contains name

/-- The path of a directory with a slash at its end, as the paths of what is in it begin. -/
def asPrefix (directory : String) : String :=
  directory ++ (if directory.toList.getLast? == some '/' then "" else "/")

/-- The path of what is found under a directory when the names are followed. -/
def join (directory : String) (names : List String) : String :=
  asPrefix directory ++ "/".intercalate names

/-- The order of lists of names: name by name, and what ends first comes first. -/
def inOrder : List String → List String → Bool
  | [], _ => true
  | _ :: _, [] => false
  | a :: as, b :: bs => if a = b then inOrder as bs else decide (a < b)

end CodeRisk.Path
