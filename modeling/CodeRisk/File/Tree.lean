import CodeRisk.File.Path

/-!
# Files and directories

What is on disk, as far as it can be seen: a tree of directories whose leaves are files. A file that
is not text has no text, and a directory that may not be read shows nothing of what is in it. A
`Disk` is such a tree together with the directory from which relative paths start, and `Disk.find`
says what stands at a path or why nothing can be seen there. No path is longer than a limit, so what
is seen from a path may be less than what is there.
-/
namespace CodeRisk

/-- A file or a directory. -/
inductive FileTree where
  /-- A file with its text; there is none if its bytes are not UTF-8. -/
  | file (text : Option String)
  /-- A directory; no two entries bear the same name. -/
  | directory (entries : List (String × FileTree))
  /-- A directory that may not be read or passed through. -/
  | locked

/-- Why something on disk cannot be read. -/
inductive ReadFault where
  | missing
  /-- A part of the path leads on from something that is no directory. -/
  | throughFile
  | isDirectory
  | denied
  | nameTooLong
  | hasNul
  | notText
  deriving DecidableEq, Repr

/-- The text of a fault. -/
def ReadFault.message : ReadFault → String
  | missing => "No such file or directory (os error 2)"
  | throughFile => "Not a directory (os error 20)"
  | isDirectory => "Is a directory (os error 21)"
  | denied => "Permission denied (os error 13)"
  | nameTooLong => "File name too long (os error 36)"
  | hasNul => "file name contained an unexpected NUL byte"
  | notText => "stream did not contain valid UTF-8"

namespace FileTree

/-- The text of a file. -/
def text : FileTree → Except ReadFault String
  | file (some t) => .ok t
  | file none => .error .notText
  | directory _ => .error .isDirectory
  | locked => .error .denied

/-- The most bytes that a name may have. -/
def longestName : Nat := 255

/-- The first number of bytes that no path has. -/
def longestPath : Nat := 4096

/-- Follows the parts of a path. The directories above are given, the nearest first; nothing is
above the topmost but itself. -/
def walk : List FileTree → FileTree → List (List Char) → Except ReadFault FileTree
  | _, here, [] => .ok here
  | _, file _, _ :: _ => .error .throughFile
  -- a slash at the end asks nothing of the directory itself
  | above, locked, p :: ps => if p = [] then walk above locked ps else .error .denied
  | above, directory entries, p :: ps =>
    if Path.isHere p then walk above (directory entries) ps
    else if Path.isAbove p then
      match above with
      | [] => walk [] (directory entries) ps
      | d :: ds => walk ds d ps
    else if longestName < (String.ofList p).utf8ByteSize then .error .nameTooLong
    else
      match entries.lookup (String.ofList p) with
      | none => .error .missing
      | some next => walk (directory entries :: above) next ps

mutual

/-- The tree as it is seen from a path: without the entries whose own paths would be too long. The
paths of the entries are their names after `used` bytes. -/
def within (used : Nat) : FileTree → FileTree
  | file text => file text
  | directory entries => directory (entriesWithin used entries)
  | locked => locked

/-- The entries whose paths are not too long, each with what is seen of it. -/
def entriesWithin (used : Nat) : List (String × FileTree) → List (String × FileTree)
  | [] => []
  | (name, node) :: rest =>
    let length := used + name.utf8ByteSize
    if longestPath ≤ length then entriesWithin used rest
    else (name, node.within (length + 1)) :: entriesWithin used rest

end

/-- The entries of a directory that can be seen; a file has none. -/
def entries : FileTree → List (String × FileTree)
  | file _ | locked => []
  | directory es => es

/-- Entries with one put in the place of that of the same name, or at the end. -/
def putEntry (name : String) (node : FileTree) :
    List (String × FileTree) → List (String × FileTree)
  | [] => [(name, node)]
  | (n, old) :: rest => if n = name then (n, node) :: rest else (n, old) :: putEntry name node rest

/-- The tree with something made of what stands under a list of names. Directories on the way are
made if they are not there; nothing is made in one that is locked. -/
def alter (make : Option FileTree → FileTree) : List String → Option FileTree → FileTree
  | [], node => make node
  | _ :: _, some locked => locked
  | name :: names, node =>
    let es := (node.map entries).getD []
    directory (putEntry name (alter make names (es.lookup name)) es)

/-- The directory that a node is, or an empty one. -/
def asDirectory : Option FileTree → FileTree
  | some (directory es) => directory es
  | some locked => locked
  | _ => directory []

end FileTree

/-- What is on disk, and where relative paths start. -/
structure Disk where
  root : FileTree
  /-- The names that lead to the directory from which relative paths start. -/
  start : List String

namespace Disk

/-- The parts of a path with those that lead to where it starts, from the root on. -/
def route (d : Disk) (path : String) : List (List Char) :=
  if path.toList.head? == some '/' then Path.parts path.toList
  else d.start.map (·.toList) ++ Path.parts path.toList

/-- What stands at a path, with all below it that can be seen from there. -/
def find (d : Disk) (path : String) : Except ReadFault FileTree :=
  if path.toList.contains '\x00' then .error .hasNul
  else if path.toList.isEmpty then .error .missing
  else if FileTree.longestPath ≤ path.utf8ByteSize then .error .nameTooLong
  else (d.root.walk [] (d.route path)).map (FileTree.within (Path.asPrefix path).utf8ByteSize)

/-- The names that a path consists of, from the root on. -/
def names (d : Disk) (path : String) : List String :=
  let own := ((Path.parts path.toList).filter fun p => !Path.isHere p).map String.ofList
  if path.toList.head? == some '/' then own else d.start ++ own

/-- The disk after a file was written. -/
def write (d : Disk) (path : String) (text : Option String) : Disk :=
  { d with root := FileTree.alter (fun _ => .file text) (d.names path) (some d.root) }

/-- The disk after a directory was made. -/
def makeDirectory (d : Disk) (path : String) : Disk :=
  { d with root := FileTree.alter FileTree.asDirectory (d.names path) (some d.root) }

end Disk

end CodeRisk
