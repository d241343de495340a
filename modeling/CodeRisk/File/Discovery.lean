import CodeRisk.File.Tree

/-!
# Finding sources

A directory stands for the Java files under it. Hidden things and what was built or fetched are
passed over, and so are directories that may not be read and those deeper than a limit. What is
found is put in order name by name, so the order in which a directory lists its entries does not
matter.
-/
namespace CodeRisk

namespace FileTree

mutual

/-- The Java files at an entry, as lists of names. `depth` more directories may be entered. -/
def sourcesAt (depth : Nat) (name : String) : FileTree → List (List String)
  | file _ => if Path.isJava name then [[name]] else []
  | directory entries =>
    match depth with
    | 0 => []
    | d + 1 => (sourcesIn d entries).map (name :: ·)
  | locked => []

/-- The Java files among entries and below, in the order of the entries. -/
def sourcesIn (depth : Nat) : List (String × FileTree) → List (List String)
  | [] => []
  | (name, node) :: rest =>
    (if Path.isSkipped name then [] else sourcesAt depth name node) ++ sourcesIn depth rest

end

end FileTree

namespace Disk

/-- The Java files under a directory, in order. What is no directory, or may not be read, has
none. -/
def javaFiles (d : Disk) (maxDepth : Nat) (directory : String) : List String :=
  match d.find directory with
  | .ok (.directory entries) =>
    ((FileTree.sourcesIn maxDepth entries).mergeSort Path.inOrder).map (Path.join directory)
  | _ => []

/-- The paths with each directory replaced by the Java files under it. -/
def expand (d : Disk) (maxDepth : Nat) (paths : List String) : List String :=
  paths.flatMap fun path =>
    match d.find path with
    | .ok (.directory _) | .ok .locked => d.javaFiles maxDepth path
    | _ => [path]

end Disk

end CodeRisk
