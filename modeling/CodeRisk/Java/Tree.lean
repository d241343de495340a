import CodeRisk.Java.Kind

/-!
# Syntax trees

A syntax tree keeps the whole text: each leaf holds its token with the blank text before it. The
text of a node and the rows it covers are read off its leaves. Comments are nodes like any other.
Text that could not be read shows as a node of kind `error` or as a leaf that is marked missing.
-/
namespace CodeRisk.Java

/-- A token as it stands in the text. -/
structure Lexeme where
  /-- The blank text before the token. -/
  blank : String
  text : String
  /-- The row on which the token starts, counted from 0. -/
  row : Nat
  /-- Whether the token is not in the text but was expected there. -/
  missing : Bool := false
  deriving DecidableEq, Repr

namespace Lexeme

/-- The number of line breaks in a text. -/
def breaks (s : String) : Nat :=
  s.toList.count '\n'

/-- The row on which the token ends. -/
def endRow (l : Lexeme) : Nat :=
  l.row + breaks l.text

/-- The token with the blank text before it. -/
def written (l : Lexeme) : String :=
  l.blank ++ l.text

/-- The text from the start of the first token to the end of the last. -/
def join : List Lexeme → String
  | [] => ""
  | first :: rest => first.text ++ String.join (rest.map written)

end Lexeme

/-- A syntax tree. `field` is the node's role in its parent. -/
inductive Tree where
  | leaf (kind : TokenKind) (field : Option Field) (lexeme : Lexeme)
  | branch (kind : NodeKind) (field : Option Field) (children : List Tree)
  deriving Repr

namespace Tree

/-- The node's role in its parent. -/
def field : Tree → Option Field
  | leaf _ f _ => f
  | branch _ f _ => f

/-- The nodes below, in the order of the text. -/
def children : Tree → List Tree
  | leaf .. => []
  | branch _ _ cs => cs

/-- The same tree in the role `f`, unless it has a role already. -/
def inRole (f : Field) : Tree → Tree
  | leaf k g l => leaf k (some (g.getD f)) l
  | branch k g cs => branch k (some (g.getD f)) cs

/-- The same tree, a leaf shown under another kind. -/
def shownAs (k : TokenKind) : Tree → Tree
  | leaf _ f l => leaf k f l
  | branch n f cs => branch n f cs

/-- Whether the tree is a branch of kind `k`. -/
def isNode (k : NodeKind) : Tree → Bool
  | leaf .. => false
  | branch n _ _ => n == k

/-- Whether the tree is a leaf of kind `k`. -/
def isToken (k : TokenKind) : Tree → Bool
  | leaf n _ _ => n == k
  | branch .. => false

/-- Keywords, operators and brackets are the only nodes without a name. -/
def isNamed : Tree → Bool
  | leaf k _ _ => k.isNamed
  | branch .. => true

/-- Whether the node is a comment. -/
def isComment : Tree → Bool
  | leaf k _ _ => k.isComment
  | branch .. => false

/-- The children with a name. -/
def namedChildren (t : Tree) : List Tree := t.children.filter isNamed

/-- The first child in the role `f`. -/
def child? (t : Tree) (f : Field) : Option Tree :=
  t.children.find? fun c => c.field == some f

/-- The first branch of kind `k` among the children. -/
def childOfKind? (t : Tree) (k : NodeKind) : Option Tree :=
  t.children.find? (isNode k)

mutual

/-- The tokens of a tree in the order of the text. -/
def leaves : Tree → List Lexeme
  | leaf _ _ l => [l]
  | branch _ _ cs => forestLeaves cs

/-- The tokens of a list of trees in the order of the text. -/
def forestLeaves : List Tree → List Lexeme
  | [] => []
  | t :: ts => t.leaves ++ forestLeaves ts

end

/-- The text that the node covers. -/
def text (t : Tree) : String :=
  Lexeme.join t.leaves

/-- The row on which the node starts, counted from 0. -/
def startRow (t : Tree) : Nat :=
  (t.leaves.head?.map (·.row)).getD 0

/-- The row on which the node ends, counted from 0. -/
def endRow (t : Tree) : Nat :=
  (t.leaves.getLast?.map (·.endRow)).getD 0

mutual

/-- The number of edges on a longest path from the root to a leaf. -/
def height : Tree → Nat
  | leaf .. => 0
  | branch _ _ cs => forestHeight cs

/-- How many levels a list of children adds below their parent. -/
def forestHeight : List Tree → Nat
  | [] => 0
  | t :: ts => max (t.height + 1) (forestHeight ts)

end

/-- Whether the node itself marks an error. -/
def isFault : Tree → Bool
  | leaf _ _ l => l.missing
  | branch k _ _ => k == .error

mutual

/-- Whether the node or one below it marks an error. -/
def hasError : Tree → Bool
  | leaf _ _ l => l.missing
  | branch k _ cs => k == .error || forestHasError cs

/-- Whether a node in the list or below it marks an error. -/
def forestHasError : List Tree → Bool
  | [] => false
  | t :: ts => t.hasError || forestHasError ts

end

mutual

/-- The line, counted from 1, of the first node that marks an error, the parent before its children.
Subtrees without an error are passed over. -/
def firstErrorLine : Tree → Option Nat
  | t@(leaf ..) => if t.isFault then some (t.startRow + 1) else none
  | t@(branch _ _ cs) =>
    if t.isFault then some (t.startRow + 1)
    else if t.hasError then forestFirstErrorLine cs
    else none

/-- The first line of an error in a list of trees. -/
def forestFirstErrorLine : List Tree → Option Nat
  | [] => none
  | t :: ts => t.firstErrorLine <|> forestFirstErrorLine ts

end

end Tree

end CodeRisk.Java
