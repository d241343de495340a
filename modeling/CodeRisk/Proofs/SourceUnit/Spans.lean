import CodeRisk.Proofs.Complexity.Unit
import CodeRisk.Proofs.Java.Placed
import CodeRisk.Proofs.Lowering.Collected
import CodeRisk.Proofs.Parse

/-!
# The lines of a unit

The row of a token counts the line breaks before it, the number of lines of a file counts the line
breaks of its text, and the length of a method is worked out from its first and its last line. In
the unit of a text these go together: all methods and types lie within the lines of the file, and
what is worked out from their lengths stays within bounds (`SourceUnit.HasLines`).
-/
namespace CodeRisk
open Java (Tree Lexeme)

/-- The range is not empty and lies within a file of `n` lines. -/
structure LineSpan.IsWithin (n : Nat) (s : LineSpan) : Prop where
  first : 1 ≤ s.first
  ordered : s.first ≤ s.last
  last : s.last ≤ n

namespace LineSpan.IsWithin
variable {n : Nat} {s : LineSpan}

/-- No range in a file counts as empty. -/
theorem lineCount_add_first (h : s.IsWithin n) : s.lineCount + s.first = s.last + 1 := by
  have hordered := h.ordered
  rw [lineCount]
  omega

theorem one_le_lineCount (h : s.IsWithin n) : 1 ≤ s.lineCount := by
  have hordered := h.ordered
  have hcount := h.lineCount_add_first
  omega

theorem lineCount_le (h : s.IsWithin n) : s.lineCount ≤ n := by
  have hfirst := h.first
  have hlast := h.last
  have hcount := h.lineCount_add_first
  omega

end LineSpan.IsWithin

/-! ## Rows and lines -/

/-- Text that does not end in a line break ends on a line of the file. -/
theorem count_lt_lineCountOf {source : String} {before text after : List Char}
    (hsource : source.toList = before ++ (text ++ after))
    (hlast : text.getLast?.any (· != '\n')) :
    (before ++ text).count '\n' < lineCountOf source := by
  obtain ⟨c, hc, hne⟩ := (Option.any_eq_true _ _).mp hlast
  have htext : text ≠ [] := by
    rintro rfl
    cases hc
  have hcount : source.toList.count '\n' = (before ++ text).count '\n' + after.count '\n' := by
    rw [hsource, ← List.append_assoc, List.count_append]
  have hempty : source.toList.isEmpty = false := by
    rw [hsource]
    simp [htext]
  rw [lineCountOf, hempty, Bool.false_or]
  cases after with
  | nil =>
    have hend : source.toList.getLast? = some c := by
      rw [hsource, List.append_nil, List.getLast?_append, hc]
      rfl
    have hbreak : (some c == some '\n') = false := by simpa using hne
    rw [hend, hbreak]
    simp only [Bool.false_eq_true, if_false]
    omega
  | cons d ds =>
    split
    next hbreak =>
      -- the line break at the end of the file is behind the text
      have hmem : '\n' ∈ d :: ds := by
        have hend : source.toList.getLast? = (d :: ds).getLast? := by
          rw [hsource, ← List.append_assoc,
            List.getLast?_append_of_ne_nil _ (List.cons_ne_nil d ds)]
        rw [hend] at hbreak
        exact List.mem_of_getLast? (eq_of_beq hbreak)
      have hpos : 0 < (d :: ds).count '\n' := List.count_pos_iff.mpr hmem
      omega
    next => omega

namespace Java.Tree.IsLaidOut
variable {source : String} {t n : Tree}

/-- **The lines of a declaration are lines of the file.** -/
theorem isWithin (ht : t.IsLaidOut source) (hn : n ∈ t.nodes) (h : n.isDeclaration) :
    (LineSpan.ofTree n).IsWithin (lineCountOf source) := by
  have hcloses : closes n.leaves := ht.closed n hn h
  have hne : n.leaves ≠ [] := leaves_ne_nil_of_closes hcloses
  obtain ⟨l, hlast, htext⟩ := (Option.any_eq_true _ _).mp hcloses
  obtain ⟨ls, hleaves⟩ := List.getLast?_eq_some_iff.mp hlast
  have hl : l ∈ t.leaves :=
    (leaves_infix_of_mem_nodes t hn).subset (by simp [hleaves])
  obtain ⟨before, after, hsource, hrow⟩ := ht.stand.exists_split hl
  have hline : l.endRow < lineCountOf source := by
    have hcount := count_lt_lineCountOf hsource htext
    rw [List.count_append] at hcount
    rw [Lexeme.endRow, Lexeme.breaks]
    omega
  have hend : n.endRow = l.endRow := endRow_of_leaves hleaves
  have hordered : n.startRow ≤ n.endRow := startRow_le_endRow (ht.inOrder hn) hne
  refine ⟨?_, ?_, ?_⟩
  · show 1 ≤ n.startRow + 1
    omega
  · show n.startRow + 1 ≤ n.endRow + 1
    omega
  · show n.endRow + 1 ≤ lineCountOf source
    omega

/-- A declaration that stands in another one covers none but its lines. -/
theorem span_subset {m : Tree} (ht : t.IsLaidOut source) (hn : n ∈ t.nodes) (hm : m ∈ n.nodes)
    (h : m.isDeclaration) :
    (LineSpan.ofTree n).first ≤ (LineSpan.ofTree m).first ∧
      (LineSpan.ofTree m).last ≤ (LineSpan.ofTree n).last := by
  have hne : m.leaves ≠ [] := leaves_ne_nil_of_closes (ht.closed m (mem_nodes_trans hm t hn) h)
  obtain ⟨hstart, hend⟩ := rows_of_mem_nodes (ht.inOrder hn) hm hne
  exact ⟨Nat.succ_le_succ hstart, Nat.succ_le_succ hend⟩

/-- Declarations start in the order in which they are listed. -/
theorem pairwise_first (ht : t.IsLaidOut source) :
    t.nodes.Pairwise fun n m => n.isDeclaration → m.isDeclaration →
      (LineSpan.ofTree n).first ≤ (LineSpan.ofTree m).first := by
  refine (pairwise_startRow_nodes t ht.stand.inOrder).imp_of_mem ?_
  intro n m hn hm hstarts hndecl hmdecl
  have hne : n.leaves ≠ [] := leaves_ne_nil_of_closes (ht.closed n hn hndecl)
  have hme : m.leaves ≠ [] := leaves_ne_nil_of_closes (ht.closed m hm hmdecl)
  exact Nat.succ_le_succ (hstarts hne hme)

end Java.Tree.IsLaidOut

/-! ## The declarations of a unit -/

theorem isDeclaration_of_typeDecl? {n : Tree} {d : TypeDecl} (h : typeDecl? n = some d) :
    n.isDeclaration ∧ d.span = .ofTree n := by
  obtain ⟨k, hk, rfl⟩ := Option.map_eq_some_iff.mp h
  refine ⟨?_, rfl⟩
  have hdeclares : declaresType n := by
    rw [← typeDecl?_isSome, h]
    rfl
  rw [declaresType] at hdeclares
  rw [Tree.isDeclaration, Bool.or_assoc, hdeclares, Bool.or_true]

theorem isDeclaration_of_isNode {n : Tree} (h : n.isNode .methodDeclaration) : n.isDeclaration := by
  rw [Tree.isDeclaration, h]
  rfl

namespace SourceUnit

/-- **What the lines of a unit are like.** `t` is the tree that the unit was made from. -/
structure HasLines (t : Tree) (u : SourceUnit) : Prop where
  /-- All methods and types lie within the file. -/
  methods : ∀ m ∈ u.methods, m.span.IsWithin u.lineCount
  types : ∀ d ∈ u.types, d.span.IsWithin u.lineCount
  /-- They are listed in the order in which they start. -/
  methodsInOrder : (u.methods.map (·.span.first)).Pairwise (· ≤ ·)
  typesInOrder : (u.types.map (·.span.first)).Pairwise (· ≤ ·)
  /-- A method that stands in another one lies within it. -/
  nested : ∀ outer ∈ t.nodes, outer.isNode .methodDeclaration →
    ∀ inner ∈ outer.nodes, inner.isNode .methodDeclaration →
      MethodDecl.ofTree outer ∈ u.methods ∧ MethodDecl.ofTree inner ∈ u.methods ∧
      (MethodDecl.ofTree outer).span.first ≤ (MethodDecl.ofTree inner).span.first ∧
      (MethodDecl.ofTree inner).span.last ≤ (MethodDecl.ofTree outer).span.last
  /-- No range counts as empty for ending before it starts. -/
  methodsExact : ∀ m ∈ u.methods, m.span.lineCount + m.span.first = m.span.last + 1
  typesExact : ∀ d ∈ u.types, d.span.lineCount + d.span.first = d.span.last + 1
  /-- A method has at least one line, and no more than the file. -/
  lengths : ∀ m ∈ u.methods, 1 ≤ m.span.lineCount ∧ m.span.lineCount ≤ u.lineCount
  complexLengths : ∀ {ν : Type} [Scale ν], ∀ c ∈ (u.complexity : CodeComplexity ν).complexMethods,
    1 ≤ c.lineCount ∧ c.lineCount ≤ u.lineCount
  /-- So has a method on average, as long as the methods can be counted. -/
  average : ∀ {κ : Type} [Field κ] [LinearOrder κ] [IsStrictOrderedRing κ] [FloorRing κ],
    u.methods ≠ [] → u.methods.length < Counter.limit →
      1 ≤ (@complexity κ (.exact κ) u).averageMethodLength ∧
      (@complexity κ (.exact κ) u).averageMethodLength ≤ u.lineCount

section Lengths
variable {u : SourceUnit} (h : ∀ m ∈ u.methods, m.span.IsWithin u.lineCount)
include h

/-- The lengths of all methods together. -/
theorem methodLines_bounds :
    u.methods.length ≤ u.methodLines ∧ u.methodLines ≤ u.methods.length * u.lineCount := by
  have hsum (ms : List MethodDecl) (hms : ∀ m ∈ ms, m.span.IsWithin u.lineCount) :
      ms.length ≤ (ms.map fun m => m.span.lineCount).sum ∧
        (ms.map fun m => m.span.lineCount).sum ≤ ms.length * u.lineCount := by
    induction ms with
    | nil => exact ⟨Nat.le_refl _, Nat.zero_le _⟩
    | cons m ms ih =>
      obtain ⟨hm, hms⟩ := List.forall_mem_cons.mp hms
      have hone := hm.one_le_lineCount
      have hle := hm.lineCount_le
      obtain ⟨hlow, hhigh⟩ := ih hms
      rw [List.map_cons, List.sum_cons, List.length_cons, Nat.succ_mul]
      constructor <;> omega
  exact hsum u.methods h

theorem averageMethodLength_bounds {κ : Type} [Field κ] [LinearOrder κ] [IsStrictOrderedRing κ]
    [FloorRing κ] (hne : u.methods ≠ []) (hcount : u.methods.length < Counter.limit) :
    1 ≤ (@complexity κ (.exact κ) u).averageMethodLength ∧
      (@complexity κ (.exact κ) u).averageMethodLength ≤ u.lineCount := by
  have hlength : u.methods.length ≠ 0 := fun hzero => hne (List.length_eq_zero_iff.mp hzero)
  have hpos : (0 : κ) < u.methods.length := Nat.cast_pos.mpr (Nat.pos_of_ne_zero hlength)
  obtain ⟨hlow, hhigh⟩ := methodLines_bounds h
  have haverage : (@complexity κ (.exact κ) u).averageMethodLength =
      (u.methodLines : κ) / u.methods.length := by
    rw [@averageMethodLength_of_lt κ (.exact κ) u hcount, if_neg hlength]
    rfl
  rw [haverage]
  constructor
  · rw [one_le_div hpos]
    exact_mod_cast hlow
  · rw [div_le_iff₀ hpos, mul_comm]
    exact_mod_cast hhigh

theorem complexMethods_lengths {ν : Type} [Scale ν] :
    ∀ c ∈ (u.complexity : CodeComplexity ν).complexMethods,
      1 ≤ c.lineCount ∧ c.lineCount ≤ u.lineCount := by
  intro c hc
  rw [complexMethods_eq] at hc
  obtain ⟨m, hm, rfl⟩ := List.mem_map.mp (List.mem_filter.mp hc).1
  exact ⟨(h m hm).one_le_lineCount, (h m hm).lineCount_le⟩

end Lengths

/-- **The unit of a tree that is laid out in its text.** -/
theorem hasLines_ofTree {source : String} {t : Tree} (ht : t.IsLaidOut source) :
    (ofTree (lineCountOf source) t).HasLines t := by
  obtain ⟨hmethods, htypes, -⟩ := ofTree_eq_nodes (lineCountOf source) t
  have hmethod {n : Tree} (hn : n ∈ t.nodes) (h : n.isNode .methodDeclaration) :
      MethodDecl.ofTree n ∈ (ofTree (lineCountOf source) t).methods := by
    rw [hmethods]
    exact List.mem_map_of_mem (List.mem_filter.mpr ⟨hn, h⟩)
  have hwithin : ∀ m ∈ (ofTree (lineCountOf source) t).methods,
      m.span.IsWithin (lineCountOf source) := by
    intro m hm
    rw [hmethods] at hm
    obtain ⟨n, hn, rfl⟩ := List.mem_map.mp hm
    obtain ⟨hn, h⟩ := List.mem_filter.mp hn
    exact ht.isWithin hn (isDeclaration_of_isNode h)
  have htypeWithin : ∀ d ∈ (ofTree (lineCountOf source) t).types,
      d.span.IsWithin (lineCountOf source) := by
    intro d hd
    rw [htypes] at hd
    obtain ⟨n, hn, h⟩ := List.mem_filterMap.mp hd
    obtain ⟨hdeclaration, hspan⟩ := isDeclaration_of_typeDecl? h
    rw [hspan]
    exact ht.isWithin hn hdeclaration
  refine {
    methods := hwithin
    types := htypeWithin
    methodsInOrder := ?_
    typesInOrder := ?_
    nested := ?_
    methodsExact := fun m hm => (hwithin m hm).lineCount_add_first
    typesExact := fun d hd => (htypeWithin d hd).lineCount_add_first
    lengths := fun m hm => ⟨(hwithin m hm).one_le_lineCount, (hwithin m hm).lineCount_le⟩
    complexLengths := complexMethods_lengths hwithin
    average := averageMethodLength_bounds hwithin }
  · rw [hmethods, List.map_map, List.pairwise_map, List.pairwise_filter]
    exact ht.pairwise_first.imp fun hfirst hn hm =>
      hfirst (isDeclaration_of_isNode hn) (isDeclaration_of_isNode hm)
  · rw [htypes, List.pairwise_map, List.pairwise_filterMap]
    refine ht.pairwise_first.imp fun hfirst d hd e he => ?_
    obtain ⟨hn, hspan⟩ := isDeclaration_of_typeDecl? hd
    obtain ⟨hm, hspan'⟩ := isDeclaration_of_typeDecl? he
    rw [hspan, hspan']
    exact hfirst hn hm
  · intro outer houter hisOuter inner hinner hisInner
    exact ⟨hmethod houter hisOuter, hmethod (Tree.mem_nodes_trans hinner t houter) hisInner,
      ht.span_subset houter hinner (isDeclaration_of_isNode hisInner)⟩

end SourceUnit

/-! ## A method in a method -/

namespace Java.Tree

/-- A file with a comment of two lines, a method in a method, and a blank line at its end. -/
def layeredText : String :=
  "/* a\n */\nclass A \x7b\n  void f() \x7b\n    new B() \x7b\n      void g()\n        \x7b\x7d\n" ++
    "    \x7d;\n  \x7d\n\x7d\n\n"

/-- A method of the file without parameters. -/
def layeredMethod (blank name before : String) (row bodyRow : Nat) (statements : List Tree)
    (last : Lexeme) : Tree :=
  branch .methodDeclaration none [
    leaf .voidType none ⟨blank, "void", row, false⟩,
    leaf .identifier (some .name) ⟨" ", name, row, false⟩,
    branch .formalParameters (some .parameters) [
      mark ⟨"", "(", row, false⟩, mark ⟨"", ")", row, false⟩],
    branch .block (some .body)
      ([mark ⟨before, "\x7b", bodyRow, false⟩] ++ statements ++ [mark last])]

/-- The tree of the file. -/
def layeredFile : Tree :=
  let inner := layeredMethod "\n      " "g" "\n        " 5 6 [] ⟨"", "\x7d", 6, false⟩
  let creation := branch .objectCreation none [
    mark ⟨"\n    ", "new", 4, false⟩,
    leaf .typeIdentifier none ⟨" ", "B", 4, false⟩,
    branch .argumentList none [mark ⟨"", "(", 4, false⟩, mark ⟨"", ")", 4, false⟩],
    branch .classBody none [
      mark ⟨" ", "\x7b", 4, false⟩, inner, mark ⟨"\n    ", "\x7d", 7, false⟩]]
  let statement := branch .expressionStatement none [creation, mark ⟨"", ";", 7, false⟩]
  branch .program none [
    leaf .blockComment none ⟨"", "/* a\n */", 0, false⟩,
    branch .classDeclaration none [
      mark ⟨"\n", "class", 2, false⟩,
      leaf .identifier (some .name) ⟨" ", "A", 2, false⟩,
      branch .classBody (some .body) [
        mark ⟨" ", "\x7b", 2, false⟩,
        layeredMethod "\n  " "f" " " 3 3 [statement] ⟨"\n  ", "\x7d", 8, false⟩,
        mark ⟨"\n", "\x7d", 9, false⟩]]]

end Java.Tree

namespace SourceUnit

end SourceUnit

end CodeRisk
