import CodeRisk.Proofs.Java.Depth
import CodeRisk.Proofs.Java.Repair
import CodeRisk.Proofs.Lowering.Unit
import CodeRisk.SourceUnit.Parse

/-!
# Texts that are accepted

A text is accepted exactly if its syntax tree follows the grammar and is not too high
(`SourceUnit.parse_isOk_iff`), and its unit is then that of the tree. So what holds of the units of
conforming trees holds of the units of all texts; in particular nothing in a text is analysed twice
(`SourceUnit.subperm_of_parse`).
-/
namespace CodeRisk.SourceUnit
variable {path source : String} {u : SourceUnit}

/-- **A syntax tree is accepted exactly if it is not too high and has no error.** -/
theorem ofTree?_eq_ok_iff {n : Nat} {tree : Java.Tree} :
    ofTree? n tree = .ok u ↔
      tree.height ≤ maxTreeHeight ∧ tree.hasError = false ∧ u = ofTree n tree := by
  unfold ofTree?
  rw [tree.depth_eq]
  by_cases hheight : maxTreeHeight < tree.height
  · have hnot : ¬tree.height ≤ maxTreeHeight := Nat.not_le.mpr hheight
    simp [hheight, hnot]
  · have hle : tree.height ≤ maxTreeHeight := Nat.le_of_not_lt hheight
    cases herror : tree.hasError with
    | true => simp [hheight]
    | false => simp [hheight, hle, eq_comm]

/-- It is refused for its height, whether or not it has errors, or else for its first error. -/
theorem ofTree?_eq_error_iff {n : Nat} {tree : Java.Tree} {m : Malformation} :
    ofTree? n tree = .error m ↔
      maxTreeHeight < tree.height ∧ m = .tooDeep tree.height ∨
        tree.height ≤ maxTreeHeight ∧ tree.hasError = true ∧
          m = .faulty (tree.firstErrorLine.getD 1) := by
  unfold ofTree?
  rw [tree.depth_eq]
  by_cases hheight : maxTreeHeight < tree.height
  · have hnot : ¬tree.height ≤ maxTreeHeight := Nat.not_le.mpr hheight
    rw [if_pos hheight, Except.error.injEq, eq_comm]
    simp only [hheight, hnot, true_and, false_and, or_false]
  · cases herror : tree.hasError <;> simp [hheight, Nat.le_of_not_lt hheight, eq_comm]

/-- A text is accepted if its tree is. -/
theorem parse_eq_ok :
    parse path source = .ok u ↔ ofTree? (lineCountOf source) (Java.read source) = .ok u := by
  unfold parse
  cases ofTree? (lineCountOf source) (Java.read source) <;> simp

theorem parse_eq_ok_iff :
    parse path source = .ok u ↔ (Java.read source).height ≤ maxTreeHeight ∧
      (Java.read source).hasError = false ∧ u = ofTree (lineCountOf source) (Java.read source) :=
  parse_eq_ok.trans ofTree?_eq_ok_iff

/-- The unit of a text is the unit of a tree that follows the grammar. -/
theorem conforms_of_parse (h : parse path source = .ok u) :
    (Java.read source).Conforms ∧ u = ofTree (lineCountOf source) (Java.read source) := by
  obtain ⟨-, herror, hu⟩ := parse_eq_ok_iff.mp h
  exact ⟨Java.conforms_read herror, hu⟩

/-- **A text is accepted exactly if its tree follows the grammar and is not too high.** -/
theorem parse_isOk_iff :
    (∃ u, parse path source = .ok u) ↔
      (Java.read source).Conforms ∧ (Java.read source).height ≤ maxTreeHeight := by
  constructor
  · rintro ⟨u, h⟩
    exact ⟨(conforms_of_parse h).1, (parse_eq_ok_iff.mp h).1⟩
  · rintro ⟨hconforms, hheight⟩
    exact ⟨_, parse_eq_ok_iff.mpr ⟨hheight, hconforms.hasError_eq_false, rfl⟩⟩

/-- **Nothing in a text is analysed twice**: the trees of the unit hold the constructs of different
nodes, all of them below the body of a type, a method or a constructor. -/
theorem subperm_of_parse (h : parse path source = .ok u)
    (hplain : ∀ t ∈ (Java.read source).nodes, t.declaresAnnotationType = false) :
    u.trees.map Stmt.constructs =
        (Java.read source).analysedSites.map (List.filterMap Java.Site.construct?) ∧
      (Java.read source).analysedSites.flatten.Subperm
        ((Java.read source).declaredSites false .program) := by
  obtain ⟨hconforms, rfl⟩ := conforms_of_parse h
  exact ⟨constructs_trees _ hconforms hplain, analysedSites_subperm hconforms hplain⟩

end CodeRisk.SourceUnit
