import CodeRisk.Proofs.Parse
import Mathlib.Order.Bounds.Basic

/-!
# The first error of a tree

The search for the first node that marks an error passes over all subtrees without an error. It
finds what a search through all nodes finds, each before those below it (`Tree.firstErrorLine_eq`).
So the line of a tree that is refused for an error is always known (`Tree.firstErrorLine_search`).
-/
namespace CodeRisk.Java.Tree
variable {t : Tree}

mutual

/-- A tree has an error if one of its nodes marks one. -/
theorem hasError_eq_any : (t : Tree) → t.hasError = t.nodes.any isFault
  | leaf k f l => (Bool.or_false _).symm
  | branch k f cs => by
    rw [hasError, nodes, List.any_cons, forestHasError_eq_any cs]
    rfl

/-- The same for the trees of a list. -/
theorem forestHasError_eq_any : (ts : List Tree) →
    forestHasError ts = (forestNodes ts).any isFault
  | [] => rfl
  | t :: ts => by
    rw [forestHasError, forestNodes, List.any_append, hasError_eq_any t, forestHasError_eq_any ts]

end

theorem hasError_iff (t : Tree) : t.hasError = true ↔ ∃ n ∈ t.nodes, n.isFault = true := by
  rw [hasError_eq_any, List.any_eq_true]

mutual

/-- **Passing over subtrees loses no error**: the search finds the first of all nodes that marks an
error. -/
theorem firstErrorLine_eq : (t : Tree) →
    t.firstErrorLine = (t.nodes.find? isFault).map fun n => n.startRow + 1
  | leaf k f l => by
    rw [firstErrorLine, nodes, List.find?_cons]
    cases (leaf k f l).isFault <;> rfl
  | branch k f cs => by
    rw [firstErrorLine, nodes, List.find?_cons]
    cases hfault : (branch k f cs).isFault with
    | true => rfl
    | false =>
      rw [if_neg Bool.false_ne_true, forestFirstErrorLine_eq cs]
      cases herror : (branch k f cs).hasError with
      | true => rfl
      | false =>
        -- nothing is looked at, and there is nothing to be found
        rw [hasError_eq_any, nodes, List.any_cons, hfault, Bool.false_or] at herror
        have hnone : (forestNodes cs).find? isFault = none :=
          List.find?_eq_none.mpr (List.any_eq_false.mp herror)
        rw [hnone]
        rfl

/-- The same for the trees of a list, one after the other. -/
theorem forestFirstErrorLine_eq : (ts : List Tree) →
    forestFirstErrorLine ts = ((forestNodes ts).find? isFault).map fun n => n.startRow + 1
  | [] => rfl
  | t :: ts => by
    rw [forestFirstErrorLine, forestNodes, List.find?_append, firstErrorLine_eq t,
      forestFirstErrorLine_eq ts]
    cases t.nodes.find? isFault <;> rfl

end

theorem firstErrorLine_eq_none_iff :
    t.firstErrorLine = none ↔ ∀ n ∈ t.nodes, n.isFault = false := by
  rw [firstErrorLine_eq, Option.map_eq_none_iff, List.find?_eq_none]
  simp only [Bool.not_eq_true]

/-- A tree with an error has a first one. -/
theorem exists_firstErrorLine (h : t.hasError = true) : ∃ line, t.firstErrorLine = some line := by
  obtain ⟨n, hn, hfault⟩ := (hasError_iff t).mp h
  refine Option.ne_none_iff_exists'.mp fun hnone => ?_
  rw [firstErrorLine_eq_none_iff.mp hnone n hn] at hfault
  cases hfault

/-- If the nodes start in the order in which they are listed, no error starts on an earlier line
than the first one. -/
theorem isLeast_of_firstErrorLine (hrows : (t.nodes.map startRow).Pairwise (· ≤ ·)) {line : Nat}
    (h : t.firstErrorLine = some line) :
    IsLeast {l | ∃ n ∈ t.nodes, n.isFault = true ∧ l = n.startRow + 1} line := by
  rw [firstErrorLine_eq] at h
  obtain ⟨first, hfirst, rfl⟩ := Option.map_eq_some_iff.mp h
  obtain ⟨hfault, before, after, hnodes, hbefore⟩ := List.find?_eq_some_iff_append.mp hfirst
  refine ⟨⟨first, List.mem_of_find?_eq_some hfirst, hfault, rfl⟩, ?_⟩
  rintro _ ⟨n, hn, hnfault, rfl⟩
  rw [List.pairwise_map, hnodes] at hrows
  have hafter : ∀ m ∈ after, first.startRow ≤ m.startRow :=
    (List.pairwise_cons.mp (List.pairwise_append.mp hrows).2.1).1
  rw [hnodes] at hn
  rcases List.mem_append.mp hn with hn | hn
  · have hclean := hbefore n hn
    rw [hnfault] at hclean
    cases hclean
  · rcases List.mem_cons.mp hn with rfl | hn
    · exact Nat.le_refl _
    · exact Nat.succ_le_succ (hafter n hn)

/-- **The search finds the first error.** A node has an error exactly if it or a node below it marks
one. The search, which passes over nodes without an error, finds the line on which the first of all
nodes that mark an error starts, and it finds nothing exactly if there is none. So a tree that is
refused for an error is refused with a line that was found, and no other line ever stands in for it.
If the nodes start in the order in which they are listed, no node that marks an error starts on an
earlier line. -/
theorem firstErrorLine_search (t : Tree) :
    (∀ n : Tree, n.hasError = true ↔ ∃ m ∈ n.nodes, m.isFault = true) ∧
    t.firstErrorLine = (t.nodes.find? isFault).map (fun n => n.startRow + 1) ∧
    (t.firstErrorLine = none ↔ ∀ n ∈ t.nodes, n.isFault = false) ∧
    (t.hasError = true → ∃ line, t.firstErrorLine = some line ∧
      (t.height ≤ maxTreeHeight →
        ∀ lineCount, SourceUnit.ofTree? lineCount t = .error (.faulty line))) ∧
    (∀ lineCount line, SourceUnit.ofTree? lineCount t = .error (.faulty line) →
      t.firstErrorLine = some line) ∧
    ((t.nodes.map startRow).Pairwise (· ≤ ·) → ∀ line, t.firstErrorLine = some line →
      IsLeast {l | ∃ n ∈ t.nodes, n.isFault = true ∧ l = n.startRow + 1} line) := by
  refine ⟨hasError_iff, firstErrorLine_eq t, firstErrorLine_eq_none_iff, fun herror => ?found,
    fun lineCount line h => ?reported, fun hrows line => isLeast_of_firstErrorLine hrows⟩
  case found =>
    obtain ⟨line, hline⟩ := exists_firstErrorLine herror
    refine ⟨line, hline, fun hheight lineCount => ?_⟩
    rw [SourceUnit.ofTree?_eq_error_iff, hline]
    exact .inr ⟨hheight, herror, rfl⟩
  case reported =>
    rcases SourceUnit.ofTree?_eq_error_iff.mp h with ⟨-, hdeep⟩ | ⟨-, herror, hfaulty⟩
    · cases hdeep
    · obtain ⟨found, hfound⟩ := exists_firstErrorLine herror
      rw [hfound] at hfaulty
      rw [hfound, Malformation.faulty.inj hfaulty]
      rfl

/-- A block without an error on the first row, and behind it an error of two rows, in which a token
is missing at the end. -/
def sampleFaulty : Tree :=
  branch .program none [
    branch .block none [
      leaf .fixed none ⟨"", "\x7b", 0, false⟩, leaf .fixed none ⟨"", "\x7d", 0, false⟩],
    branch .error none [
      leaf .identifier none ⟨"\n", "class", 1, false⟩,
      leaf .identifier none ⟨"\n", "", 2, true⟩]]

/-- The error is reported on the second line, where it starts. -/
theorem firstErrorLine_search_sampleFaulty :
    sampleFaulty.hasError = true ∧ sampleFaulty.firstErrorLine = some 2 ∧
    (sampleFaulty.nodes.filter isFault).map startRow = [1, 2] ∧
    (∀ lineCount, SourceUnit.ofTree? lineCount sampleFaulty = .error (.faulty 2)) ∧
    (sampleFaulty.nodes.map startRow).Pairwise (· ≤ ·) ∧
    IsLeast {l | ∃ n ∈ sampleFaulty.nodes, n.isFault = true ∧ l = n.startRow + 1} 2 := by
  obtain ⟨-, -, -, hfound, -, hleast⟩ := firstErrorLine_search sampleFaulty
  have herror : sampleFaulty.hasError = true := by decide
  have hline : sampleFaulty.firstErrorLine = some 2 := by decide
  have hrows : (sampleFaulty.nodes.map startRow).Pairwise (· ≤ ·) := by decide
  obtain ⟨line, hsome, hrefused⟩ := hfound herror
  obtain rfl := Option.some.inj (hsome.symm.trans hline)
  exact ⟨herror, hline, by decide, hrefused (by decide), hrows, hleast hrows 2 hline⟩

end CodeRisk.Java.Tree
