import CodeRisk.Proofs.Lowering.Declared

/-!
# Every branch of a file is analysed once

The trees of a unit and the syntax tree it has been lowered from hold the same constructs: each node
below the body of a type that branches or handles exceptions is found in one of the trees, and in no
other one (`SourceUnit.branches_analysed_once`). So the figures of a unit can be read off the file.

Blind nodes make an exception. What stands in the arguments of a constant of an enumeration is not
found in any tree (`SourceUnit.constant_argument_lost`).
-/
namespace CodeRisk
open Java (Tree Site NodeKind Field)

namespace Java.Site

/-- Whether the node is a try or throw statement. -/
def handlesExceptions (s : Site) : Bool :=
  s.tree.hasKind fun
    | .tryStatement | .tryWithResources | .throwStatement => true
    | _ => false

theorem any_construct? (s : Site) :
    s.construct?.any Construct.handlesExceptions = s.handlesExceptions := by
  obtain ⟨p, _ | ⟨k, f, cs⟩⟩ := s
  · rfl
  · by_cases hk : k = .switch
    · subst hk
      rw [construct?_switch]
      split <;> rfl
    · rw [construct?_branch hk]
      cases k <;> rfl

/-- Some sites handle exceptions if their constructs do. -/
theorem any_filterMap (ss : List Site) :
    (ss.filterMap construct?).any Construct.handlesExceptions = ss.any handlesExceptions := by
  induction ss with
  | nil => rfl
  | cons s ss ih =>
    rw [List.filterMap_cons, List.any_cons, ← ih, ← any_construct?]
    cases s.construct? <;> rfl

/-- The constructs of some sites have the branches of the sites. -/
theorem sum_ways_filterMap (ss : List Site) :
    ((ss.filterMap construct?).map Construct.ways).sum = (ss.map Ranked.ways).sum := by
  induction ss with
  | nil => rfl
  | cons s ss ih =>
    rw [List.filterMap_cons, List.map_cons, List.sum_cons, Marked.ways_eq, marked_construct?, ← ih]
    cases s.construct? with
    | none => exact (Nat.zero_add _).symm
    | some c => rfl

end Java.Site

namespace SourceUnit
variable {root : Tree}

/-- Nothing is analysed twice, and nothing that is not declared. -/
theorem analysedSites_subperm (hroot : root.Conforms)
    (hplain : ∀ t ∈ root.nodes, t.declaresAnnotationType = false) :
    root.analysedSites.flatten.Subperm (root.declaredSites false .program) :=
  (Tree.analysedSites_perm hroot hplain).subperm.trans
    (Tree.codeSites_sublist hroot _ _ _ (absurd rfl)).subperm

/-- **Every branch is analysed once.** -/
theorem branches_analysed_once {ν : Type} [Scale ν] (n : Nat) (root : Tree)
    (hroot : root.Conforms) (hplain : ∀ t ∈ root.nodes, t.declaresAnnotationType = false)
    (hopen : ∀ t ∈ root.nodes, t.hasKind NodeKind.isBlind → t.sitesBelow = []) :
    let u := ofTree n root
    let declared := root.declaredSites false .program
    u.trees.map Stmt.constructs = root.analysedSites.map (List.filterMap Site.construct?) ∧
      root.analysedSites.flatten.Perm declared ∧
      (u.complexity : CodeComplexity ν).cyclomatic =
        .ofNat (1 + (declared.countP Site.isBranching +
          ((declared.filter Site.isSwitch).map fun s => s.tree.labelCount).sum)) ∧
      u.handlesExceptions = declared.any Site.handlesExceptions := by
  intro u declared
  have htrees := constructs_trees n hroot hplain
  have hperm : root.analysedSites.flatten.Perm declared :=
    (Tree.analysedSites_perm hroot hplain).trans
      (.of_eq (Tree.declaredSites_eq hroot hopen _).symm)
  have hconstructs : (u.trees.flatMap Stmt.constructs).Perm
      (declared.filterMap Site.construct?) := by
    rw [List.flatMap_def, htrees, ← List.filterMap_flatten]
    exact hperm.filterMap _
  refine ⟨htrees, hperm, ?_, ?_⟩
  · show u.tally.cyclomatic = _
    rw [tally_eq, exactCyclomatic_eq_constructs, (hconstructs.map _).sum_eq,
      Site.sum_ways_filterMap, Site.sum_ways]
  · rw [handlesExceptions_eq_constructs, hconstructs.any_eq, Site.any_filterMap]

end SourceUnit

namespace Java.Tree

/-- A class with the method of the sample and a static initializer that throws. -/
def sampleClassFile : Tree :=
  branch .program none [
    branch .classDeclaration none [
      sampleMark "class",
      sampleName (some .name) "Sample",
      branch .classBody (some .body) [
        sampleMark "\x7b",
        sampleMethod,
        branch .staticInitializer none [
          sampleMark "static",
          branch .block none [
            sampleMark "\x7b",
            branch .throwStatement none [
              sampleMark "throw", sampleName none "e", sampleMark ";"],
            sampleMark "\x7d"]],
        sampleMark "\x7d"]]]

/-- An enumeration with one constant. The argument of the constant is a lambda with a condition. -/
def sampleConstantFile : Tree :=
  branch .program none [
    branch .enumDeclaration none [
      sampleMark "enum",
      sampleName (some .name) "Choice",
      branch .enumBody (some .body) [
        sampleMark "\x7b",
        branch .enumConstant none [
          sampleName (some .name) "PICK",
          branch .argumentList none [
            sampleMark "(",
            branch .lambda none [
              sampleName (some .parameters) "x",
              sampleMark "->",
              branch .block (some .body) [
                sampleMark "\x7b",
                branch .ifStatement none [
                  sampleMark "if", sampleCondition "x",
                  leaf .fixed (some .consequence) ⟨" ", ";", 0, false⟩],
                sampleMark "\x7d"]],
            sampleMark ")"]],
        sampleMark "\x7d"]]]

end Java.Tree

namespace SourceUnit

theorem branches_analysed_once_sample :
    Tree.sampleClassFile.Conforms ∧
    (∀ t ∈ Tree.sampleClassFile.nodes, t.declaresAnnotationType = false) ∧
    (∀ t ∈ Tree.sampleClassFile.nodes, t.hasKind NodeKind.isBlind → t.sitesBelow = []) ∧
    (ofTree 1 Tree.sampleClassFile).trees.map Stmt.constructs =
      [[.whileLoop, .switch 2, .ifElse, .forLoop], [.throw], [.conditional]] ∧
    Tree.sampleClassFile.analysedSites.flatten.Perm
      (Tree.sampleClassFile.declaredSites false .program) ∧
    ((ofTree 1 Tree.sampleClassFile).complexity : CodeComplexity Float).cyclomatic = 7 ∧
    (ofTree 1 Tree.sampleClassFile).handlesExceptions = true := by
  have hroot : Tree.sampleClassFile.Conforms := Tree.conforms_of_check 8 _ (by decide +kernel)
  have hplain : ∀ t ∈ Tree.sampleClassFile.nodes, t.declaresAnnotationType = false := by
    decide +kernel
  have hopen : ∀ t ∈ Tree.sampleClassFile.nodes,
      t.hasKind NodeKind.isBlind → t.sitesBelow = [] := by
    decide +kernel
  obtain ⟨htrees, hperm, hcyclomatic, hexceptions⟩ :=
    branches_analysed_once (ν := Float) 1 Tree.sampleClassFile hroot hplain hopen
  exact ⟨hroot, hplain, hopen, htrees.trans (by decide +kernel), hperm,
    hcyclomatic.trans (by decide +kernel), hexceptions.trans (by decide +kernel)⟩

/-- The argument of a constant is declared, but it is in no tree. -/
theorem constant_argument_lost :
    Tree.sampleConstantFile.Conforms ∧
    (Tree.sampleConstantFile.declaredSites false .program).filterMap Site.construct? =
      [.ifElse] ∧
    (ofTree 1 Tree.sampleConstantFile).trees = [] ∧
    ((ofTree 1 Tree.sampleConstantFile).complexity : CodeComplexity Float).cyclomatic = 1 := by
  refine ⟨Tree.conforms_of_check 8 _ (by decide +kernel), by decide +kernel, rfl, ?_⟩
  show (ofTree 1 Tree.sampleConstantFile).tally.cyclomatic = 1
  decide +kernel

end SourceUnit

end CodeRisk
