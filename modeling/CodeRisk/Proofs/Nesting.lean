import CodeRisk.Proofs.Complexity.Unit
import CodeRisk.Proofs.Lowering.Height
import CodeRisk.Proofs.Lowering.Unit
import CodeRisk.Proofs.Parse

/-!
# Nesting is bounded by the height of the syntax tree

Only the height of the syntax tree is checked before a text is accepted, but the depth of nesting is
counted in the lowered code. The check is enough: in no statement tree of a unit do more constructs
nest in one another than the syntax tree is high, whether or not the tree follows the grammar
(`SourceUnit.chainIn_le_height`). So the nesting depth of an accepted text is at most the limit, and
no construct weighs more than its branches and the limit (`SourceUnit.parse_bounds_nesting`).
-/
namespace CodeRisk
open Java (Tree)

/-! ## The code of a unit -/

/-- The statements of a node nest no deeper than the node is high. -/
theorem Stmt.chainIn_block_le (b : Tree) : Stmt.chainIn (Stmt.ofBlock b.children) ≤ b.height :=
  Stmt.chainIn_ofBlock_le (fun c _ => c.isShallow) fun _ hc => Tree.height_lt_of_mem_children hc

theorem CodePart.chain_block_le {b root : Tree} (hb : b ∈ root.nodes) :
    ∀ s ∈ (CodePart.block b).statement?, s.chain ≤ root.height := by
  intro s hs
  obtain rfl : .block (Stmt.ofBlock b.children) = s := Option.some.inj hs
  have hblock := Stmt.chainIn_block_le b
  have hheight := Tree.height_le_of_mem_nodes root hb
  rw [Stmt.chain_block]
  omega

theorem CodePart.chain_values_le {vs : List Tree} {root : Tree}
    (hvs : ∀ v ∈ vs, v.height < root.height) :
    ∀ s ∈ (CodePart.values vs).statement?, s.chain ≤ root.height := by
  intro s hs
  rw [CodePart.statement?] at hs
  split at hs
  · cases hs
  · obtain rfl := Option.some.inj hs
    have hparts := Expr.chain_ofParts_le (vs.map Expr.ofTree)
    have hvalues := Expr.chainIn_map_le (fun c _ => c.isShallow) hvs
    rw [Stmt.chain_simple, Expr.chainIn_cons, Expr.chainIn_nil]
    omega

/-- The statements that a member brings in nest no deeper than the tree is high. -/
theorem CodePart.chain_memberParts_le {t root : Tree} (ht : t ∈ root.nodes) {part : CodePart}
    (hpart : part ∈ memberParts t) : ∀ s ∈ part.statement?, s.chain ≤ root.height := by
  rcases List.mem_append.mp hpart with hpart | hpart
  · obtain ⟨b, hb, rfl⟩ := List.mem_map.mp hpart
    obtain ⟨-, hb⟩ := initializerBlock?_eq_some (Option.mem_toList.mp hb)
    apply chain_block_le
    rcases hb with rfl | hb
    · exact ht
    · exact Tree.mem_nodes_of_child ht hb
  · obtain ⟨-, rfl⟩ : isFields t ∧ part = .values (initialValues t) := by simpa using hpart
    apply chain_values_le
    intro v hv
    obtain ⟨d, hd, -, hv⟩ := mem_initialValues hv
    have hvalue := Tree.height_lt_of_mem_children (List.mem_of_find?_eq_some hv)
    have hdeclarator := Tree.height_le_of_mem_nodes root (Tree.mem_nodes_of_child ht hd)
    omega

/-- The statements that a node brings in nest no deeper than the tree is high. -/
theorem CodePart.chain_codeParts_le {t root : Tree} (ht : t ∈ root.nodes) {part : CodePart}
    (hpart : part ∈ codeParts t) : ∀ s ∈ part.statement?, s.chain ≤ root.height := by
  rcases List.mem_append.mp hpart with hpart | hpart
  · obtain ⟨-, hpart⟩ := List.mem_ite_nil_right.mp hpart
    obtain ⟨b, hb, rfl⟩ := List.mem_map.mp hpart
    have hb := List.mem_of_find?_eq_some (Option.mem_toList.mp hb)
    exact chain_block_le (Tree.mem_nodes_of_child ht hb)
  · obtain ⟨-, hpart⟩ := List.mem_ite_nil_right.mp hpart
    obtain ⟨m, hm, hpart⟩ := List.mem_flatMap.mp hpart
    exact chain_memberParts_le (Tree.mem_nodes_of_child ht (List.mem_filter.mp hm).1) hpart

/-- The body of a method nests no deeper than the tree is high. -/
theorem MethodDecl.chainIn_ofTree_le {m root : Tree} (hm : m ∈ root.nodes) :
    Stmt.chainIn (MethodDecl.ofTree m).statements ≤ root.height := by
  cases hbody : m.child? .body with
  | none =>
    rw [MethodDecl.statements, MethodDecl.ofTree, hbody]
    exact Nat.zero_le _
  | some b =>
    rw [MethodDecl.statements, MethodDecl.ofTree, hbody]
    have hblock := Stmt.chainIn_block_le b
    have hb := Tree.mem_nodes_of_child hm (List.mem_of_find?_eq_some hbody)
    have hheight := Tree.height_le_of_mem_nodes root hb
    exact Nat.le_trans hblock hheight

namespace SourceUnit

/-- **Lowering adds no nesting**: no statement tree of a unit nests deeper than its syntax tree is
high. -/
theorem chainIn_le_height (n : Nat) (root : Tree) :
    ∀ ss ∈ (ofTree n root).trees, Stmt.chainIn ss ≤ root.height := by
  intro ss hss
  rcases List.mem_append.mp hss with hss | hss
  · obtain ⟨m, hm, rfl⟩ := List.mem_map.mp hss
    change m ∈ (Findings.ofTree root).methods at hm
    rw [Findings.methods_ofTree] at hm
    obtain ⟨t, ht, rfl⟩ := List.mem_map.mp hm
    exact MethodDecl.chainIn_ofTree_le (List.mem_filter.mp ht).1
  · obtain ⟨s, hs, rfl⟩ := List.mem_map.mp hss
    change s ∈ (Findings.ofTree root).otherCode at hs
    rw [Findings.otherCode_ofTree] at hs
    obtain ⟨part, hpart, hs⟩ := List.mem_filterMap.mp hs
    obtain ⟨t, ht, hpart⟩ := List.mem_flatMap.mp hpart
    have hchain := CodePart.chain_codeParts_le ht hpart s hs
    rw [Stmt.chainIn_cons, Stmt.chainIn_nil]
    omega

/-- Every node of the code of a unit stands in one of its trees. -/
theorem exists_tree_of_mem_occurrences {u : SourceUnit} {o : Occurrence Construct}
    (ho : o ∈ u.occurrences) : ∃ ss ∈ u.trees, o ∈ Stmt.occurrences ss := by
  rcases List.mem_append.mp ho with ho | ho
  · obtain ⟨m, hm, ho⟩ := List.mem_flatMap.mp ho
    exact ⟨m.statements, List.mem_append_left _ (List.mem_map_of_mem hm), ho⟩
  · have hcode (ss : List Stmt) (ho : o ∈ Stmt.occurrences ss) :
        ∃ s ∈ ss, o ∈ Stmt.occurrences [s] := by
      induction ss with
      | nil => cases ho
      | cons s ss ih =>
        rcases List.mem_append.mp ho with ho | ho
        · exact ⟨s, List.mem_cons_self .., List.mem_append_left _ ho⟩
        · obtain ⟨t, ht, ho⟩ := ih ho
          exact ⟨t, List.mem_cons_of_mem s ht, ho⟩
    obtain ⟨s, hs, ho⟩ := hcode u.otherCode ho
    exact ⟨[s], List.mem_append_right _ (List.mem_map_of_mem hs), ho⟩

/-- What a bound on the nesting of a unit says: of chains in its trees, of its nesting depth, and of
what each construct adds to the cognitive complexity of a method. -/
structure NestsWithin (n : Nat) (u : SourceUnit) : Prop where
  chains : ∀ ss ∈ u.trees, ∀ o ∈ Stmt.occurrences ss,
    (o.label :: o.around).countP Construct.nests ≤ n
  maxNestingDepth : ∀ (ν : Type) [Scale ν],
    (u.complexity : CodeComplexity ν).maxNestingDepth.toNat ≤ n
  cognitive : ∀ m ∈ u.methods,
    m.complexity.cognitive = .ofNat (m.occurrences.map Occurrence.weight).sum ∧
      ∀ o ∈ m.occurrences, o.weight ≤ o.ways + n

theorem NestsWithin.mono {n k : Nat} {u : SourceUnit} (h : u.NestsWithin n) (hle : n ≤ k) :
    u.NestsWithin k where
  chains ss hss o ho := (h.chains ss hss o ho).trans hle
  maxNestingDepth ν _ := (h.maxNestingDepth ν).trans hle
  cognitive m hm := by
    obtain ⟨hsum, hweight⟩ := h.cognitive m hm
    refine ⟨hsum, fun o ho => ?_⟩
    have hweight := hweight o ho
    omega

/-- A bound on chains bounds all there is to say of nesting. -/
theorem nestsWithin_of_chains {n : Nat} {u : SourceUnit} (hn : n < Counter.limit)
    (h : ∀ ss ∈ u.trees, Stmt.chainIn ss ≤ n) : u.NestsWithin n := by
  have hchains : ∀ ss ∈ u.trees, ∀ o ∈ Stmt.occurrences ss,
      (o.label :: o.around).countP Construct.nests ≤ n := by
    intro ss hss o ho
    have hchain := h ss hss
    have hcount := Outline.countP_le_chainIn [] (Stmt.outlines ss) o ho
    rw [List.countP_nil, Nat.zero_add] at hcount
    exact Nat.le_trans hcount hchain
  have hdepth : ∀ ss ∈ u.trees, ∀ o ∈ Stmt.occurrences ss, o.nests → o.depth + 1 ≤ n := by
    intro ss hss o ho hnests
    have hcount := hchains ss hss o ho
    have hlabel : o.label.nests = true := hnests
    rw [List.countP_cons_of_pos hlabel] at hcount
    exact hcount
  refine ⟨hchains, fun ν _ => ?_, fun m hm => ⟨m.cognitive_eq, fun o ho => ?_⟩⟩
  · have hnesting : u.exactNesting ≤ n := by
      apply Outline.nesting_le
      intro o ho hnests
      obtain ⟨ss, hss, ho⟩ := exists_tree_of_mem_occurrences ho
      exact hdepth ss hss o ho hnests
    rw [toNat_maxNestingDepth (Nat.lt_of_le_of_lt hnesting hn)]
    exact hnesting
  · have hm : m.statements ∈ u.trees := List.mem_append_left _ (List.mem_map_of_mem hm)
    have hlevel := hdepth m.statements hm o ho
    rw [Occurrence.weight]
    split
    next hnests =>
      have hlevel := hlevel hnests
      omega
    next => omega

/-- An accepted syntax tree bounds the nesting of its unit, and the limit bounds both. -/
theorem nestsWithin_of_ofTree? {n : Nat} {tree : Tree} {u : SourceUnit}
    (h : ofTree? n tree = .ok u) :
    u.NestsWithin tree.height ∧ u.NestsWithin maxTreeHeight := by
  obtain ⟨hheight, -, rfl⟩ := ofTree?_eq_ok_iff.mp h
  have hlimit : maxTreeHeight < Counter.limit := by decide
  have hwithin : (ofTree n tree).NestsWithin tree.height :=
    nestsWithin_of_chains (Nat.lt_of_le_of_lt hheight hlimit) (chainIn_le_height n tree)
  exact ⟨hwithin, hwithin.mono hheight⟩

/-- **The limit on the height bounds the nesting.** A syntax tree, and so a text, is accepted
exactly if the tree is at most as high as the limit and has no error. In the unit of an accepted
tree no chain of nested conditions, loops and switches is longer than the tree is high. So the
nesting depth is at most the limit, and a construct adds at most its branches and the limit to the
cognitive complexity of its method. -/
theorem parse_bounds_nesting :
    (∀ (n : Nat) (tree : Tree), (∃ u, ofTree? n tree = .ok u) ↔
      tree.height ≤ 1000 ∧ tree.hasError = false) ∧
    (∀ path source : String, (∃ u, parse path source = .ok u) ↔
      (Java.read source).height ≤ 1000 ∧ (Java.read source).hasError = false) ∧
    (∀ (n : Nat) (tree : Tree) (u : SourceUnit), ofTree? n tree = .ok u →
      u.NestsWithin tree.height ∧ u.NestsWithin 1000) ∧
    (∀ (path source : String) (u : SourceUnit), parse path source = .ok u →
      u.NestsWithin (Java.read source).height ∧ u.NestsWithin 1000) := by
  have haccepted : ∀ (n : Nat) (tree : Tree), (∃ u, ofTree? n tree = .ok u) ↔
      tree.height ≤ 1000 ∧ tree.hasError = false := by
    intro n tree
    constructor
    · rintro ⟨u, h⟩
      obtain ⟨hheight, herror, -⟩ := ofTree?_eq_ok_iff.mp h
      exact ⟨hheight, herror⟩
    · rintro ⟨hheight, herror⟩
      exact ⟨_, ofTree?_eq_ok_iff.mpr ⟨hheight, herror, rfl⟩⟩
  refine ⟨haccepted, ?_, fun n tree u h => nestsWithin_of_ofTree? h, ?_⟩
  · intro path source
    rw [← haccepted (lineCountOf source)]
    exact exists_congr fun u => parse_eq_ok
  · intro path source u h
    exact nestsWithin_of_ofTree? (parse_eq_ok.mp h)

/-- The file of the sample is accepted, and in it a condition stands in a switch in a loop. The text
with nothing but a comment is accepted too. -/
theorem parse_bounds_nesting_sample :
    (∃ u, ofTree? 1 Tree.sampleClassFile = .ok u ∧ u.NestsWithin 11 ∧
      (u.complexity : CodeComplexity Float).maxNestingDepth.toNat = 3) ∧
    ∃ u, parse "Empty.java" "// nothing" = .ok u ∧ u.NestsWithin 1 := by
  obtain ⟨haccepted, hparsed, hbound, hbounded⟩ := parse_bounds_nesting
  constructor
  · have hheight : Tree.sampleClassFile.height = 11 := by decide +kernel
    obtain ⟨u, hu⟩ := (haccepted 1 Tree.sampleClassFile).mpr ⟨by decide +kernel, by decide +kernel⟩
    have hwithin := (hbound 1 Tree.sampleClassFile u hu).1
    rw [hheight] at hwithin
    obtain ⟨-, -, rfl⟩ := ofTree?_eq_ok_iff.mp hu
    refine ⟨_, hu, hwithin, ?_⟩
    show (ofTree 1 Tree.sampleClassFile).tally.maxNesting.toNat = 3
    decide +kernel
  · have hheight : (Java.read "// nothing").height = 1 := by decide +kernel
    obtain ⟨u, hu⟩ := (hparsed "Empty.java" "// nothing").mpr ⟨by decide +kernel, by decide +kernel⟩
    have hwithin := (hbounded "Empty.java" "// nothing" u hu).1
    rw [hheight] at hwithin
    exact ⟨u, hu, hwithin⟩

end SourceUnit

end CodeRisk
