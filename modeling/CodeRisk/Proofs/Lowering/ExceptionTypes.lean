import CodeRisk.Proofs.Java.Clauses
import CodeRisk.Proofs.Lowering.Children
import CodeRisk.Proofs.Lowering.Method
import CodeRisk.Proofs.Lowering.Origin
import CodeRisk.Proofs.Parse

/-!
# The exceptions that a unit lists

A method lists the exceptions of its throws clause, and a handler those that it takes. Each entry is
the text of a child of the clause with a name. These are the types in the clause, in the order of
the text, and the comments between them: unlike in other places, a comment is not left out. So the
entries are the types of the clause exactly if no comment stands between them
(`Java.Tree.Lists.eq_types_iff`). This holds for all methods and handlers of a unit, wherever they
stand (`SourceUnit.exceptions_listed`).
-/
namespace CodeRisk
open Java (Tree NodeKind Field)

namespace Java.Tree

/-- The types that a clause is made of. -/
def writtenTypes (clause : Tree) : List Tree :=
  clause.children.filter isType

/-- The entries are what is written in the clause: its types and its comments. There is a type, and
all that keeps the entries from being the types are comments. -/
structure Lists (clause : Tree) (entries : List String) : Prop where
  types_ne_nil : clause.writtenTypes ≠ []
  entries_eq : entries = (clause.children.filter fun c => c.isType || c.isComment).map text
  eq_types_iff : entries = clause.writtenTypes.map text ↔
    ∀ c ∈ clause.children, c.isComment = false

/-! ## One clause -/

theorem isNamed_of_isComment {t : Tree} (h : t.isComment) :
    t.isNamed = true ∧ t.isType = false := by
  cases t with
  | leaf k f l =>
    cases k with
    | lineComment | blockComment => exact ⟨rfl, rfl⟩
    | _ => cases h
  | branch => cases h

/-- The children with a name are types and comments. -/
theorem AreTypes.isNamed_eq {cs : List Tree} (h : AreTypes (withoutComments cs)) :
    ∀ c ∈ cs, c.isNamed = (c.isType || c.isComment) := by
  intro c hc
  cases hcomment : c.isComment with
  | true => rw [(isNamed_of_isComment hcomment).1, Bool.or_true]
  | false =>
    have hmem : c ∈ withoutComments cs := List.mem_filter.mpr ⟨hc, by rw [hcomment]; rfl⟩
    rcases h.each c hmem with htype | ⟨l, rfl⟩
    · rw [(isNamed_of_isType htype).1, htype, Bool.true_or]
    · rfl

/-- A comment among the entries makes them longer than the types. -/
theorem map_text_eq_iff (cs : List Tree) :
    (cs.filter fun c => c.isType || c.isComment).map text = (cs.filter isType).map text ↔
      ∀ c ∈ cs, c.isComment = false := by
  have htypes : (cs.filter fun c => c.isType || c.isComment).filter isType = cs.filter isType := by
    rw [List.filter_filter]
    refine List.filter_congr fun c _ => ?_
    cases c.isType <;> rfl
  constructor
  · intro h c hc
    have hlength := congrArg List.length h
    rw [List.length_map, List.length_map, ← htypes, eq_comm,
      List.length_filter_eq_length_iff] at hlength
    cases hcomment : c.isComment with
    | false => rfl
    | true =>
      have htype := hlength c (List.mem_filter.mpr ⟨hc, by rw [hcomment, Bool.or_true]⟩)
      rw [(isNamed_of_isComment hcomment).2] at htype
      cases htype
  · intro h
    refine congrArg (List.map text) (List.filter_congr fun c hc => ?_)
    rw [h c hc, Bool.or_false]

/-- Of two clauses with the same types, one of them without comments, the other one has the same
entries if it has no comments either. -/
theorem Lists.entries_eq_iff {clause clause' : Tree} {entries entries' : List String}
    (h : clause.Lists entries) (h' : clause'.Lists entries')
    (htypes : clause'.writtenTypes.map text = clause.writtenTypes.map text)
    (hnone : ∀ c ∈ clause.children, c.isComment = false) :
    entries' = entries ↔ ∀ c ∈ clause'.children, c.isComment = false := by
  rw [h.eq_types_iff.mpr hnone, ← htypes]
  exact h'.eq_types_iff

/-- **What a clause lists** are its types and its comments. -/
theorem Conforms.lists {clause : Tree} (h : clause.Conforms)
    (hk : clause.isNode .throws ∨ clause.isNode .catchType) :
    clause.Lists (clause.namedChildren.map text) := by
  cases h with
  | leaf => rcases hk with hk | hk <;> cases hk
  | @branch k f cs r hr hyields _ _ =>
    have hcs : AreTypes (withoutComments cs) := by
      rcases hk with hk | hk
      · obtain rfl := eq_of_beq hk
        exact hyields.throws hr
      · obtain rfl := eq_of_beq hk
        exact hyields.catchType hr
    have hnamed : cs.filter isNamed = cs.filter fun c => c.isType || c.isComment :=
      List.filter_congr hcs.isNamed_eq
    refine ⟨?_, congrArg (List.map text) hnamed, ?_⟩
    · obtain ⟨t, ht, htype⟩ := hcs.some
      exact List.ne_nil_of_mem (List.mem_filter.mpr ⟨(List.mem_filter.mp ht).1, htype⟩)
    · show (cs.filter isNamed).map text = _ ↔ _
      rw [hnamed]
      exact map_text_eq_iff cs

/-- A handler has a list of types. -/
theorem Conforms.catchType {handler : Tree} (h : handler.Conforms)
    (hk : handler.isNode .catchClause) :
    ∃ parameter clause, handler.childOfKind? .catchFormalParameter = some parameter ∧
      parameter.childOfKind? .catchType = some clause ∧ clause.Conforms := by
  cases h with
  | leaf => cases hk
  | @branch k f cs r hr hyields hcomments hconform =>
    obtain rfl := eq_of_beq hk
    obtain ⟨l, m, ps, n, bs, hcs⟩ := hyields.catchClause hr
    have hparameter : cs.find? (isNode .catchFormalParameter) =
        some (Tree.branch .catchFormalParameter none ps) := by
      rw [(Skips.node _).find?_eq hcomments, hcs]
      rfl
    have hps := hconform _ (List.mem_of_find?_eq_some hparameter)
    cases hps with
    | branch hr' hyields' hcomments' hconform' =>
      obtain ⟨ms, ts, us, hps, hms⟩ := hyields'.catchFormalParameter hr'
      have hclause : ps.find? (isNode .catchType) = some (Tree.branch .catchType none ts) := by
        have hnone : ms.find? (isNode .catchType) = none := by
          rw [List.find?_eq_none]
          intro c hc
          obtain ⟨ds, rfl⟩ := hms c hc
          exact Bool.false_ne_true
        rw [(Skips.node _).find?_eq hcomments', hps, List.find?_append, hnone]
        rfl
      exact ⟨_, _, hparameter, hclause, hconform' _ (List.mem_of_find?_eq_some hclause)⟩

end Java.Tree

/-! ## Units -/

namespace SourceUnit

/-- Every method of the unit comes from a method declaration of the tree and lists what is written
in its throws clause, if there is one. Every handler in the unit comes from a node of the tree and
lists what is written in the type that it takes. -/
structure ListsExceptions (root : Tree) (u : SourceUnit) : Prop where
  methods : ∀ m ∈ u.methods, ∃ t ∈ root.nodes, t.isNode .methodDeclaration ∧ m = .ofTree t ∧
    (∀ clause, t.childOfKind? .throws = some clause → clause.Lists m.throws) ∧
    (t.childOfKind? .throws = none → m.throws = [])
  handlers : ∀ p, u.Contains p → ∀ c ∈ p.handlers, ∃ t ∈ root.nodes, t.isNode .catchClause ∧
    c = .ofTree t ∧ ∃ parameter clause, t.childOfKind? .catchFormalParameter = some parameter ∧
      parameter.childOfKind? .catchType = some clause ∧ clause.Lists c.types

theorem listsExceptions_ofTree {n : Nat} {root : Tree} (h : root.Conforms) :
    ListsExceptions root (ofTree n root) where
  methods m hm := by
    rw [(ofTree_eq_nodes n root).1] at hm
    obtain ⟨t, ht, rfl⟩ := List.mem_map.mp hm
    obtain ⟨ht, hkind⟩ := List.mem_filter.mp ht
    refine ⟨t, ht, hkind, rfl, fun clause hclause => ?_, fun hnone => ?_⟩
    · have hconforms : clause.Conforms :=
        h.of_mem_nodes (Tree.mem_nodes_of_child ht (List.mem_of_find?_eq_some hclause))
      have hthrows : (MethodDecl.ofTree t).throws = clause.namedChildren.map Tree.text := by
        rw [MethodDecl.ofTree, hclause]
      rw [hthrows]
      exact hconforms.lists (.inl (List.find?_some hclause))
    · rw [MethodDecl.ofTree, hnone]
  handlers p hp c hc := by
    obtain ⟨t, ht, hkind, rfl⟩ := exists_handler_node hp c hc
    obtain ⟨parameter, clause, hparameter, hclause, hconforms⟩ :=
      (h.of_mem_nodes ht).catchType hkind
    refine ⟨t, ht, hkind, rfl, parameter, clause, hparameter, hclause, ?_⟩
    have htaken : (t.childOfKind? .catchFormalParameter >>= fun p => p.childOfKind? .catchType) =
        some clause := by
      rw [hparameter]
      exact hclause
    have htypes : (CatchClause.ofTree t).types = clause.namedChildren.map Tree.text := by
      show caughtTypes t = _
      rw [caughtTypes, htaken]
    rw [htypes]
    exact hconforms.lists (.inr (List.find?_some hclause))

/-- **The exceptions of methods and handlers.** In every accepted text, as in every conforming tree,
a method lists the types and comments of its throws clause, and a handler, wherever it stands, those
of the type that it takes, in the order of the text. The entries are exactly the types if no comment
stands between them, and in no other case: a comment that is added to a clause changes its entries. -/
theorem exceptions_listed (path source : String) :
    (∀ u, parse path source = .ok u → ListsExceptions (Java.read source) u) ∧
    (∀ (n : Nat) (root : Tree), root.Conforms → ListsExceptions root (ofTree n root)) ∧
    ∀ (clause clause' : Tree) (entries entries' : List String), clause.Lists entries →
      clause'.Lists entries' →
      clause'.writtenTypes.map Tree.text = clause.writtenTypes.map Tree.text →
      (∀ c ∈ clause.children, c.isComment = false) →
      (entries' = entries ↔ ∀ c ∈ clause'.children, c.isComment = false) := by
  refine ⟨fun u h => ?_, fun n root h => listsExceptions_ofTree h,
    fun clause clause' entries entries' h h' => h.entries_eq_iff h'⟩
  obtain ⟨hconforms, rfl⟩ := conforms_of_parse h
  exact listsExceptions_ofTree hconforms

end SourceUnit

namespace Java.Tree

def sampleType (name : String) : Tree :=
  leaf .typeIdentifier none ⟨" ", name, 0, false⟩

def sampleRemark : Tree :=
  leaf .blockComment none ⟨" ", "/* or */", 0, false⟩

/-- A handler of two types, with some comments before the bar. -/
def sampleHandler (comments : List Tree) : Tree :=
  branch .catchClause none [
    sampleMark "catch", sampleMark "(",
    branch .catchFormalParameter none [
      branch .catchType none
        (sampleType "Fault" :: comments ++ [sampleMark "|", sampleType "Alarm"]),
      sampleName (some .name) "e"],
    sampleMark ")",
    branch .block (some .body) [sampleMark "\x7b", sampleMark "\x7d"]]

/-- The same two types in a throws clause, with the comments behind the comma. -/
def sampleThrows (comments : List Tree) : Tree :=
  branch .throws none
    (sampleMark "throws" :: sampleType "Fault" :: sampleMark "," :: comments ++
      [sampleType "Alarm"])

/-- A method with this clause and this handler. -/
def sampleThrower (comments : List Tree) : Tree :=
  branch .program none [
    branch .methodDeclaration none [
      leaf .voidType none ⟨"", "void", 0, false⟩,
      sampleName (some .name) "run",
      branch .formalParameters (some .parameters) [sampleMark "(", sampleMark ")"],
      sampleThrows comments,
      branch .block (some .body) [
        sampleMark "\x7b",
        branch .tryStatement none [
          sampleMark "try",
          branch .block (some .body) [sampleMark "\x7b", sampleMark "\x7d"],
          sampleHandler comments],
        sampleMark "\x7d"]]]

end Java.Tree

namespace SourceUnit

/-- The exceptions that the methods of the sample list, and those that their handlers do. -/
def sampleExceptions (comments : List Tree) : List (List String × List (List String)) :=
  (ofTree 1 (Tree.sampleThrower comments)).methods.map fun m =>
    (m.throws, m.statements.flatMap fun s => (Piece.stmt s).handlers.map CatchClause.types)

theorem exceptions_listed_sample :
    (∃ u, parse "Empty.java" "// nothing" = .ok u ∧ ListsExceptions (Java.read "// nothing") u) ∧
    (Tree.sampleThrower []).Conforms ∧
    ListsExceptions (Tree.sampleThrower []) (ofTree 1 (Tree.sampleThrower [])) ∧
    sampleExceptions [] = [(["Fault", "Alarm"], [["Fault", "Alarm"]])] ∧
    (Tree.sampleThrows []).Lists ["Fault", "Alarm"] ∧
    (Tree.sampleThrows [Tree.sampleRemark]).Lists ["Fault", "/* or */", "Alarm"] ∧
    (["Fault", "/* or */", "Alarm"] = ["Fault", "Alarm"] ↔
      ∀ c ∈ (Tree.sampleThrows [Tree.sampleRemark]).children, c.isComment = false) := by
  obtain ⟨hparsed, htree, hadded⟩ := exceptions_listed "Empty.java" "// nothing"
  have hroot : (Tree.sampleThrower []).Conforms := Tree.conforms_of_check 8 _ (by decide +kernel)
  have hread : (Java.read "// nothing").height ≤ maxTreeHeight ∧
      (Java.read "// nothing").hasError = false := by decide +kernel
  have hu : parse "Empty.java" "// nothing" = .ok _ :=
    parse_eq_ok_iff.mpr ⟨hread.1, hread.2, rfl⟩
  have hbefore : (Tree.sampleThrows []).Lists ["Fault", "Alarm"] :=
    Tree.Conforms.lists (Tree.conforms_of_check 8 _ (by decide +kernel)) (.inl rfl)
  have hafter : (Tree.sampleThrows [Tree.sampleRemark]).Lists ["Fault", "/* or */", "Alarm"] :=
    Tree.Conforms.lists (Tree.conforms_of_check 8 _ (by decide +kernel)) (.inl rfl)
  exact ⟨⟨_, hu, hparsed _ hu⟩, hroot, htree 1 _ hroot, by decide +kernel, hbefore, hafter,
    hadded _ _ _ _ hbefore hafter rfl (by decide +kernel)⟩

/-- A comment in a clause is listed as an exception, so the entries are not the types, and they are
others than without the comment. -/
theorem comment_listed_as_exception :
    (Tree.sampleThrower [Tree.sampleRemark]).Conforms ∧
    sampleExceptions [Tree.sampleRemark] =
      [(["Fault", "/* or */", "Alarm"], [["Fault", "/* or */", "Alarm"]])] ∧
    sampleExceptions [Tree.sampleRemark] ≠ sampleExceptions [] :=
  ⟨Tree.conforms_of_check 8 _ (by decide +kernel), by decide +kernel, by decide +kernel⟩

end SourceUnit

end CodeRisk
