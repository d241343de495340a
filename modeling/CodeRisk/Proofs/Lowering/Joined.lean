import CodeRisk.Proofs.Lowering.Method
import CodeRisk.Proofs.Lowering.Origin
import CodeRisk.Proofs.Parse

/-!
# Joined expressions

What is found in an expression is joined: atoms are left out, and a single part stands for itself.
Joining does nothing to what is joined already, and atoms make no difference to it
(`Expr.ofParts_congr`). Some places of lowering join parts, others leave out atoms themselves, and
many hand on what they get. Together they keep to one form: in all code of a unit a compound has at
least two parts, none of them an atom, and a statement for initial values has something of interest
in it (`SourceUnit.code_isJoined`).
-/
namespace CodeRisk
open Java (Tree NodeKind Field Lexeme)

namespace Expr

/-- If the expression is a compound, it has at least two parts, and no atom is one of them. -/
def IsJoined (e : Expr) : Prop :=
  ∀ es, e = .compound es → 2 ≤ es.length ∧ .atom ∉ es

/-! ## Joining parts -/

/-- Only the parts that are no atoms matter. -/
theorem ofParts_congr {es fs : List Expr}
    (h : (es.filter fun e => !e.isAtom) = fs.filter fun e => !e.isAtom) :
    ofParts es = ofParts fs := by
  rw [ofParts, ofParts, h]

theorem ofParts_insert_atom (es fs : List Expr) :
    ofParts (es ++ .atom :: fs) = ofParts (es ++ fs) := by
  apply ofParts_congr
  rw [List.filter_append, List.filter_append]
  rfl

/-- Parts that are no atoms are kept as they are, if there are two of them. -/
theorem ofParts_of_isJoined {es : List Expr} (h : (compound es).IsJoined) :
    ofParts es = .compound es := by
  obtain ⟨hlength, hatom⟩ := h es rfl
  have hfilter : (es.filter fun e => !e.isAtom) = es := by
    rw [List.filter_eq_self]
    intro e he
    cases e with
    | atom => exact absurd he hatom
    | _ => rfl
  rcases ofParts_cases es with ⟨hes, -⟩ | ⟨e, hes, -⟩ | ⟨-, hcompound⟩
  · rw [← hfilter, hes] at hlength
    exact absurd hlength (by decide)
  · rw [← hfilter, hes] at hlength
    exact absurd hlength (Nat.not_le.mpr Nat.one_lt_two)
  · rw [hcompound, hfilter]

/-- **Joining joined parts** makes a joined expression. -/
theorem isJoined_ofParts {es : List Expr} (h : ∀ e ∈ es, e.IsJoined) : (ofParts es).IsJoined := by
  rcases ofParts_cases es with ⟨-, hatom⟩ | ⟨e, hone, hsingle⟩ | ⟨hlength, hcompound⟩
  · rw [hatom]
    nofun
  · have hmem : e ∈ es.filter fun e => !e.isAtom := hone ▸ List.mem_singleton_self e
    rw [hsingle]
    exact h e (List.mem_filter.mp hmem).1
  · rw [hcompound]
    rintro fs ⟨⟩
    exact ⟨hlength, fun hmem => absurd (List.mem_filter.mp hmem).2 Bool.false_ne_true⟩

/-! ## Lowered code -/

/-- What a node is lowered to is joined. -/
theorem isJoined_ofTree (t : Tree) : (ofTree t).IsJoined := by
  cases t with
  | leaf k f l =>
    intro es hes
    cases hes
  | branch k f cs =>
    have ih : ∀ c ∈ cs, (ofTree c).IsJoined := fun c _ => isJoined_ofTree c
    cases k with
    | ternary | lambda | switch | classBody =>
      intro es hes
      cases hes
    | _ =>
      show (ofParts (ofNamed cs)).IsJoined
      refine isJoined_ofParts fun e he => ?_
      rw [ofNamed_eq] at he
      obtain ⟨c, hc, rfl⟩ := List.mem_map.mp he
      exact ih c (List.mem_filter.mp hc).1

end Expr

/-- So are all expressions in lowered code, wherever they stand. -/
theorem Piece.LoweredFrom.isJoined {ns : List Tree} {e : Expr} (h : LoweredFrom ns (.expr e)) :
    e.IsJoined := by
  cases h with
  | expr =>
    refine Expr.isJoined_ofParts fun e he => ?_
    obtain ⟨t, -, rfl⟩ := List.mem_map.mp he
    exact Expr.isJoined_ofTree t

/-- Initial values become a statement only if there is something of interest in one of them. -/
theorem CodePart.eq_of_statement?_simple {part : CodePart} {es : List Expr}
    (h : part.statement? = some (.simple es)) : ∃ e, es = [e] ∧ e ≠ .atom := by
  cases part with
  | block b => cases h
  | values vs =>
    rw [statement?] at h
    split at h
    next => cases h
    next hall =>
      cases h
      refine ⟨_, rfl, fun hatom => hall ?_⟩
      rw [← Expr.isAtom_ofParts, hatom]
      rfl

namespace SourceUnit

/-- **The form of the code of a unit.** At any depth of any method body, and of the code outside
methods, a compound has at least two parts and no atom among them; and a simple statement right in
the code outside methods has one expression, which is no atom. -/
structure IsJoined (u : SourceUnit) : Prop where
  compounds : ∀ es, u.Contains (.expr (.compound es)) → 2 ≤ es.length ∧ .atom ∉ es
  simples : ∀ es, .simple es ∈ u.otherCode → ∃ e, es = [e] ∧ e ≠ .atom

theorem isJoined_ofTree (n : Nat) (root : Tree) : (ofTree n root).IsJoined where
  compounds es h := (loweredFrom_of_contains h).isJoined es rfl
  simples es h := by
    rw [(ofTree_eq_nodes n root).2.2.2.2] at h
    obtain ⟨part, -, hpart⟩ := List.mem_filterMap.mp h
    exact CodePart.eq_of_statement?_simple hpart

/-- **All code of a unit is joined.** It has the form that `IsJoined` says, in the unit of every
accepted text as in that of any tree. Joining makes such expressions, and it changes nothing that is
joined: neither a single expression that it made, nor the parts of a compound. Atoms can be put in
or left out anywhere among the parts; only the other ones matter. -/
theorem code_isJoined :
    (∀ (path source : String) (u : SourceUnit), parse path source = .ok u → u.IsJoined) ∧
    (∀ (n : Nat) (root : Tree), (ofTree n root).IsJoined) ∧
    (∀ es, (∀ e ∈ es, e.IsJoined) → (Expr.ofParts es).IsJoined) ∧
    (∀ es, Expr.ofParts [.ofParts es] = .ofParts es) ∧
    (∀ es, (Expr.compound es).IsJoined → Expr.ofParts es = .compound es) ∧
    (∀ es fs, Expr.ofParts (es ++ .atom :: fs) = .ofParts (es ++ fs)) ∧
    ∀ es fs : List Expr, (es.filter fun e => !e.isAtom) = (fs.filter fun e => !e.isAtom) →
      Expr.ofParts es = .ofParts fs := by
  refine ⟨fun path source u h => ?_, isJoined_ofTree, fun es => Expr.isJoined_ofParts,
    fun es => Expr.ofParts_singleton _, fun es => Expr.ofParts_of_isJoined,
    Expr.ofParts_insert_atom, fun es fs => Expr.ofParts_congr⟩
  obtain ⟨-, rfl⟩ := conforms_of_parse h
  exact isJoined_ofTree _ _

end SourceUnit

namespace Java.Tree

/-- A variable with an initial value. -/
def sampleVariable (name : String) (value : Tree) : Tree :=
  branch .variableDeclarator none [sampleName (some .name) name, sampleMark "=", value]

/-- A class whose field declares three variables; the value of the second one is a mere name. -/
def sampleValues : Tree :=
  branch .program none [
    branch .classDeclaration none [
      sampleMark "class",
      sampleName (some .name) "Sample",
      branch .classBody (some .body) [
        sampleMark "\x7b",
        branch .fieldDeclaration none [
          branch .integralType none [sampleMark "int"],
          sampleVariable "f" (branch .ternary (some .value) [
            sampleName (some .condition) "a", sampleMark "?",
            sampleName (some .consequence) "b", sampleMark ":",
            sampleName (some .alternative) "c"]),
          sampleMark ",",
          sampleVariable "g" (sampleName (some .value) "d"),
          sampleMark ",",
          sampleVariable "h" (branch .lambda (some .value) [
            sampleName (some .parameters) "x", sampleMark "->", sampleName (some .body) "x"]),
          sampleMark ";"],
        sampleMark "\x7d"]]]

end Java.Tree

namespace SourceUnit

/-- The conditional and the lambda are joined, and they would be with more atoms between them. -/
theorem code_isJoined_sample :
    (∃ u, parse "Empty.java" "// nothing" = .ok u ∧ u.IsJoined) ∧
    (ofTree 3 Tree.sampleValues).otherCode =
      [.simple [.compound [.conditional .atom .atom .atom, .lambda (.simple [.atom])]]] ∧
    (ofTree 3 Tree.sampleValues).IsJoined ∧
    Expr.ofParts [.conditional .atom .atom .atom, .atom, .atom, .lambda (.simple [.atom])] =
      .ofParts [.conditional .atom .atom .atom, .atom, .lambda (.simple [.atom])] := by
  obtain ⟨hparse, htree, -, -, -, hinsert, -⟩ := code_isJoined
  have hread : (Java.read "// nothing").height ≤ maxTreeHeight ∧
      (Java.read "// nothing").hasError = false := by decide +kernel
  have hu : parse "Empty.java" "// nothing" = .ok _ :=
    parse_eq_ok_iff.mpr ⟨hread.1, hread.2, rfl⟩
  exact ⟨⟨_, hu, hparse _ _ _ hu⟩, rfl, htree 3 _, hinsert [.conditional .atom .atom .atom] _⟩

end SourceUnit

end CodeRisk
