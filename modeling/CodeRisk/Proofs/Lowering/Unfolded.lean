import CodeRisk.Proofs.Lowering.Children
import CodeRisk.Proofs.Outline

/-!
# What is left of an expression

An expression keeps the conditional expressions, lambdas and switches in it. Lowering goes down
through nodes of all other kinds and joins what it finds: it leaves out atoms and lets a single part
stand for itself, at every level. Opening all compounds again (`Expr.unfold`) shows that nothing is
lost, doubled or moved on the way. What is left of a node are its outermost nodes of the three kinds
(`Tree.outermost`), in the order of the text (`Expr.unfold_ofTree`).
-/
namespace CodeRisk
open Java (Tree NodeKind Field TokenKind Lexeme)

/-! ## Nodes of some kinds with none around -/

namespace Outline
variable {α : Type} {picks stops : α → Bool}

/-- The nodes that are picked, unless they stand inside a node that stops. -/
def picked (picks stops : α → Bool) (os : List (Occurrence α)) : List α :=
  (os.filter fun o => picks o.label && !o.around.any stops).map Occurrence.label

theorem picked_cons (o : Occurrence α) (os : List (Occurrence α)) :
    picked picks stops (o :: os) =
      if picks o.label && !o.around.any stops then o.label :: picked picks stops os
      else picked picks stops os := by
  rw [picked, List.filter_cons]
  split <;> rfl

theorem picked_append (os ps : List (Occurrence α)) :
    picked picks stops (os ++ ps) = picked picks stops os ++ picked picks stops ps := by
  rw [picked, List.filter_append, List.map_append]
  rfl

mutual

/-- Inside a node that stops, nothing is picked. -/
theorem picked_occurrences_eq_nil {around : List α} (h : around.any stops) :
    (o : Outline α) → picked picks stops (occurrences around o) = []
  | node a parts => by
    have hinside : (a :: around).any stops := by rw [List.any_cons, h, Bool.or_true]
    rw [occurrences, picked_cons, h, picked_occurrencesIn_eq_nil hinside parts, Bool.not_true,
      Bool.and_false]
    rfl

theorem picked_occurrencesIn_eq_nil {around : List α} (h : around.any stops) :
    (os : List (Outline α)) → picked picks stops (occurrencesIn around os) = []
  | [] => rfl
  | o :: os => by
    rw [occurrencesIn, picked_append, picked_occurrences_eq_nil h o,
      picked_occurrencesIn_eq_nil h os]
    rfl

end

mutual

/-- Nodes around that do not stop do not matter. -/
theorem picked_occurrences_congr {around around' : List α}
    (h : around.any stops = around'.any stops) : (o : Outline α) →
    picked picks stops (occurrences around o) = picked picks stops (occurrences around' o)
  | node a parts => by
    have hinside : (a :: around).any stops = (a :: around').any stops := by
      rw [List.any_cons, List.any_cons, h]
    rw [occurrences, occurrences, picked_cons, picked_cons, h,
      picked_occurrencesIn_congr hinside parts]

theorem picked_occurrencesIn_congr {around around' : List α}
    (h : around.any stops = around'.any stops) : (os : List (Outline α)) →
    picked picks stops (occurrencesIn around os) = picked picks stops (occurrencesIn around' os)
  | [] => rfl
  | o :: os => by
    rw [occurrencesIn, occurrencesIn, picked_append, picked_append, picked_occurrences_congr h o,
      picked_occurrencesIn_congr h os]

end

end Outline

namespace Java.Tree

/-- Whether the node is a conditional expression, a lambda or a switch. -/
def isKept (t : Tree) : Bool :=
  t.isNode .ternary || t.isNode .lambda || t.isNode .switch

/-- Whether lowering of an expression does not look for parts below the node. -/
def isClosed (t : Tree) : Bool :=
  t.isKept || t.isNode .classBody

mutual

/-- The outline of all nodes of a tree. -/
def wholeOutline : Tree → Outline Tree
  | t@(leaf ..) => .node t []
  | t@(branch _ _ cs) => .node t (wholeOutlines cs)

/-- The outlines of all nodes of the trees of a list. -/
def wholeOutlines : List Tree → List (Outline Tree)
  | [] => []
  | t :: ts => t.wholeOutline :: wholeOutlines ts

end

/-- The conditional expressions, lambdas and switches among a node and all nodes below it that do
not stand inside another one or inside the body of a class, in the order of the text. -/
def outermost (t : Tree) : List Tree :=
  Outline.picked isKept isClosed (Outline.occurrences [] t.wholeOutline)

/-- A node that is kept hides all nodes below it. -/
theorem outermost_of_isKept {t : Tree} (h : t.isKept) : t.outermost = [t] := by
  cases t with
  | leaf => cases h
  | branch k f cs =>
    have hstops : [branch k f cs].any isClosed := by
      rw [List.any_cons, isClosed, h, Bool.true_or, Bool.true_or]
    rw [outermost, wholeOutline, Outline.occurrences, Outline.picked_cons, h,
      Outline.picked_occurrencesIn_eq_nil hstops]
    rfl

/-- So does the body of a class, which is not kept itself. -/
theorem outermost_classBody (f : Option Field) (cs : List Tree) :
    (branch .classBody f cs).outermost = [] := by
  have hstops : [branch .classBody f cs].any isClosed := rfl
  rw [outermost, wholeOutline, Outline.occurrences, Outline.picked_cons,
    Outline.picked_occurrencesIn_eq_nil hstops]
  rfl

/-- Below all other nodes the search goes on. -/
theorem outermost_branch {k : NodeKind} {f : Option Field} {cs : List Tree}
    (h : (branch k f cs).isClosed = false) :
    (branch k f cs).outermost = cs.flatMap outermost := by
  have hkept : (branch k f cs).isKept = false := (Bool.or_eq_false_iff.mp h).1
  have hopen : [branch k f cs].any isClosed = ([] : List Tree).any isClosed := by
    rw [List.any_cons, h]
    rfl
  have hforest (ts : List Tree) :
      Outline.picked isKept isClosed (Outline.occurrencesIn [] (wholeOutlines ts)) =
        ts.flatMap outermost := by
    induction ts with
    | nil => rfl
    | cons t ts ih =>
      rw [wholeOutlines, Outline.occurrencesIn, Outline.picked_append, ih]
      rfl
  rw [outermost, wholeOutline, Outline.occurrences, Outline.picked_cons, hkept, Bool.false_and,
    if_neg Bool.false_ne_true, Outline.picked_occurrencesIn_congr hopen, hforest]

theorem isKept_of_mem_outermost {t n : Tree} (h : n ∈ t.outermost) : n.isKept := by
  obtain ⟨o, ho, rfl⟩ := List.mem_map.mp h
  exact (Bool.and_eq_true_iff.mp (List.mem_filter.mp ho).2).1

end Java.Tree

/-! ## Opening compounds -/

namespace Expr

mutual

/-- The parts of an expression after all compounds are opened and atoms are left out. -/
def unfold : Expr → List Expr
  | compound es => unfoldAll es
  | atom => []
  | e => [e]

/-- The parts of some expressions. -/
def unfoldAll : List Expr → List Expr
  | [] => []
  | e :: es => unfold e ++ unfoldAll es

end

theorem unfoldAll_eq (es : List Expr) : unfoldAll es = es.flatMap unfold := by
  induction es with
  | nil => rfl
  | cons e es ih => rw [unfoldAll, ih, List.flatMap_cons]

/-- Joining parts keeps what is in them. -/
theorem unfold_ofParts (es : List Expr) : (ofParts es).unfold = es.flatMap unfold :=
  flatMap_ofParts rfl unfoldAll_eq es

/-- The expression is as flat as its parts allow: without a part it is an atom, and with a single
part it is no compound. -/
structure IsTight (e : Expr) : Prop where
  atom : e.unfold = [] → e = .atom
  compound : ∀ es, e = .compound es → 2 ≤ e.unfold.length

namespace IsTight
variable {e : Expr}

/-- A single part stands for itself. -/
theorem eq_of_unfold {e' : Expr} (h : e.IsTight) (hparts : e.unfold = [e']) : e = e' := by
  cases e with
  | atom => cases hparts
  | compound es =>
    have hlength := h.compound es rfl
    rw [hparts, List.length_singleton] at hlength
    omega
  | _ => exact (List.cons.inj hparts).1

theorem eq_atom_iff (h : e.IsTight) : e = .atom ↔ e.unfold = [] :=
  ⟨fun hatom => hatom ▸ rfl, h.atom⟩

theorem exists_compound_iff (h : e.IsTight) :
    (∃ es, e = .compound es) ↔ 2 ≤ e.unfold.length := by
  refine ⟨fun ⟨es, hes⟩ => h.compound es hes, fun hlength => ?_⟩
  cases e with
  | compound es => exact ⟨es, rfl⟩
  | atom => exact absurd hlength (by decide)
  | _ => exact absurd hlength (Nat.not_le.mpr Nat.one_lt_two)

/-- An atom leaves nothing, and all else leaves something. -/
theorem length_le {es : List Expr} (h : ∀ e ∈ es, e.IsTight) (hes : ∀ e ∈ es, e.isAtom = false) :
    es.length ≤ (es.flatMap unfold).length := by
  induction es with
  | nil => exact Nat.le_refl 0
  | cons e es ih =>
    have htail := ih (fun e' he' => h e' (List.mem_cons_of_mem e he'))
      fun e' he' => hes e' (List.mem_cons_of_mem e he')
    have hhead : 0 < e.unfold.length := by
      refine List.length_pos_of_ne_nil fun hnil => ?_
      have hatom := hes e (List.mem_cons_self ..)
      rw [(h e (List.mem_cons_self ..)).atom hnil] at hatom
      cases hatom
    rw [List.flatMap_cons, List.length_append, List.length_cons]
    omega

/-- **Joining tight parts** makes a tight expression. -/
theorem ofParts {es : List Expr} (h : ∀ e ∈ es, e.IsTight) : (Expr.ofParts es).IsTight := by
  have hkept : ∀ e ∈ es.filter (fun e => !e.isAtom), e.IsTight ∧ e.isAtom = false := by
    intro e he
    obtain ⟨hmem, hatom⟩ := List.mem_filter.mp he
    exact ⟨h e hmem, by simpa using hatom⟩
  rcases ofParts_cases es with ⟨-, hatom⟩ | ⟨e, hone, hsingle⟩ | ⟨htwo, hcompound⟩
  · rw [hatom]
    exact ⟨fun _ => rfl, nofun⟩
  · rw [hsingle]
    exact (hkept e (hone ▸ List.mem_singleton_self e)).1
  · have hlength := length_le (fun e he => (hkept e he).1) fun e he => (hkept e he).2
    rw [← unfoldAll_eq] at hlength
    rw [hcompound]
    refine ⟨fun hnil => ?_, fun _ _ => Nat.le_trans htwo hlength⟩
    have hzero : unfoldAll (es.filter fun e => !e.isAtom) = [] := hnil
    rw [hzero, List.length_nil] at hlength
    omega

end IsTight

/-! ## Lowered nodes -/

/-- A node that is kept is a part by itself. -/
theorem unfold_of_isKept {t : Tree} (h : t.isKept) :
    (ofTree t).unfold = [ofTree t] ∧ (ofTree t).IsTight := by
  cases t with
  | leaf => cases h
  | branch k f cs =>
    cases k with
    | ternary | lambda | switch => exact ⟨rfl, nofun, nofun⟩
    | _ => cases h

theorem ofTree_of_isClosed {k : NodeKind} {f : Option Field} {cs : List Tree}
    (h : (Tree.branch k f cs).isClosed = false) :
    ofTree (.branch k f cs) = .ofParts (ofNamed cs) := by
  cases k <;> first | rfl | cases h

/-- A node that is not kept and not the body of a class is what its children leave, joined. -/
theorem unfold_branch {k : NodeKind} {f : Option Field} {cs : List Tree}
    (h : (Tree.branch k f cs).isClosed = false)
    (ih : ∀ c ∈ cs, (ofTree c).unfold = c.outermost.map ofTree ∧ (ofTree c).IsTight) :
    (ofTree (.branch k f cs)).unfold = (Tree.branch k f cs).outermost.map ofTree ∧
      (ofTree (.branch k f cs)).IsTight := by
  rw [ofTree_of_isClosed h, ofNamed_eq]
  constructor
  · rw [unfold_ofParts, Tree.outermost_branch h, List.map_flatMap, List.flatMap_map]
    refine Tree.flatMap_filter_eq (fun c hc _ => (ih c hc).1) fun c _ hnamed => ?_
    cases c with
    | leaf => rfl
    | branch => cases hnamed
  · refine IsTight.ofParts fun e he => ?_
    obtain ⟨c, hc, rfl⟩ := List.mem_map.mp he
    exact (ih c (List.mem_filter.mp hc).1).2

/-- What a lowered node leaves are its outermost nodes that are kept, each lowered by itself. -/
theorem unfold_eq_outermost (t : Tree) :
    (ofTree t).unfold = t.outermost.map ofTree ∧ (ofTree t).IsTight := by
  cases t with
  | leaf => exact ⟨rfl, fun _ => rfl, fun _ h => by cases h⟩
  | branch k f cs =>
    have ih : ∀ c ∈ cs, (ofTree c).unfold = c.outermost.map ofTree ∧ (ofTree c).IsTight :=
      fun c _ => unfold_eq_outermost c
    cases hclosed : (Tree.branch k f cs).isClosed with
    | false => exact unfold_branch hclosed ih
    | true =>
      rcases Bool.or_eq_true_iff.mp hclosed with hkept | hbody
      · rw [Tree.outermost_of_isKept hkept]
        exact unfold_of_isKept hkept
      · obtain rfl := eq_of_beq hbody
        rw [Tree.outermost_classBody]
        exact ⟨rfl, fun _ => rfl, fun _ h => by cases h⟩

/-- **What is left of a node** after lowering, all compounds opened and atoms left out, are the
conditional expressions, lambdas and switches among the node and the nodes below it that do not
stand inside another one or in the body of a class: each of them once, lowered by itself, in the
order of the text. So the node is an atom if there is none, what is left of the only one if there is
one, and a compound if there are more. -/
theorem unfold_ofTree (t : Tree) :
    (ofTree t).unfold = t.outermost.map ofTree ∧
      (ofTree t = .atom ↔ t.outermost = []) ∧
      ((∃ n ∈ t.outermost, ofTree t = ofTree n) ↔ t.outermost.length = 1) ∧
      ((∃ es, ofTree t = .compound es) ↔ 2 ≤ t.outermost.length) := by
  obtain ⟨hunfold, htight⟩ := unfold_eq_outermost t
  have hlength : (ofTree t).unfold.length = t.outermost.length := by
    rw [hunfold, List.length_map]
  refine ⟨hunfold, ?_, ?_, ?_⟩
  · rw [htight.eq_atom_iff, hunfold, List.map_eq_nil_iff]
  · constructor
    · rintro ⟨n, hn, heq⟩
      rw [← hlength, heq, (unfold_of_isKept (Tree.isKept_of_mem_outermost hn)).1]
      rfl
    · intro hone
      obtain ⟨n, hn⟩ := List.length_eq_one_iff.mp hone
      rw [hn, List.map_singleton] at hunfold
      exact ⟨n, hn ▸ List.mem_singleton_self n, htight.eq_of_unfold hunfold⟩
  · rw [htight.exists_compound_iff, hlength]

end Expr

end CodeRisk
