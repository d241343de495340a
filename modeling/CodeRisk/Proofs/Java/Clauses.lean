import CodeRisk.Proofs.Java.Shape

/-!
# Clauses that list types

The exceptions that a method throws stand behind `throws`, with commas between them, and those that
a handler takes stand before its name, with bars between them. What the grammar yields there,
comments aside, are types and tokens (`Yields.throws`, `Yields.catchType`). A handler always has
such a list (`Yields.catchFormalParameter`).
-/
namespace CodeRisk.Java
open Grammar

namespace NodeKind

/-- Whether the node is a type that is made of several tokens. -/
def isType : NodeKind → Bool
  | integralType | floatingPointType | scopedTypeIdentifier | genericType | arrayType
  | annotatedType => true
  | _ => false

end NodeKind

namespace TokenKind

/-- Whether the token alone is a type. -/
def isType : TokenKind → Bool
  | voidType | booleanType | typeIdentifier => true
  | _ => false

end TokenKind

/-- Whether the node is a type. -/
def Tree.isType : Tree → Bool
  | leaf k _ _ => k.isType
  | branch k _ _ => k.isType

/-- A type has a name and is no comment. -/
theorem Tree.isNamed_of_isType {t : Tree} (h : t.isType) :
    t.isNamed = true ∧ t.isComment = false := by
  cases t with
  | leaf k f l =>
    cases k with
    | voidType | booleanType | typeIdentifier => exact ⟨rfl, rfl⟩
    | _ => cases h
  | branch => exact ⟨rfl, rfl⟩

/-! ## Types -/

namespace YieldsOne
variable {a b : JavaRule} {P Q : Tree → Prop}

theorem mono (h : YieldsOne a P) (hPQ : ∀ t, P t → Q t) : YieldsOne a Q := by
  intro ts hts
  obtain ⟨t, rfl, ht⟩ := h ts hts
  exact ⟨t, rfl, hPQ t ht⟩

theorem alt (ha : YieldsOne a P) (hb : YieldsOne b P) : YieldsOne (.alt a b) P := by
  intro ts hts
  rcases yields_alt.mp hts with h | h
  · exact ha ts h
  · exact hb ts h

theorem phrase {p : Phrase} (hp : p.isHidden) (hr : ruleOf? p = some a) (h : YieldsOne a P) :
    YieldsOne (.phrase p) P :=
  fun ts hts => h ts ((yields_phrase hp hr).mp hts)

theorem token_isType {t : Terminal} (ht : t.kind.isType) :
    YieldsOne (.terminal t) fun x => x.isType := by
  refine token.mono ?_
  rintro _ ⟨l, rfl⟩
  exact ht

theorem node_isType {k : NodeKind} (hk : k.isType) :
    YieldsOne (.phrase (.node k)) fun x => x.isType := by
  refine node.mono ?_
  rintro _ ⟨cs, rfl⟩
  exact hk

/-- The name of a type is an identifier that is shown as such. -/
theorem typeName : YieldsOne Rules.typeName fun x => x.isType := by
  intro ts h
  obtain ⟨us, hus, rfl⟩ := yields_shown.mp h
  obtain ⟨l, rfl⟩ := yields_terminal.mp hus
  exact ⟨_, rfl, rfl⟩

theorem simpleType : YieldsOne Rules.simpleType fun x => x.isType :=
  .alt (token_isType rfl) <| .alt (node_isType rfl) <| .alt (node_isType rfl) <|
    .alt (token_isType rfl) <| .alt typeName <| .alt (node_isType rfl) (node_isType rfl)

theorem plainType : YieldsOne (.phrase .plainType) fun x => x.isType :=
  phrase rfl rfl (simpleType.alt (node_isType rfl))

theorem type : YieldsOne (.phrase .type) fun x => x.isType :=
  phrase rfl rfl (plainType.alt (node_isType rfl))

end YieldsOne

/-! ## Lists of types -/

/-- The trees are types and tokens, at least one of them a type. -/
structure Tree.AreTypes (ts : List Tree) : Prop where
  each : ∀ t ∈ ts, t.isType ∨ ∃ l, t = mark l
  some : ∃ t ∈ ts, t.isType

namespace Yields
open Java.Tree

variable {ts : List Tree} {r : JavaRule}

/-- One or more types with separators between them. -/
theorem areTypes {p : Phrase} {s : String} {item : JavaRule} (h : Yields (.phrase p) ts)
    (hp : p.isHidden) (hr : ruleOf? p = some (Rule.listBy (.terminal (.fixed s)) p item))
    (hs : (Terminal.fixed s).kind = .fixed) (hitem : YieldsOne item fun x => x.isType) :
    AreTypes ts := by
  obtain ⟨first, rest, rfl, hfirst, hrest⟩ := h.itemsBy hp hr
  obtain ⟨t, rfl, ht⟩ := hitem _ hfirst
  refine ⟨fun u hu => ?_, t, List.mem_append_left _ (List.mem_singleton_self t), ht⟩
  rcases List.mem_append.mp hu with hu | hu
  · rw [List.mem_singleton.mp hu]
    exact .inl ht
  · obtain ⟨x, hx, hu⟩ := List.mem_flatMap.mp hu
    obtain ⟨hseparator, hx⟩ := hrest x hx
    rcases List.mem_append.mp hu with hu | hu
    · obtain ⟨l, heq⟩ := yields_terminal.mp hseparator
      rw [heq, hs, List.mem_singleton] at hu
      exact .inr ⟨l, hu⟩
    · obtain ⟨v, heq, hv⟩ := hitem _ hx
      rw [heq, List.mem_singleton] at hu
      exact .inl (hu ▸ hv)

theorem throws (h : Yields r ts) (hr : shapeOf? .throws = some r) : AreTypes ts := by
  cases hr
  obtain ⟨_, us, rfl, ⟨l, rfl⟩, h₁⟩ := h.cons .token
  obtain ⟨heach, t, ht, htype⟩ := h₁.areTypes rfl rfl rfl .type
  refine ⟨fun u hu => ?_, t, List.mem_cons_of_mem _ ht, htype⟩
  rcases List.mem_cons.mp hu with rfl | hu
  · exact .inr ⟨l, rfl⟩
  · exact heach u hu

theorem catchType (h : Yields r ts) (hr : shapeOf? .catchType = some r) : AreTypes ts := by
  cases hr
  exact h.areTypes rfl rfl rfl .plainType

/-- Behind the modifiers of the parameter of a handler stands the list of its types. -/
theorem catchFormalParameter (h : Yields r ts) (hr : shapeOf? .catchFormalParameter = some r) :
    ∃ ms cs us, ts = ms ++ branch .catchType none cs :: us ∧
      ∀ t ∈ ms, ∃ ds, t = branch .modifiers none ds := by
  cases hr
  obtain ⟨ms, vs, rfl, hms, h₁⟩ := yields_seq.mp h
  obtain ⟨_, us, rfl, ⟨cs, rfl⟩, -⟩ := h₁.cons .node
  refine ⟨ms, cs, us, rfl, fun t ht => ?_⟩
  rcases yields_alt.mp hms with h₂ | h₂
  · obtain ⟨ds, rfl⟩ := yields_node.mp h₂
    exact ⟨ds, List.mem_singleton.mp ht⟩
  · rw [yields_empty.mp h₂] at ht
    cases ht

end Yields

end CodeRisk.Java
