/-!
# Grammar rules

A grammar gives one rule to each phrase name. A rule is an expression over terminals and phrase
names; `Rule.productions` lists the plain productions it stands for, none of them empty unless the
rule itself derives the empty word. Binding strengths and labels travel with the single steps of a
production, so that a table builder can settle conflicts and a tree builder can name children.
-/
namespace CodeRisk.Grammar

/-- To which side a chain of equally strong operators groups. -/
inductive Side where
  | left
  | right
  deriving DecidableEq, Repr

/-- A symbol of a production: a terminal or the name of a phrase. -/
inductive Symbol (T N : Type) where
  | terminal (t : T)
  | phrase (n : N)
  deriving DecidableEq, Repr, Hashable

/-- How strongly a step of a production binds. -/
structure Binding where
  level : Int := 0
  side : Option Side := none
  deriving Repr

/-- A rule over terminals `T`, phrases `N`, child labels `F` and node kinds `K`. -/
inductive Rule (T N F K : Type) where
  | terminal (t : T)
  | phrase (n : N)
  | empty
  | seq (first second : Rule T N F K)
  | alt (first second : Rule T N F K)
  /-- The children that the rule yields carry the label. -/
  | label (f : F) (rule : Rule T N F K)
  /-- The node that the rule yields is shown under another kind. -/
  | shown (k : K) (rule : Rule T N F K)
  /-- The rule binds at a level of its own. -/
  | level (n : Int) (rule : Rule T N F K)
  /-- The rule groups to a side of its own. -/
  | grouped (s : Side) (rule : Rule T N F K)
  /-- Among several readings of one text the heavier is taken. -/
  | weight (n : Nat) (rule : Rule T N F K)

/-- One symbol of a production, with what the tree builder and the conflict rules need of it. -/
structure Step (T N F K : Type) where
  symbol : Symbol T N
  label : Option F := none
  shown : Option K := none
  binding : Binding := {}

/-- The right-hand side of a production. -/
structure Expansion (T N F K : Type) where
  steps : List (Step T N F K)
  weight : Nat := 0

/-- A production: `phrase` may be read as the sequence of `steps`. -/
structure Production (T N F K : Type) where
  phrase : N
  steps : List (Step T N F K)
  weight : Nat := 0

variable {T N F K : Type}

namespace Expansion

/-- Applies `f` to the last step. -/
def mapLast (f : Step T N F K → Step T N F K) : List (Step T N F K) → List (Step T N F K)
  | [] => []
  | [s] => [f s]
  | s :: rest => s :: mapLast f rest

/-- The same expansion with `f` applied to the binding of its last step. -/
def rebind (f : Binding → Binding) (x : Expansion T N F K) : Expansion T N F K :=
  ⟨mapLast (fun s => { s with binding := f s.binding }) x.steps, x.weight⟩

/-- The expansion `a` followed by the expansion `b`. -/
def append (a b : Expansion T N F K) : Expansion T N F K :=
  ⟨a.steps ++ b.steps, max a.weight b.weight⟩

end Expansion

namespace Rule

/-- The expansions of a rule inside a context that binds as `outer` says. `final` tells whether the
rule ends its production: only there does the binding of the last step reach beyond the rule. -/
def expansions (outer : Binding) (final : Bool) : Rule T N F K → List (Expansion T N F K)
  | terminal t => [⟨[{ symbol := .terminal t, binding := outer }], 0⟩]
  | phrase n => [⟨[{ symbol := .phrase n, binding := outer }], 0⟩]
  | empty => [⟨[], 0⟩]
  | seq a b => (a.expansions outer false).flatMap fun x =>
      (b.expansions outer final).map x.append
  | alt a b => a.expansions outer final ++ b.expansions outer final
  | label f a => (a.expansions outer final).map fun x =>
      { x with steps := x.steps.map fun s => { s with label := some (s.label.getD f) } }
  | shown k a => (a.expansions outer final).map fun x =>
      { x with steps := x.steps.map fun s => { s with shown := some k } }
  | level n a => (a.expansions { outer with level := n } final).map fun x =>
      if final then x else x.rebind fun b => { b with level := outer.level }
  | grouped d a => (a.expansions { outer with side := some d } final).map fun x =>
      if final then x else x.rebind fun b => { b with side := outer.side }
  | weight n a => (a.expansions outer final).map fun x => { x with weight := max n x.weight }

/-- The productions that give phrase `n` the meaning of the rule. -/
def productions (n : N) (rule : Rule T N F K) : List (Production T N F K) :=
  (rule.expansions {} true).map fun x => ⟨n, x.steps, x.weight⟩

/-! ## Derived forms -/

/-- The rules one after the other. -/
def all : List (Rule T N F K) → Rule T N F K
  | [] => empty
  | [r] => r
  | r :: rest => seq r (all rest)

/-- One of the rules. -/
def any : List (Rule T N F K) → Rule T N F K
  | [] => empty
  | [r] => r
  | r :: rest => alt r (any rest)

/-- The rule or nothing. -/
def opt (r : Rule T N F K) : Rule T N F K :=
  alt r empty

/-- One or more items; `self` is the phrase that the rule belongs to. -/
def listOf (self : N) (item : Rule T N F K) : Rule T N F K :=
  alt item (seq (phrase self) item)

/-- One or more items with a separator between each two; `self` is the phrase that the rule belongs
to. -/
def listBy (separator : Rule T N F K) (self : N) (item : Rule T N F K) : Rule T N F K :=
  alt item (seq (phrase self) (seq separator item))

end Rule

/-- A grammar: its start phrase and the rule of each phrase. -/
structure Grammar (T N F K : Type) where
  start : N
  rules : List (N × Rule T N F K)

/-- The productions of all phrases, in the order of the rules. -/
def Grammar.productions (g : Grammar T N F K) : List (Production T N F K) :=
  g.rules.flatMap fun (n, rule) => rule.productions n

end CodeRisk.Grammar
