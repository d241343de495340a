import CodeRisk.Record.Schema

/-!
# Canonical records

The canonical values of a schema (`Schema.Canonical`) have all fields of a record in the order of
the schema, and `null` for an option that is absent. For each kind of schema there is a lemma that
says what its canonical values look like.
-/
namespace CodeRisk.Record.Schema

/-! ## Canonical values -/

mutual

/-- The canonical values of a schema. -/
inductive Canonical (defs : Definitions) : Schema → Json → Prop where
  | text (t : String) : Canonical defs .text (.string t)
  | bool (b : Bool) : Canonical defs .bool (.bool b)
  | whole {name : String} {limit : Nat} {n : Int} (hn : 0 ≤ n) (hlimit : n ≤ limit) :
      Canonical defs (.whole name limit) (.integer n)
  | read {expected : String} {accept : String → Except String Unit} {t : String}
      (h : accept t = .ok ()) : Canonical defs (.read expected accept) (.string t)
  | list {item : Schema} {xs : List Json} (h : CanonicalAll defs item xs) :
      Canonical defs (.list item) (.array xs)
  | absent {item : Schema} : Canonical defs (.option item) .null
  | present {item : Schema} {x : Json} (h : Canonical defs item x) : Canonical defs (.option item) x
  | fields {name : String} {fs : List (String × Schema)} {ms : List (String × Json)}
      (h : CanonicalMembers defs fs ms) : Canonical defs (.fields name fs) (.object ms)
  | bare {bare : List String} {valued : List (String × Schema)}
      {fielded : List (String × List (String × Schema))} {known : List String} {v : String}
      (hv : bare.contains v = true) : Canonical defs (.choice bare valued fielded known) (.string v)
  | valued {bare : List String} {valued : List (String × Schema)}
      {fielded : List (String × List (String × Schema))} {known : List String} {v : String}
      {item : Schema} {x : Json} (hbare : bare.contains v = false)
      (hv : valued.lookup v = some item) (hx : Canonical defs item x) :
      Canonical defs (.choice bare valued fielded known) (.object [(v, x)])
  | fielded {bare : List String} {valued : List (String × Schema)}
      {fielded : List (String × List (String × Schema))} {known : List String} {v : String}
      {fs : List (String × Schema)} {ms : List (String × Json)} (hbare : bare.contains v = false)
      (hvalued : valued.lookup v = none) (hv : fielded.lookup v = some fs)
      (hms : CanonicalMembers defs fs ms) :
      Canonical defs (.choice bare valued fielded known) (.object [(v, .object ms)])
  | named {type : String} {x : Json} (h : Canonical defs (defs type) x) :
      Canonical defs (.named type) x

/-- All values are canonical. -/
inductive CanonicalAll (defs : Definitions) : Schema → List Json → Prop where
  | nil {item : Schema} : CanonicalAll defs item []
  | cons {item : Schema} {x : Json} {xs : List Json} (hx : Canonical defs item x)
      (hxs : CanonicalAll defs item xs) : CanonicalAll defs item (x :: xs)

/-- The members are the fields, in their order, with canonical values. -/
inductive CanonicalMembers (defs : Definitions) :
    List (String × Schema) → List (String × Json) → Prop where
  | nil : CanonicalMembers defs [] []
  | cons {name : String} {s : Schema} {x : Json} {fs : List (String × Schema)}
      {ms : List (String × Json)} (hx : Canonical defs s x) (hms : CanonicalMembers defs fs ms) :
      CanonicalMembers defs ((name, s) :: fs) ((name, x) :: ms)

end

variable {defs : Definitions} {s : Schema} {fs : List (String × Schema)} {name : String}

/-! ## The form of canonical values -/

theorem canonicalAll_iff {xs : List Json} :
    CanonicalAll defs s xs ↔ ∀ x ∈ xs, Canonical defs s x := by
  induction xs with
  | nil => exact ⟨fun _ => by simp, fun _ => .nil⟩
  | cons x xs ih =>
    rw [List.forall_mem_cons, ← ih]
    constructor
    · rintro (_ | ⟨hx, hxs⟩)
      exact ⟨hx, hxs⟩
    · rintro ⟨hx, hxs⟩
      exact .cons hx hxs

theorem canonicalMembers_nil {ms : List (String × Json)} :
    CanonicalMembers defs [] ms ↔ ms = [] := by
  constructor
  · rintro ⟨⟩
    rfl
  · rintro rfl
    exact .nil

theorem canonicalMembers_cons {ms : List (String × Json)} :
    CanonicalMembers defs ((name, s) :: fs) ms ↔
      ∃ x rest, ms = (name, x) :: rest ∧ Canonical defs s x ∧ CanonicalMembers defs fs rest := by
  constructor
  · rintro (_ | ⟨hx, hms⟩)
    exact ⟨_, _, rfl, hx, hms⟩
  · rintro ⟨x, rest, rfl, hx, hms⟩
    exact .cons hx hms

theorem canonical_text {w : Json} : Canonical defs .text w ↔ ∃ t, w = .string t := by
  constructor
  · rintro ⟨⟩
    exact ⟨_, rfl⟩
  · rintro ⟨t, rfl⟩
    exact .text t

theorem canonical_whole {limit : Nat} {w : Json} :
    Canonical defs (.whole name limit) w ↔ ∃ n : Nat, w = .nat n ∧ n ≤ limit := by
  constructor
  · rintro ⟨⟩
    rename_i n hn hlimit
    obtain ⟨n, rfl⟩ := Int.eq_ofNat_of_zero_le hn
    exact ⟨n, rfl, Int.ofNat_le.mp hlimit⟩
  · rintro ⟨n, rfl, hn⟩
    exact .whole (Int.natCast_nonneg n) (Int.ofNat_le.mpr hn)

theorem canonical_list {w : Json} :
    Canonical defs (.list s) w ↔ ∃ xs, w = .array xs ∧ CanonicalAll defs s xs := by
  constructor
  · rintro ⟨⟩
    exact ⟨_, rfl, ‹_›⟩
  · rintro ⟨xs, rfl, h⟩
    exact .list h

theorem canonical_option {w : Json} :
    Canonical defs (.option s) w ↔ w = .null ∨ Canonical defs s w := by
  constructor
  · rintro (_ | _)
    · exact .inl rfl
    · exact .inr ‹_›
  · rintro (rfl | h)
    · exact .absent
    · exact .present h

theorem canonical_fields {w : Json} :
    Canonical defs (.fields name fs) w ↔ ∃ ms, w = .object ms ∧ CanonicalMembers defs fs ms := by
  constructor
  · rintro ⟨⟩
    exact ⟨_, rfl, ‹_›⟩
  · rintro ⟨ms, rfl, h⟩
    exact .fields h

theorem canonical_named {type : String} {w : Json} :
    Canonical defs (.named type) w ↔ Canonical defs (defs type) w := by
  constructor
  · rintro ⟨⟩
    assumption
  · exact .named

theorem canonical_choice {bare known : List String} {valued : List (String × Schema)}
    {fielded : List (String × List (String × Schema))} {w : Json} :
    Canonical defs (.choice bare valued fielded known) w ↔
      (∃ v, w = .string v ∧ bare.contains v = true) ∨
      (∃ v item x, w = .object [(v, x)] ∧ bare.contains v = false ∧ valued.lookup v = some item ∧
        Canonical defs item x) ∨
      ∃ v fs ms, w = .object [(v, .object ms)] ∧ bare.contains v = false ∧
        valued.lookup v = none ∧ fielded.lookup v = some fs ∧ CanonicalMembers defs fs ms := by
  constructor
  · rintro ⟨⟩
    case bare hv => exact .inl ⟨_, rfl, hv⟩
    case valued hx hbare hv => exact .inr (.inl ⟨_, _, _, rfl, hbare, hv, hx⟩)
    case fielded hms hbare hvalued hv =>
      exact .inr (.inr ⟨_, _, _, rfl, hbare, hvalued, hv, hms⟩)
  · rintro (⟨v, rfl, hv⟩ | ⟨v, item, x, rfl, hbare, hv, hx⟩ |
      ⟨v, fs, ms, rfl, hbare, hvalued, hv, hms⟩)
    · exact .bare hv
    · exact .valued hbare hv hx
    · exact .fielded hbare hvalued hv hms

/-! ## Canonical members -/

theorem CanonicalMembers.map_fst_eq :
    ∀ {fs : List (String × Schema)} {ms : List (String × Json)}, CanonicalMembers defs fs ms →
      ms.map Prod.fst = fs.map Prod.fst
  | _, _, .nil => rfl
  | _, _, .cons _ hms => congrArg _ hms.map_fst_eq

theorem CanonicalMembers.append {gs : List (String × Schema)} {ns : List (String × Json)}
    (h' : CanonicalMembers defs gs ns) :
    ∀ {fs : List (String × Schema)} {ms : List (String × Json)}, CanonicalMembers defs fs ms →
      CanonicalMembers defs (fs ++ gs) (ms ++ ns)
  | _, _, .nil => h'
  | _, _, .cons hx hms => .cons hx (CanonicalMembers.append h' hms)

end CodeRisk.Record.Schema
