import CodeRisk.Proofs.Lookup
import CodeRisk.Proofs.Record.Canonical

/-!
# Checking records

Checking a value against a schema gives a canonical value, and that is the value that was given, put
in order (`Json.Tidied`): `Schema.check_sound`. A canonical value is checked to itself:
`Schema.check_canonical`.

Both need that the schema says clearly what it means (`Schema.isExact`): no two fields of a record
have the same name, no option is an option again, and there are no numbers in floating point, which
would take whole numbers as well.
-/
namespace CodeRisk

/-! ## Values put in order -/

mutual

/-- The second value is the first one, put in order: of the members of an object some are taken by
their names, where of members with the same name the last one counts, and `null` stands for some
that are not there. If `shorthands` holds, an object may be given as the list of its values, and a
name as an object with nothing in it but that name. -/
inductive Json.Tidied (shorthands : Bool) : Json → Json → Prop where
  | null : Json.Tidied shorthands .null .null
  | bool (b : Bool) : Json.Tidied shorthands (.bool b) (.bool b)
  | integer (n : Int) : Json.Tidied shorthands (.integer n) (.integer n)
  | string (s : String) : Json.Tidied shorthands (.string s) (.string s)
  | array {xs ys : List Json} (h : Json.TidiedAll shorthands xs ys) :
      Json.Tidied shorthands (.array xs) (.array ys)
  | object {ms ws : List (String × Json)} (h : Json.TidiedMembers shorthands ms.reverse ws) :
      Json.Tidied shorthands (.object ms) (.object ws)
  | values {xs : List Json} {ws : List (String × Json)} (hs : shorthands = true)
      (h : Json.TidiedAll shorthands xs (ws.map Prod.snd)) :
      Json.Tidied shorthands (.array xs) (.object ws)
  | name {s : String} (hs : shorthands = true) :
      Json.Tidied shorthands (.object [(s, .null)]) (.string s)

/-- The values are put in order, one by one. -/
inductive Json.TidiedAll (shorthands : Bool) : List Json → List Json → Prop where
  | nil : Json.TidiedAll shorthands [] []
  | cons {x y : Json} {xs ys : List Json} (hx : Json.Tidied shorthands x y)
      (hxs : Json.TidiedAll shorthands xs ys) : Json.TidiedAll shorthands (x :: xs) (y :: ys)

/-- The second members are found among the first ones or stand for members that are not there. -/
inductive Json.TidiedMembers (shorthands : Bool) :
    List (String × Json) → List (String × Json) → Prop where
  | nil {ms : List (String × Json)} : Json.TidiedMembers shorthands ms []
  | found {ms ws : List (String × Json)} {name : String} {x w : Json}
      (hname : ms.lookup name = some x) (hx : Json.Tidied shorthands x w)
      (hws : Json.TidiedMembers shorthands ms ws) :
      Json.TidiedMembers shorthands ms ((name, w) :: ws)
  | absent {ms ws : List (String × Json)} {name : String} (hname : ms.lookup name = none)
      (hws : Json.TidiedMembers shorthands ms ws) :
      Json.TidiedMembers shorthands ms ((name, .null) :: ws)

end

namespace Record
namespace Schema

/-! ## Exact schemas -/

/-- Whether different fields have different names. -/
def areDistinct (fs : List (String × Schema)) : Bool :=
  decide (fs.map Prod.fst).Nodup

mutual

/-- Whether a value that fits can be read in one way only. -/
def isExact : Schema → Bool
  | text | bool | whole .. | read .. | named _ => true
  | real => false
  | list item => item.isExact
  | option item => !item.isOption && item.isExact
  | fields _ fs => areDistinct fs && areExact fs
  | choice _ valued fielded _ => areExact valued && variantsAreExact fielded

/-- Whether all values are read in one way only. -/
def areExact : List (String × Schema) → Bool
  | [] => true
  | (_, s) :: fs => s.isExact && areExact fs

/-- Whether the fields of all variants are read in one way only. -/
def variantsAreExact : List (String × List (String × Schema)) → Bool
  | [] => true
  | (_, fs) :: vs => areDistinct fs && areExact fs && variantsAreExact vs

end

/-- Whether the schema is one of a record or a choice. -/
def isComposite : Schema → Bool
  | fields .. | choice .. => true
  | _ => false

end Schema

/-- The types that are defined elsewhere are records or choices with exact schemas. -/
def Definitions.AreExact (defs : Definitions) : Prop :=
  ∀ type, (defs type).isExact = true ∧ (defs type).isComposite = true

theorem Definitions.AreExact.isOption_eq {defs : Definitions} (h : defs.AreExact) (type : String) :
    (defs type).isOption = false := by
  have hcomposite := (h type).2
  cases hs : defs type <;> simp_all [Schema.isComposite, Schema.isOption]

namespace Schema
variable {defs : Definitions} {s : Schema} {fs : List (String × Schema)} {name : String}

theorem areExact_iff : areExact fs = true ↔ ∀ f ∈ fs, f.2.isExact = true := by
  induction fs with
  | nil => simp [areExact]
  | cons f fs ih => simp only [areExact, Bool.and_eq_true, ih, List.forall_mem_cons]

theorem isExact_of_lookup (h : areExact fs = true) (hname : fs.lookup name = some s) :
    s.isExact = true :=
  areExact_iff.mp h _ (mem_of_lookup hname)

theorem variantsAreExact_iff {vs : List (String × List (String × Schema))} :
    variantsAreExact vs = true ↔ ∀ v ∈ vs, areDistinct v.2 = true ∧ areExact v.2 = true := by
  induction vs with
  | nil => simp [variantsAreExact]
  | cons v vs ih => simp only [variantsAreExact, Bool.and_eq_true, ih, List.forall_mem_cons]

theorem variant_isExact {vs : List (String × List (String × Schema))}
    (h : variantsAreExact vs = true) (hname : vs.lookup name = some fs) :
    areDistinct fs = true ∧ areExact fs = true :=
  variantsAreExact_iff.mp h _ (mem_of_lookup hname)

theorem content_named (hdefs : defs.AreExact) (type : String) :
    (named type).content defs = defs type := by
  have hoption := hdefs.isOption_eq type
  cases h : defs type <;> simp_all [content, isOption]

/-- What a value that is there must look like is said by an exact schema that is no option, and what
is canonical for it is canonical. -/
theorem content_spec (hdefs : defs.AreExact) (hs : s.isExact = true) :
    (s.content defs).isExact = true ∧ (s.content defs).isOption = false ∧
      ∀ w, Canonical defs (s.content defs) w → Canonical defs s w := by
  cases s with
  | option item =>
    simp only [isExact, Bool.and_eq_true, Bool.not_eq_true'] at hs
    cases item with
    | named type => exact ⟨(hdefs type).1, hdefs.isOption_eq type, fun _ h => .present (.named h)⟩
    | _ => exact ⟨hs.2, hs.1, fun _ h => .present h⟩
  | named type =>
    rw [content_named hdefs]
    exact ⟨(hdefs type).1, hdefs.isOption_eq type, fun _ h => .named h⟩
  | _ => exact ⟨hs, rfl, fun _ h => h⟩

/-! ## What is given back -/

theorem bind_eq_ok {α β : Type} {x : Except Misfit α} {f : α → Except Misfit β} {b : β} :
    x >>= f = .ok b ↔ ∃ a, x = .ok a ∧ f a = .ok b := by
  cases x with
  | error e =>
    constructor
    · intro h
      cases h
    · rintro ⟨_, h, -⟩
      cases h
  | ok a =>
    constructor
    · intro h
      exact ⟨a, rfl, h⟩
    · rintro ⟨_, h, hf⟩
      exact Except.ok.inj h ▸ hf

/-- A value without parts is given back if it fits. -/
theorem checkScalar_sound {j w : Json} (hs : s.isExact = true) (hoption : s.isOption = false)
    (h : checkScalar s j = .ok w) : Canonical defs s w ∧ Json.Tidied true j w := by
  cases s with
  | text =>
    cases j with
    | string t => exact Except.ok.inj h ▸ ⟨.text t, .string t⟩
    | _ => cases h
  | bool =>
    cases j with
    | bool b => exact Except.ok.inj h ▸ ⟨.bool b, .bool b⟩
    | _ => cases h
  | whole name limit =>
    cases j with
    | integer n =>
      simp only [checkScalar, checkWhole] at h
      split at h
      case isTrue hn =>
        simp only [Bool.and_eq_true, decide_eq_true_eq] at hn
        exact Except.ok.inj h ▸ ⟨.whole hn.1 hn.2, .integer n⟩
      case isFalse => cases h
    | _ => cases h
  | real => cases hs
  | read expected accept =>
    cases j with
    | string t =>
      simp only [checkScalar] at h
      split at h
      case h_1 hread => exact Except.ok.inj h ▸ ⟨.read hread, .string t⟩
      case h_2 => cases h
    | _ => cases h
  | option item => cases hoption
  | choice bare valued fielded known =>
    cases j with
    | string t =>
      simp only [checkScalar] at h
      split at h
      case isTrue hv => exact Except.ok.inj h ▸ ⟨.bare hv, .string t⟩
      case isFalse => split at h <;> [skip; split at h] <;> cases h
    | _ => cases h
  | list | fields | named => cases j <;> cases h

/-- What was taken of the members seen so far, both with the last one first: for each field the
canonical form of the last member with its name, if there is one. -/
def Taken (defs : Definitions) (fs : List (String × Schema))
    (seen values : List (String × Json)) : Prop :=
  ∀ name s, fs.lookup name = some s →
    (seen.lookup name = none ∧ values.lookup name = none) ∨
      ∃ x w, seen.lookup name = some x ∧ values.lookup name = some w ∧
        Canonical defs s w ∧ Json.Tidied true x w

theorem taken_nil : Taken defs fs [] [] := fun _ _ _ => .inl ⟨rfl, rfl⟩

theorem Taken.cons {seen values : List (String × Json)} {x w : Json}
    (h : Taken defs fs seen values) (hname : fs.lookup name = some s) (hw : Canonical defs s w)
    (hx : Json.Tidied true x w) : Taken defs fs ((name, x) :: seen) ((name, w) :: values) := by
  intro n t hn
  rw [List.lookup_cons, List.lookup_cons]
  by_cases heq : n = name
  · subst heq
    obtain rfl := Option.some.inj (hname.symm.trans hn)
    exact .inr ⟨x, w, by simp, by simp, hw, hx⟩
  · rw [beq_eq_false_iff_ne.mpr heq]
    exact h n t hn

/-- A member that is no field is passed over. -/
theorem Taken.skip {seen values : List (String × Json)} {x : Json} (h : Taken defs fs seen values)
    (hname : fs.lookup name = none) : Taken defs fs ((name, x) :: seen) values := by
  intro n t hn
  have hne : n ≠ name := by
    rintro rfl
    rw [hname] at hn
    cases hn
  rw [List.lookup_cons, beq_eq_false_iff_ne.mpr hne]
  exact h n t hn

/-- The fields are completed with canonical values in their order. -/
theorem complete_sound {seen values ws : List (String × Json)} {rest : List (String × Schema)}
    (ht : Taken defs fs seen values) (hrest : ∀ f ∈ rest, fs.lookup f.1 = some f.2)
    (h : complete values rest = .ok ws) :
    CanonicalMembers defs rest ws ∧ Json.TidiedMembers true seen ws := by
  induction rest generalizing ws with
  | nil => exact Except.ok.inj h ▸ ⟨.nil, .nil⟩
  | cons f rest ih =>
    obtain ⟨n, t⟩ := f
    obtain ⟨hn, hrest⟩ := List.forall_mem_cons.mp hrest
    simp only [complete] at h
    rcases ht n t hn with ⟨hseen, hvalues⟩ | ⟨x, w, hseen, hvalues, hw, hx⟩
    · rw [hvalues] at h
      dsimp only at h
      split at h
      case isTrue hoption =>
        obtain ⟨ws', hws, h⟩ := bind_eq_ok.mp h
        obtain ⟨hcanonical, htidied⟩ := ih hrest hws
        have habsent : Canonical defs t .null := by
          cases t with
          | option item => exact .absent
          | _ => cases hoption
        exact Except.ok.inj h ▸ ⟨.cons habsent hcanonical, .absent hseen htidied⟩
      case isFalse => cases h
    · rw [hvalues] at h
      obtain ⟨ws', hws, h⟩ := bind_eq_ok.mp h
      obtain ⟨hcanonical, htidied⟩ := ih hrest hws
      exact Except.ok.inj h ▸ ⟨.cons hw hcanonical, .found hseen hx htidied⟩

theorem lookup_of_mem_distinct (h : areDistinct fs = true) {f : String × Schema} (hf : f ∈ fs) :
    fs.lookup f.1 = some f.2 :=
  (lookup_eq_some_iff_mem (of_decide_eq_true h)).mpr hf

/-- Members that are complete are completed to themselves. -/
theorem complete_eq {values : List (String × Json)} :
    ∀ {fs : List (String × Schema)} {ms : List (String × Json)}, CanonicalMembers defs fs ms →
      (∀ m ∈ ms, values.lookup m.1 = some m.2) → complete values fs = .ok ms
  | _, _, .nil, _ => rfl
  | _, _, .cons _ hms, hvalues => by
    obtain ⟨hm, hvalues⟩ := List.forall_mem_cons.mp hvalues
    rw [complete, hm]
    show (complete values _ >>= fun rest => pure (_ :: rest)) = _
    rw [complete_eq hms hvalues]
    rfl

/-- The order in which members were taken makes no difference if they are complete. -/
theorem complete_reverse {ms : List (String × Json)} (hdistinct : areDistinct fs = true)
    (h : CanonicalMembers defs fs ms) : complete ms.reverse fs = .ok ms := by
  refine complete_eq h fun m hm => ?_
  have hnodup : (ms.reverse.map Prod.fst).Nodup := by
    rw [List.map_reverse, List.nodup_reverse, h.map_fst_eq]
    exact of_decide_eq_true hdistinct
  exact (lookup_eq_some_iff_mem hnodup).mpr (List.mem_reverse.mpr hm)

/-- What becomes of a variant of a choice that is written as an object. -/
def checkVariant (defs : Definitions) (bare : List String) (valued : List (String × Schema))
    (fielded : List (String × List (String × Schema))) (known : List String) (v : String)
    (body : Json) : Except Misfit Json :=
  if bare.contains v then
    match body with
    | .null => .ok (.string v)
    | _ => .error (.invalidType (found body) "unit")
  else
    match valued.lookup v with
    | some item => do return .object [(v, ← check defs body item)]
    | none =>
      match fielded.lookup v with
      | some fs =>
        match body with
        | .object ms => do return .object [(v, .object (← checkMembers defs ms fs []))]
        | _ => .error (.invalidType (found body) "struct variant")
      | none => .error (.unknownVariant v known)

theorem check_object_of_fields (h : s.content defs = .fields name fs) (ms : List (String × Json)) :
    check defs (.object ms) s = checkMembers defs ms fs [] >>= fun ws => pure (.object ws) := by
  rw [check.eq_def]
  match ms with
  | [] | [(_, _)] | _ :: _ :: _ =>
    simp only [h]

theorem check_object_of_choice {bare known : List String} {valued : List (String × Schema)}
    {fielded : List (String × List (String × Schema))}
    (h : s.content defs = .choice bare valued fielded known) (m : String × Json) :
    check defs (.object [m]) s = checkVariant defs bare valued fielded known m.1 m.2 := by
  rw [check.eq_def]
  simp only [h]
  rfl

theorem check_object_of_scalar (h : (s.content defs).isComposite = false)
    (ms : List (String × Json)) :
    check defs (.object ms) s = checkScalar (s.content defs) (.object ms) := by
  rw [check.eq_def]
  match ms with
  | [] | [(_, _)] | _ :: _ :: _ =>
    cases hkind : s.content defs with
    | fields | choice => rw [hkind] at h; cases h
    | _ => simp only [hkind]

mutual

/-- **What checking gives is canonical, and it is what was given, put in order.** -/
theorem check_sound (hdefs : defs.AreExact) {s : Schema} (hs : s.isExact = true) :
    ∀ {j w : Json}, check defs j s = .ok w → Canonical defs s w ∧ Json.Tidied true j w
  | .null, w, h => by
    have hplain {t : Schema} (ht : t.isExact = true) (hoption : t.isOption = false)
        (h : checkScalar t .null = .ok w) : Canonical defs t w ∧ Json.Tidied true .null w :=
      checkScalar_sound ht hoption h
    cases s with
    | option item => exact Except.ok.inj h ▸ ⟨.absent, .null⟩
    | named type =>
      obtain ⟨hexact, hoption, -⟩ := content_spec hdefs hs
      obtain ⟨hcanonical, htidied⟩ := hplain (hdefs type).1 (hdefs.isOption_eq type) h
      exact ⟨.named hcanonical, htidied⟩
    | _ => exact hplain hs rfl h
  | .bool b, w, h | .integer n, w, h | .float x, w, h | .string t, w, h => by
    obtain ⟨hexact, hoption, hcontent⟩ := content_spec hdefs hs
    obtain ⟨hcanonical, htidied⟩ := checkScalar_sound hexact hoption h
    exact ⟨hcontent _ hcanonical, htidied⟩
  | .array xs, w, h => by
    obtain ⟨hexact, hoption, hcontent⟩ := content_spec hdefs hs
    simp only [check] at h
    split at h
    case h_1 item hitem =>
      rw [hitem] at hexact hcontent
      have hitem : item.isExact = true := hexact
      obtain ⟨ys, hys, h⟩ := bind_eq_ok.mp h
      obtain ⟨hcanonical, htidied⟩ := checkItems_sound hdefs hitem hys
      exact Except.ok.inj h ▸ ⟨hcontent _ (.list hcanonical), .array htidied⟩
    case h_2 name fs hfields =>
      rw [hfields] at hexact hcontent
      simp only [isExact, Bool.and_eq_true] at hexact
      obtain ⟨ws, hws, h⟩ := bind_eq_ok.mp h
      obtain ⟨hcanonical, more, rfl, htidied⟩ :=
        checkPositions_sound hdefs hexact.1 hexact.2 .nil rfl hws
      exact Except.ok.inj h ▸ ⟨hcontent _ (.fields hcanonical), .values rfl htidied⟩
    case h_3 =>
      obtain ⟨hcanonical, htidied⟩ := checkScalar_sound hexact hoption h
      exact ⟨hcontent _ hcanonical, htidied⟩
  | .object ms, w, h => by
    obtain ⟨hexact, hoption, hcontent⟩ := content_spec hdefs hs
    cases hkind : s.content defs with
    | fields name fs =>
      rw [hkind] at hexact hcontent
      simp only [isExact, Bool.and_eq_true] at hexact
      rw [check_object_of_fields hkind] at h
      obtain ⟨ws, hws, h⟩ := bind_eq_ok.mp h
      obtain ⟨hcanonical, htidied⟩ := checkMembers_sound hdefs hexact.1 hexact.2 taken_nil hws
      rw [List.append_nil] at htidied
      exact Except.ok.inj h ▸ ⟨hcontent _ (.fields hcanonical), .object htidied⟩
    | choice bare valued fielded known =>
      rw [hkind] at hexact hcontent
      simp only [isExact, Bool.and_eq_true] at hexact
      match ms, h with
      | [m], h =>
        rw [check_object_of_choice hkind m] at h
        obtain ⟨hcanonical, htidied⟩ := checkVariant_sound hdefs hexact.1 hexact.2 h
        exact ⟨hcontent _ hcanonical, htidied⟩
      | [], h | _ :: _ :: _, h =>
        simp only [check, hkind] at h
        cases h
    | _ =>
      rw [check_object_of_scalar (by rw [hkind]; rfl)] at h
      obtain ⟨hcanonical, htidied⟩ := checkScalar_sound hexact hoption h
      exact ⟨hcontent _ hcanonical, htidied⟩
termination_by structural j => j

theorem checkVariant_sound (hdefs : defs.AreExact) {bare known : List String}
    {valued : List (String × Schema)} {fielded : List (String × List (String × Schema))}
    (hvalued : areExact valued = true) (hfielded : variantsAreExact fielded = true) :
    ∀ {m : String × Json} {w : Json},
      checkVariant defs bare valued fielded known m.1 m.2 = .ok w →
        Canonical defs (.choice bare valued fielded known) w ∧ Json.Tidied true (.object [m]) w
  | (v, body), w, h => by
    by_cases hbare : bare.contains v = true
    · -- the name of a variant without a value, written as an object
      unfold checkVariant at h
      rw [if_pos hbare] at h
      cases body with
      | null => exact Except.ok.inj h ▸ ⟨.bare hbare, .name rfl⟩
      | _ => cases h
    · unfold checkVariant at h
      rw [if_neg hbare] at h
      rw [Bool.not_eq_true] at hbare
      split at h
      case h_1 item hitem =>
        obtain ⟨x, hx, h⟩ := bind_eq_ok.mp h
        obtain ⟨hcanonical, htidied⟩ := check_sound hdefs (isExact_of_lookup hvalued hitem) hx
        exact Except.ok.inj h ▸ ⟨.valued hbare hitem hcanonical,
          .object (.found (by simp) htidied .nil)⟩
      case h_2 hitem =>
        split at h
        case h_1 fs hfs =>
          obtain ⟨hdistinct, hexact⟩ := variant_isExact hfielded hfs
          match body, h with
          | .object ms, h =>
            obtain ⟨ws, hws, h⟩ := bind_eq_ok.mp h
            obtain ⟨hcanonical, htidied⟩ := checkMembers_sound hdefs hdistinct hexact taken_nil hws
            rw [List.append_nil] at htidied
            exact Except.ok.inj h ▸ ⟨.fielded hbare hitem hfs hcanonical,
              .object (.found (by simp) (.object htidied) .nil)⟩
          | .null, h | .bool _, h | .integer _, h | .float _, h | .string _, h | .array _, h =>
            cases h
        case h_2 => cases h
termination_by structural m => m

theorem checkItems_sound (hdefs : defs.AreExact) {s : Schema} (hs : s.isExact = true) :
    ∀ {xs ys : List Json}, checkItems defs xs s = .ok ys →
      CanonicalAll defs s ys ∧ Json.TidiedAll true xs ys
  | [], ys, h => Except.ok.inj h ▸ ⟨.nil, .nil⟩
  | x :: xs, ys, h => by
    obtain ⟨y, hy, h⟩ := bind_eq_ok.mp h
    obtain ⟨ys', hys, h⟩ := bind_eq_ok.mp h
    obtain ⟨hycanonical, hytidied⟩ := check_sound hdefs hs hy
    obtain ⟨hcanonical, htidied⟩ := checkItems_sound hdefs hs hys
    exact Except.ok.inj h ▸ ⟨.cons hycanonical hcanonical, .cons hytidied htidied⟩
termination_by structural xs => xs

theorem checkMembers_sound (hdefs : defs.AreExact) {fs : List (String × Schema)}
    (hdistinct : areDistinct fs = true) (hfs : areExact fs = true) :
    ∀ {ms seen values ws : List (String × Json)}, Taken defs fs seen values →
      checkMembers defs ms fs values = .ok ws →
      CanonicalMembers defs fs ws ∧ Json.TidiedMembers true (ms.reverse ++ seen) ws
  | [], seen, values, ws, ht, h =>
    complete_sound ht (fun f hf => lookup_of_mem_distinct hdistinct hf) h
  | (name, x) :: ms, seen, values, ws, ht, h => by
    simp only [checkMembers] at h
    rw [List.reverse_cons, List.append_assoc]
    split at h
    case h_1 s hname =>
      obtain ⟨w, hw, h⟩ := bind_eq_ok.mp h
      obtain ⟨hcanonical, htidied⟩ := check_sound hdefs (isExact_of_lookup hfs hname) hw
      exact checkMembers_sound hdefs hdistinct hfs (ht.cons hname hcanonical htidied) h
    case h_2 hname =>
      exact checkMembers_sound hdefs hdistinct hfs (ht.skip hname) h
termination_by structural ms => ms

/-- The values of the first fields are known already. -/
theorem checkPositions_sound (hdefs : defs.AreExact) {all : List (String × Schema)}
    (hdistinct : areDistinct all = true) (hall : areExact all = true) :
    ∀ {xs : List Json} {n : Nat} {name : String} {front rest : List (String × Schema)}
      {done ws : List (String × Json)}, CanonicalMembers defs front done → front ++ rest = all →
      checkPositions defs xs n name all rest done.reverse = .ok ws →
      CanonicalMembers defs all ws ∧
        ∃ more, ws = done ++ more ∧ Json.TidiedAll true xs (more.map Prod.snd)
  | [], n, name, front, rest, done, ws, hdone, hfront, h => by
    simp only [checkPositions] at h
    split at h
    case isTrue hrest =>
      obtain rfl := List.isEmpty_iff.mp hrest
      rw [List.append_nil] at hfront
      subst hfront
      rw [complete_reverse hdistinct hdone] at h
      obtain rfl := Except.ok.inj h
      exact ⟨hdone, [], (List.append_nil _).symm, .nil⟩
    case isFalse => cases h
  | x :: xs, n, name, front, [], done, ws, hdone, hfront, h => by cases h
  | x :: xs, n, name, front, (field, s) :: rest, done, ws, hdone, hfront, h => by
    obtain ⟨w, hw, h⟩ := bind_eq_ok.mp h
    have hmem : (field, s) ∈ all := by
      rw [← hfront]
      exact List.mem_append_right _ List.mem_cons_self
    have hs : s.isExact = true := isExact_of_lookup hall (lookup_of_mem_distinct hdistinct hmem)
    obtain ⟨hcanonical, htidied⟩ := check_sound hdefs hs hw
    rw [← List.reverse_concat] at h
    obtain ⟨hall', more, rfl, hmore⟩ := checkPositions_sound hdefs hdistinct hall
      (.append (.cons hcanonical .nil) hdone) (by rw [← hfront, List.append_assoc]; rfl) h
    exact ⟨hall', (field, w) :: more, by rw [List.append_assoc]; rfl, .cons htidied hmore⟩
termination_by structural xs => xs

end

/-! ## Canonical values are given back -/

/-- A value that is there is checked by what it must look like. -/
theorem check_congr {t : Schema} {j : Json} (hj : j ≠ .null)
    (h : s.content defs = t.content defs) : check defs j s = check defs j t := by
  cases j with
  | null => exact absurd rfl hj
  | object ms =>
    rw [check.eq_def, check.eq_def defs _ t]
    match ms with
    | [] | [(_, _)] | _ :: _ :: _ => simp only [h]
  | _ => simp only [check, h]

theorem content_option {item : Schema} (hdefs : defs.AreExact) (h : item.isOption = false) :
    (option item).content defs = item.content defs := by
  cases item with
  | option => cases h
  | named type => exact (content_named hdefs type).symm
  | _ => rfl

theorem content_definition (hdefs : defs.AreExact) (type : String) :
    (defs type).content defs = defs type := by
  have hcomposite := (hdefs type).2
  cases hs : defs type <;> simp_all [content, isComposite]

theorem resolve_definition (hdefs : defs.AreExact) (type : String) :
    (defs type).resolve defs = defs type := by
  have hcomposite := (hdefs type).2
  cases hs : defs type <;> simp_all [resolve, isComposite]

mutual

/-- **A canonical value is checked to itself.** -/
theorem check_canonical (hdefs : defs.AreExact) :
    ∀ {s : Schema} {w : Json}, Canonical defs s w → s.isExact = true → check defs w s = .ok w
  | _, _, .text _, _ => rfl
  | _, _, .bool _, _ => rfl
  | _, _, .whole hn hlimit, _ => by
    simp [check, content, checkScalar, checkWhole, hn, hlimit]
  | _, _, .read h, _ => by
    simp [check, content, checkScalar, h]
  | _, _, .list h, hs => by
    simp only [check, content, checkItems_canonical hdefs h hs]
    rfl
  | _, _, .absent, _ => rfl
  | .option item, x, .present h, hs => by
    simp only [isExact, Bool.and_eq_true, Bool.not_eq_true'] at hs
    by_cases hx : x = .null
    · subst hx
      rfl
    · rw [check_congr hx (content_option hdefs hs.1)]
      exact check_canonical hdefs h hs.2
  | .fields name fs, .object ms, .fields h, hs => by
    simp only [isExact, Bool.and_eq_true] at hs
    rw [check_object_of_fields rfl,
      checkMembers_canonical hdefs h hs.2 (fun f hf => lookup_of_mem_distinct hs.1 hf),
      List.append_nil, complete_reverse hs.1 h]
    rfl
  | _, _, .bare hv, _ => if_pos hv
  | _, _, .valued hbare hv hx, hs => by
    simp only [isExact, Bool.and_eq_true] at hs
    rw [check_object_of_choice rfl]
    simp only [checkVariant, hbare, hv, check_canonical hdefs hx (isExact_of_lookup hs.1 hv)]
    rfl
  | _, _, .fielded hbare hvalued hv hms, hs => by
    simp only [isExact, Bool.and_eq_true] at hs
    obtain ⟨hdistinct, hexact⟩ := variant_isExact hs.2 hv
    rw [check_object_of_choice rfl]
    simp only [checkVariant, hbare, hvalued, hv,
      checkMembers_canonical hdefs hms hexact (fun f hf => lookup_of_mem_distinct hdistinct hf),
      List.append_nil, complete_reverse hdistinct hms]
    rfl
  | .named type, x, .named h, _ => by
    have hdefinition := check_canonical hdefs h (hdefs type).1
    by_cases hx : x = .null
    · subst hx
      simp only [check, resolve_definition hdefs] at hdefinition
      exact hdefinition
    · have hcontent : (named type).content defs = (defs type).content defs :=
        (content_named hdefs type).trans (content_definition hdefs type).symm
      rw [check_congr hx hcontent]
      exact hdefinition

theorem checkItems_canonical (hdefs : defs.AreExact) :
    ∀ {s : Schema} {ws : List Json}, CanonicalAll defs s ws → s.isExact = true →
      checkItems defs ws s = .ok ws
  | _, _, .nil, _ => rfl
  | _, _, .cons hx hxs, hs => by
    simp only [checkItems, check_canonical hdefs hx hs, checkItems_canonical hdefs hxs hs]
    rfl

/-- Canonical members are taken as they are. -/
theorem checkMembers_canonical (hdefs : defs.AreExact) {all : List (String × Schema)}
    {values : List (String × Json)} :
    ∀ {fs : List (String × Schema)} {ms : List (String × Json)}, CanonicalMembers defs fs ms →
      areExact fs = true → (∀ f ∈ fs, all.lookup f.1 = some f.2) →
      checkMembers defs ms all values = complete (ms.reverse ++ values) all
  | _, _, .nil, _, _ => rfl
  | (name, s) :: fs, (_, x) :: ms, .cons hx hms, hfs, hall => by
    simp only [areExact, Bool.and_eq_true] at hfs
    obtain ⟨hname, hall⟩ := List.forall_mem_cons.mp hall
    rw [checkMembers, hname]
    show (check defs x s >>= fun w => checkMembers defs ms all ((name, w) :: values)) = _
    rw [check_canonical hdefs hx hfs.1, List.reverse_cons, List.append_assoc]
    exact checkMembers_canonical hdefs hms hfs.2 hall

end

end Schema
end Record
end CodeRisk
