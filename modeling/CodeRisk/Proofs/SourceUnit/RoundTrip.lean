import CodeRisk.Proofs.Record.Check
import CodeRisk.Proofs.SourceUnit.Canonical

/-!
# Reading back the record of a unit

A record says all about a unit: from the record of each unit that unit is read back
(`SourceUnit.ofJson?_toJson`). Reading accepts other values than records, but what is read from one
is the unit of the same value put in order (`Json.Tidied`). The main statement is
`SourceUnit.read_toJson_canonical`.
-/
namespace CodeRisk
open Record Schema

/-! ## Reading what was written -/

theorem Stmt.exists_toJson_eq (s : Stmt) : ∃ m, s.toJson = .object [m] := by
  cases s <;> exact ⟨_, rfl⟩

theorem Json.asStrings?_strings (xs : List String) : (Json.strings xs).asStrings? = some xs := by
  rw [strings, asStrings?]
  induction xs with
  | nil => rfl
  | cons x xs ih => simp [asString?, ih]

theorem Json.asOption?_optional {α : Type} {read : Json → Option α} {toJson : α → Json}
    (h : ∀ x, read (toJson x) = some x) (hnull : read .null = none) (x : Option α) :
    (Json.optional (x.map toJson)).asOption? read = some x := by
  cases x with
  | none => rfl
  | some x =>
    have hx := h x
    rw [Option.map_some, optional, Option.getD_some]
    cases hj : toJson x with
    | null =>
      rw [hj, hnull] at hx
      cases hx
    | _ =>
      rw [hj] at hx
      rw [asOption?, hx, Option.map_some]
      exact Json.noConfusion

theorem Json.asList?_map {α : Type} {read : Json → Option α} {toJson : α → Json}
    (h : ∀ x, read (toJson x) = some x) (xs : List α) :
    (Json.array (xs.map toJson)).asList? read = some xs := by
  rw [asList?]
  induction xs with
  | nil => rfl
  | cons x xs ih => simp [h, ih]

mutual

theorem Stmt.ofJson?_toJson : ∀ s : Stmt, Stmt.ofJson? s.toJson = some s
  | .ifElse c a none => by
    simp only [Stmt.toJson, Stmt.optionToJson, Stmt.ofJson?, c.ofJson?_toJson, a.ofJson?_toJson]
    rfl
  | .ifElse c a (some b) => by
    -- the record of the other branch is not `null`
    obtain ⟨m, hm⟩ := b.exists_toJson_eq
    have hb := b.ofJson?_toJson
    rw [hm] at hb
    simp only [Stmt.toJson, Stmt.optionToJson, hm, Stmt.ofJson?, c.ofJson?_toJson,
      a.ofJson?_toJson, hb]
    rfl
  | .whileLoop c b => by
    simp only [Stmt.toJson, Stmt.ofJson?, c.ofJson?_toJson, b.ofJson?_toJson]
    rfl
  | .doWhile b c => by
    simp only [Stmt.toJson, Stmt.ofJson?, c.ofJson?_toJson, b.ofJson?_toJson]
    rfl
  | .forLoop h b => by
    simp only [Stmt.toJson, Stmt.ofJson?, Expr.listOfJson?_listToJson h, b.ofJson?_toJson]
    rfl
  | .forEach e b => by
    simp only [Stmt.toJson, Stmt.ofJson?, e.ofJson?_toJson, b.ofJson?_toJson]
    rfl
  | .switch e cs => by
    simp only [Stmt.toJson, Stmt.ofJson?, e.ofJson?_toJson, SwitchCase.listOfJson?_listToJson cs]
    rfl
  | .tryCatch rs b cs none => by
    simp only [Stmt.toJson, Stmt.finishToJson, Stmt.ofJson?, Expr.listOfJson?_listToJson rs,
      Stmt.listOfJson?_listToJson b, CatchClause.listOfJson?_listToJson cs]
    rfl
  | .tryCatch rs b cs (some f) => by
    simp only [Stmt.toJson, Stmt.finishToJson, Stmt.ofJson?, Expr.listOfJson?_listToJson rs,
      Stmt.listOfJson?_listToJson b, CatchClause.listOfJson?_listToJson cs,
      Stmt.listOfJson?_listToJson f]
    rfl
  | .throw e => by
    simp only [Stmt.toJson, Stmt.ofJson?, e.ofJson?_toJson]
    rfl
  | .block b => by
    simp only [Stmt.toJson, Stmt.ofJson?, Stmt.listOfJson?_listToJson b]
    rfl
  | .synchronized e b => by
    simp only [Stmt.toJson, Stmt.ofJson?, e.ofJson?_toJson, Stmt.listOfJson?_listToJson b]
    rfl
  | .simple es => by
    simp only [Stmt.toJson, Stmt.ofJson?, Expr.listOfJson?_listToJson es]
    rfl

theorem Expr.ofJson?_toJson : ∀ e : Expr, Expr.ofJson? e.toJson = some e
  | .conditional c a b => by
    simp only [Expr.toJson, Expr.ofJson?, c.ofJson?_toJson, a.ofJson?_toJson, b.ofJson?_toJson]
    rfl
  | .lambda s => by
    simp only [Expr.toJson, Expr.ofJson?, s.ofJson?_toJson]
    rfl
  | .switch e cs => by
    simp only [Expr.toJson, Expr.ofJson?, e.ofJson?_toJson, SwitchCase.listOfJson?_listToJson cs]
    rfl
  | .compound es => by
    simp only [Expr.toJson, Expr.ofJson?, Expr.listOfJson?_listToJson es]
    rfl
  | .atom => rfl

theorem Stmt.listOfJson?_listToJson :
    ∀ ss : List Stmt, Stmt.listOfJson? (Stmt.listToJson ss) = some ss
  | [] => rfl
  | s :: ss => by
    simp only [Stmt.listToJson, Stmt.listOfJson?, s.ofJson?_toJson, Stmt.listOfJson?_listToJson ss]
    rfl

theorem Expr.listOfJson?_listToJson :
    ∀ es : List Expr, Expr.listOfJson? (Expr.listToJson es) = some es
  | [] => rfl
  | e :: es => by
    simp only [Expr.listToJson, Expr.listOfJson?, e.ofJson?_toJson, Expr.listOfJson?_listToJson es]
    rfl

theorem SwitchCase.listOfJson?_listToJson :
    ∀ cs : List SwitchCase, SwitchCase.listOfJson? (SwitchCase.listToJson cs) = some cs
  | [] => rfl
  | .mk _ b :: cs => by
    simp only [SwitchCase.listToJson, SwitchCase.listOfJson?, Stmt.listOfJson?_listToJson b,
      SwitchCase.listOfJson?_listToJson cs]
    rfl

theorem CatchClause.listOfJson?_listToJson :
    ∀ cs : List CatchClause, CatchClause.listOfJson? (CatchClause.listToJson cs) = some cs
  | [] => rfl
  | .mk _ b :: cs => by
    simp only [CatchClause.listToJson, CatchClause.listOfJson?, Json.asStrings?_strings,
      Stmt.listOfJson?_listToJson b, CatchClause.listOfJson?_listToJson cs]
    rfl

end

theorem LineSpan.ofJson?_toJson (s : LineSpan) : LineSpan.ofJson? s.toJson = some s := rfl

theorem TypeKind.ofJson?_word (k : TypeKind) : TypeKind.ofJson? (.string k.word) = some k := by
  cases k <;> rfl

theorem TypeDecl.ofJson?_toJson (t : TypeDecl) : TypeDecl.ofJson? t.toJson = some t := by
  simp only [toJson, ofJson?, TypeKind.ofJson?_word, Json.asStrings?_strings,
    LineSpan.ofJson?_toJson]
  rfl

theorem MethodBody.ofJson?_toJson (b : MethodBody) : MethodBody.ofJson? b.toJson = some b := by
  simp only [toJson, Block.toJson, ofJson?, Stmt.listOfJson?_listToJson]
  rfl

theorem MethodDecl.ofJson?_toJson (m : MethodDecl) : MethodDecl.ofJson? m.toJson = some m := by
  simp only [toJson, ofJson?, Json.asStrings?_strings, LineSpan.ofJson?_toJson,
    Json.asOption?_optional MethodBody.ofJson?_toJson rfl]
  rfl

theorem SourceUnit.ofJson?_toJson (u : SourceUnit) : SourceUnit.ofJson? u.toJson = some u := by
  have hstring (t : String) : Json.asString? (.string t) = some t := rfl
  have hnat (n : Nat) : Json.asNat? (.nat n) = some n := rfl
  simp only [toJson, ofJson?, Json.asOption?_optional hstring rfl,
    Json.asList?_map TypeDecl.ofJson?_toJson, Json.asList?_map MethodDecl.ofJson?_toJson,
    Stmt.listOfJson?_listToJson, Json.asStrings?_strings, hnat]
  rfl

/-! ## Reading any record -/

namespace Record
variable {α : Type} {s : Schema} {ofJson? : Json → Option α} {toJson : α → Json} {fits : α → Prop}

theorem definitions_areExact : definitions.AreExact := by
  intro type
  rw [definitions]
  split <;> exact ⟨rfl, rfl⟩

theorem read_toJson (hs : s.isExact = true) (hdescribes : Describes definitions s toJson fits)
    (hread : ∀ x, ofJson? (toJson x) = some x) {x : α} (hx : fits x) :
    read s ofJson? (toJson x) = .ok x := by
  have hcanonical : Canonical definitions s (toJson x) := (hdescribes _).mpr ⟨x, hx, rfl⟩
  rw [read, check_canonical definitions_areExact hcanonical hs]
  simp only [bind, Except.bind, hread x]
  rfl

/-- What is read fits, and its record is the value that was read, put in order. -/
theorem read_sound (hs : s.isExact = true) (hdescribes : Describes definitions s toJson fits)
    (hread : ∀ x, ofJson? (toJson x) = some x) {j : Json} {x : α}
    (h : read s ofJson? j = .ok x) :
    fits x ∧ Canonical definitions s (toJson x) ∧ Json.Tidied true j (toJson x) := by
  obtain ⟨w, hw, h⟩ := bind_eq_ok.mp h
  obtain ⟨hcanonical, htidied⟩ := check_sound definitions_areExact hs hw
  obtain ⟨y, hy, rfl⟩ := (hdescribes w).mp hcanonical
  rw [hread y] at h
  obtain rfl : y = x := Except.ok.inj h
  exact ⟨hy, hcanonical, htidied⟩

end Record

/-- **Units are read back from their records, and what is read from any value is the unit of that
value put in order.** The record of what was read has all fields, the absent ones as `null`, and no
others; what else may differ from the value is that a record was given as the list of its values, or
a bare name as an object. -/
theorem SourceUnit.read_toJson_canonical :
    (∀ u : SourceUnit, u.InRange → SourceUnit.read u.toJson = .ok u) ∧
    Function.Injective SourceUnit.toJson ∧
    ∀ (j : Json) (u : SourceUnit), SourceUnit.read j = .ok u →
      u.InRange ∧ Canonical definitions sourceUnit u.toJson ∧ Json.Tidied true j u.toJson ∧
        SourceUnit.read u.toJson = .ok u := by
  have hback {u : SourceUnit} (hu : u.InRange) : SourceUnit.read u.toJson = .ok u :=
    read_toJson rfl describes_sourceUnit ofJson?_toJson hu
  refine ⟨fun _ hu => hback hu, ?_, ?_⟩
  · intro u v huv
    have hu := ofJson?_toJson u
    rw [huv, ofJson?_toJson v] at hu
    exact (Option.some.inj hu).symm
  · intro j u h
    obtain ⟨hu, hcanonical, htidied⟩ := read_sound rfl describes_sourceUnit ofJson?_toJson h
    exact ⟨hu, hcanonical, htidied, hback hu⟩

/-- A value that is accepted and is no record: the package, the body of the method and the other
branch are not there, a member is unknown, and a range of lines is given as the list of its
values. -/
def looseRecord : Json :=
  .object [("line_count", .integer 9), ("note", .string "draft"), ("types", .array []),
    ("methods", .array [.object [("name", .string "check"), ("parameters", .array [.string "n"]),
      ("throws", .array []), ("annotations", .array []),
      ("span", .array [.integer 2, .integer 3])]]),
    ("other_code", .array [.object [("If", .object [("condition", .string "Atom"),
      ("then_branch", .object [("Throw", .string "Atom")])])]]),
    ("imports", .array [])]

/-- The unit that is read from it. -/
def looseUnit : SourceUnit :=
  ⟨none, [], [⟨"check", ["n"], [], [], none, ⟨2, 3⟩⟩], [.ifElse .atom (.throw .atom) none], [], 9⟩

theorem SourceUnit.read_toJson_canonical_loose :
    SourceUnit.read looseRecord = .ok looseUnit ∧ looseUnit.InRange ∧
      Canonical definitions sourceUnit looseUnit.toJson ∧
      Json.Tidied true looseRecord looseUnit.toJson ∧
      SourceUnit.read looseUnit.toJson = .ok looseUnit :=
  have hread : SourceUnit.read looseRecord = .ok looseUnit := rfl
  ⟨hread, SourceUnit.read_toJson_canonical.2.2 looseRecord looseUnit hread⟩

/-! ## Shorthands -/

theorem Json.TidiedMembers.of_mem {shorthands : Bool} {ms ws : List (String × Json)}
    {name : String} {w : Json} (h : Json.TidiedMembers shorthands ms ws) (hmem : (name, w) ∈ ws)
    (hw : w ≠ .null) : ∃ x, ms.lookup name = some x ∧ Json.Tidied shorthands x w := by
  induction ws with
  | nil => cases hmem
  | cons m ws ih =>
    cases h with
    | found hname hx hws =>
      obtain heq | hmem := List.mem_cons.mp hmem
      · cases heq
        exact ⟨_, hname, hx⟩
      · exact ih hws hmem
    | absent _ hws =>
      obtain heq | hmem := List.mem_cons.mp hmem
      · cases heq
        exact absurd rfl hw
      · exact ih hws hmem

/-- The record of a unit with one class. -/
def classRecord (kind span : Json) : Json :=
  .object [("package", .null),
    ("types", .array [.object [("name", .string "T"), ("kind", kind), ("annotations", .array []),
      ("span", span)]]),
    ("methods", .array []), ("other_code", .array []), ("imports", .array []),
    ("line_count", .integer 9)]

/-- The unit of that record. -/
def classUnit : SourceUnit :=
  ⟨none, [⟨"T", .ofClass, [], ⟨1, 9⟩⟩], [], [], [], 9⟩

/-- Without shorthands the parts of a record are put in order at their places. -/
theorem tidied_classRecord {kind span : Json}
    (h : Json.Tidied false (classRecord kind span) classUnit.toJson) :
    Json.Tidied false kind (.string "class") ∧ Json.Tidied false span (LineSpan.toJson ⟨1, 9⟩) := by
  have hmember {x : Json} {name : String} {ms ws : List (String × Json)} {w : Json}
      (h : Json.Tidied false (.object ms) (.object ws)) (hmem : (name, w) ∈ ws) (hw : w ≠ .null)
      (hx : ms.reverse.lookup name = some x) : Json.Tidied false x w := by
    cases h with
    | object h =>
      obtain ⟨y, hy, h⟩ := h.of_mem hmem hw
      obtain rfl := Option.some.inj (hx.symm.trans hy)
      exact h
  have htypes := hmember h (.tail _ (.head _)) Json.noConfusion rfl
  cases htypes with
  | array h =>
    cases h with
    | cons htype =>
      exact ⟨hmember htype (.tail _ (.head _)) Json.noConfusion rfl,
        hmember htype (.tail _ (.tail _ (.tail _ (.head _)))) Json.noConfusion rfl⟩

/-- A range of lines may be given as the list of its values and a kind as an object; the record of
what was read has an object for the one and a name for the other. -/
theorem shorthands_written_out :
    (SourceUnit.read (classRecord (.string "class") (.array [.integer 1, .integer 9])) =
        .ok classUnit ∧
      ¬ Json.Tidied false (classRecord (.string "class") (.array [.integer 1, .integer 9]))
        classUnit.toJson) ∧
    (SourceUnit.read (classRecord (.object [("class", .null)]) (LineSpan.toJson ⟨1, 9⟩)) =
        .ok classUnit ∧
      ¬ Json.Tidied false (classRecord (.object [("class", .null)]) (LineSpan.toJson ⟨1, 9⟩))
        classUnit.toJson) := by
  refine ⟨⟨rfl, fun h => ?_⟩, ⟨rfl, fun h => ?_⟩⟩
  · cases (tidied_classRecord h).2 with
    | values hs => cases hs
  · cases (tidied_classRecord h).1 with
    | name hs => cases hs

end CodeRisk
