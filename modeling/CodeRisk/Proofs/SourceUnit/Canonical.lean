import CodeRisk.Proofs.Lookup
import CodeRisk.Proofs.Record.Canonical
import CodeRisk.SourceUnit.Record
import Mathlib.Algebra.Ring.Nat

/-!
# Canonical records of units

The canonical values of the schemas are the records of the things they describe
(`Schema.Describes`), and no others: those of `sourceUnit` are the records of the units whose line
numbers are in range (`describes_sourceUnit`).
-/
namespace CodeRisk
namespace Record
namespace Schema

variable {α : Type} {defs : Definitions} {s : Schema} {toJson : α → Json} {fits : α → Prop}

/-- The canonical values are the records of what fits. -/
def Describes (defs : Definitions) (s : Schema) (toJson : α → Json) (fits : α → Prop) : Prop :=
  ∀ w, Canonical defs s w ↔ ∃ x, fits x ∧ toJson x = w

theorem describes_text : Describes defs .text .string fun _ => True := by
  intro w
  rw [canonical_text]
  exact ⟨fun ⟨t, ht⟩ => ⟨t, trivial, ht.symm⟩, fun ⟨t, _, ht⟩ => ⟨t, ht.symm⟩⟩

theorem exists_map_eq {ws : List Json} (h : ∀ w ∈ ws, ∃ x, fits x ∧ toJson x = w) :
    ∃ xs : List α, (∀ x ∈ xs, fits x) ∧ xs.map toJson = ws := by
  induction ws with
  | nil => exact ⟨[], by simp, rfl⟩
  | cons w ws ih =>
    obtain ⟨hw, hws⟩ := List.forall_mem_cons.mp h
    obtain ⟨x, hx, rfl⟩ := hw
    obtain ⟨xs, hxs, rfl⟩ := ih hws
    exact ⟨x :: xs, List.forall_mem_cons.mpr ⟨hx, hxs⟩, rfl⟩

theorem Describes.list (h : Describes defs s toJson fits) :
    Describes defs (.list s) (fun xs : List α => .array (xs.map toJson))
      fun xs => ∀ x ∈ xs, fits x := by
  intro w
  rw [canonical_list]
  constructor
  · rintro ⟨ws, rfl, hws⟩
    obtain ⟨xs, hxs, rfl⟩ := exists_map_eq fun v hv => (h v).mp (canonicalAll_iff.mp hws v hv)
    exact ⟨xs, hxs, rfl⟩
  · rintro ⟨xs, hxs, rfl⟩
    refine ⟨_, rfl, canonicalAll_iff.mpr fun v hv => ?_⟩
    obtain ⟨x, hx, rfl⟩ := List.mem_map.mp hv
    exact (h _).mpr ⟨x, hxs x hx, rfl⟩

theorem Describes.option (h : Describes defs s toJson fits) :
    Describes defs (.option s) (fun x : Option α => .optional (x.map toJson))
      fun x => ∀ y ∈ x, fits y := by
  intro w
  rw [canonical_option]
  constructor
  · rintro (rfl | hw)
    · exact ⟨none, by simp, rfl⟩
    · obtain ⟨x, hx, rfl⟩ := (h w).mp hw
      exact ⟨some x, by simpa using hx, rfl⟩
  · rintro ⟨_ | x, hx, rfl⟩
    · exact .inl rfl
    · exact .inr ((h _).mpr ⟨x, hx x rfl, rfl⟩)

end Schema

open Schema

theorem describes_size : Describes definitions size .nat fun n => n < 2 ^ 64 := by
  intro w
  rw [size, canonical_whole]
  have hpow : Nat.pow 2 64 = 2 ^ 64 := rfl
  constructor
  · rintro ⟨n, rfl, hn⟩
    exact ⟨n, by omega, rfl⟩
  · rintro ⟨n, hn, rfl⟩
    exact ⟨n, rfl, by omega⟩

theorem describes_strings : Describes definitions (.list .text) .strings fun _ => True := by
  intro w
  rw [describes_text.list w]
  simp [Json.strings]

end Record

open Record Schema

/-! ## Statements and expressions -/

mutual

theorem Stmt.canonical_toJson : ∀ s : Stmt, Canonical definitions stmt s.toJson
  | .ifElse c a none =>
    .named (.fielded rfl rfl rfl
      (.cons c.canonical_toJson (.cons a.canonical_toJson (.cons .absent .nil))))
  | .ifElse c a (some b) =>
    .named (.fielded rfl rfl rfl
      (.cons c.canonical_toJson (.cons a.canonical_toJson
        (.cons (.present b.canonical_toJson) .nil))))
  | .whileLoop c b =>
    .named (.fielded rfl rfl rfl (.cons c.canonical_toJson (.cons b.canonical_toJson .nil)))
  | .doWhile b c =>
    .named (.fielded rfl rfl rfl (.cons b.canonical_toJson (.cons c.canonical_toJson .nil)))
  | .forLoop h b =>
    .named (.fielded rfl rfl rfl
      (.cons (.list (Expr.canonical_listToJson h)) (.cons b.canonical_toJson .nil)))
  | .forEach e b =>
    .named (.fielded rfl rfl rfl (.cons e.canonical_toJson (.cons b.canonical_toJson .nil)))
  | .switch e cs =>
    .named (.fielded rfl rfl rfl
      (.cons e.canonical_toJson (.cons (.list (SwitchCase.canonical_listToJson cs)) .nil)))
  | .tryCatch rs b cs none =>
    .named (.fielded rfl rfl rfl
      (.cons (.list (Expr.canonical_listToJson rs))
        (.cons (.fields (.cons (.list (Stmt.canonical_listToJson b)) .nil))
          (.cons (.list (CatchClause.canonical_listToJson cs)) (.cons .absent .nil)))))
  | .tryCatch rs b cs (some f) =>
    .named (.fielded rfl rfl rfl
      (.cons (.list (Expr.canonical_listToJson rs))
        (.cons (.fields (.cons (.list (Stmt.canonical_listToJson b)) .nil))
          (.cons (.list (CatchClause.canonical_listToJson cs))
            (.cons (.present (.fields (.cons (.list (Stmt.canonical_listToJson f)) .nil)))
              .nil)))))
  | .throw e => .named (.valued rfl rfl e.canonical_toJson)
  | .block b =>
    .named (.valued rfl rfl (.fields (.cons (.list (Stmt.canonical_listToJson b)) .nil)))
  | .synchronized e b =>
    .named (.fielded rfl rfl rfl
      (.cons e.canonical_toJson
        (.cons (.fields (.cons (.list (Stmt.canonical_listToJson b)) .nil)) .nil)))
  | .simple es => .named (.valued rfl rfl (.list (Expr.canonical_listToJson es)))

theorem Expr.canonical_toJson : ∀ e : Expr, Canonical definitions expr e.toJson
  | .conditional c a b =>
    .named (.fielded rfl rfl rfl
      (.cons c.canonical_toJson (.cons a.canonical_toJson (.cons b.canonical_toJson .nil))))
  | .lambda s => .named (.valued rfl rfl s.canonical_toJson)
  | .switch e cs =>
    .named (.fielded rfl rfl rfl
      (.cons e.canonical_toJson (.cons (.list (SwitchCase.canonical_listToJson cs)) .nil)))
  | .compound es => .named (.valued rfl rfl (.list (Expr.canonical_listToJson es)))
  | .atom => .named (.bare rfl)

theorem Stmt.canonical_listToJson :
    ∀ ss : List Stmt, CanonicalAll definitions stmt (Stmt.listToJson ss)
  | [] => .nil
  | s :: ss => .cons s.canonical_toJson (Stmt.canonical_listToJson ss)

theorem Expr.canonical_listToJson :
    ∀ es : List Expr, CanonicalAll definitions expr (Expr.listToJson es)
  | [] => .nil
  | e :: es => .cons e.canonical_toJson (Expr.canonical_listToJson es)

theorem SwitchCase.canonical_listToJson :
    ∀ cs : List SwitchCase, CanonicalAll definitions switchCase (SwitchCase.listToJson cs)
  | [] => .nil
  | .mk label body :: cs =>
    .cons (.fields (.cons (.text label) (.cons (.list (Stmt.canonical_listToJson body)) .nil)))
      (SwitchCase.canonical_listToJson cs)

theorem CatchClause.canonical_listToJson :
    ∀ cs : List CatchClause, CanonicalAll definitions catchClause (CatchClause.listToJson cs)
  | [] => .nil
  | .mk types body :: cs =>
    have htypes : Canonical definitions (.list .text) (.strings types) :=
      (describes_strings _).mpr ⟨types, trivial, rfl⟩
    .cons (.fields (.cons htypes
        (.cons (.fields (.cons (.list (Stmt.canonical_listToJson body)) .nil)) .nil)))
      (CatchClause.canonical_listToJson cs)

end

/-! Conversely, each canonical value is a record. This is shown by induction on the size of the
value: what follows up to `describesBelow` is one step of it. -/

/-- Canonical values below a size are records. -/
def DescribesBelow {α : Type} (n : Nat) (s : Schema) (toJson : α → Json) : Prop :=
  ∀ w, sizeOf w < n → Canonical definitions s w → ∃ x, toJson x = w

variable {n : Nat}

theorem DescribesBelow.list {α : Type} {s : Schema} {toJson : α → Json}
    (h : DescribesBelow n s toJson) :
    DescribesBelow n (.list s) fun xs : List α => .array (xs.map toJson) := by
  intro w hw hlist
  obtain ⟨ws, rfl, hws⟩ := canonical_list.mp hlist
  rw [Json.array.sizeOf_spec] at hw
  have hitems : ∀ v ∈ ws, ∃ x, True ∧ toJson x = v := by
    intro v hv
    have hsize := List.sizeOf_lt_of_mem hv
    obtain ⟨x, hx⟩ := h v (by omega) (canonicalAll_iff.mp hws v hv)
    exact ⟨x, trivial, hx⟩
  obtain ⟨xs, -, rfl⟩ := exists_map_eq hitems
  exact ⟨xs, rfl⟩

theorem Stmt.listToJson_eq_map (ss : List Stmt) : Stmt.listToJson ss = ss.map Stmt.toJson := by
  induction ss with
  | nil => rfl
  | cons s ss ih => rw [Stmt.listToJson, ih, List.map_cons]

theorem Expr.listToJson_eq_map (es : List Expr) : Expr.listToJson es = es.map Expr.toJson := by
  induction es with
  | nil => rfl
  | cons e es ih => rw [Expr.listToJson, ih, List.map_cons]

/-- The record of a case. -/
def SwitchCase.toJson : SwitchCase → Json
  | .mk label body => .object [("label", .string label), ("body", .array (Stmt.listToJson body))]

theorem SwitchCase.listToJson_eq_map (cs : List SwitchCase) :
    SwitchCase.listToJson cs = cs.map SwitchCase.toJson := by
  induction cs with
  | nil => rfl
  | cons c cs ih =>
    obtain ⟨label, body⟩ := c
    rw [SwitchCase.listToJson, ih, List.map_cons, SwitchCase.toJson]

/-- The record of a handler. -/
def CatchClause.toJson : CatchClause → Json
  | .mk types body =>
    .object [("types", .strings types),
      ("body", .object [("statements", .array (Stmt.listToJson body))])]

theorem CatchClause.listToJson_eq_map (cs : List CatchClause) :
    CatchClause.listToJson cs = cs.map CatchClause.toJson := by
  induction cs with
  | nil => rfl
  | cons c cs ih =>
    obtain ⟨types, body⟩ := c
    rw [CatchClause.listToJson, ih, List.map_cons, CatchClause.toJson]

theorem stmts_below (hstmt : DescribesBelow n stmt Stmt.toJson) :
    DescribesBelow n stmts fun ss => .array (Stmt.listToJson ss) := by
  simp only [Stmt.listToJson_eq_map]
  exact hstmt.list

theorem exprs_below (hexpr : DescribesBelow n expr Expr.toJson) :
    DescribesBelow n exprs fun es => .array (Expr.listToJson es) := by
  simp only [Expr.listToJson_eq_map]
  exact hexpr.list

theorem block_below (hstmt : DescribesBelow n stmt Stmt.toJson) :
    DescribesBelow n block Block.toJson := by
  intro w hw h
  obtain ⟨ms, rfl, hms⟩ := canonical_fields.mp h
  simp only [canonicalMembers_cons, canonicalMembers_nil] at hms
  obtain ⟨x, _, rfl, hx, rfl⟩ := hms
  simp only [Json.object.sizeOf_spec, List.cons.sizeOf_spec, Prod.mk.sizeOf_spec] at hw
  obtain ⟨b, rfl⟩ := stmts_below hstmt x (by omega) hx
  exact ⟨b, rfl⟩

theorem cases_below (hstmt : DescribesBelow n stmt Stmt.toJson) :
    DescribesBelow n (.list switchCase) fun cs => .array (SwitchCase.listToJson cs) := by
  have hcase : DescribesBelow n switchCase SwitchCase.toJson := by
    intro w hw h
    obtain ⟨ms, rfl, hms⟩ := canonical_fields.mp h
    simp only [canonicalMembers_cons, canonicalMembers_nil] at hms
    obtain ⟨x, _, rfl, hx, y, _, rfl, hy, rfl⟩ := hms
    simp only [Json.object.sizeOf_spec, List.cons.sizeOf_spec, Prod.mk.sizeOf_spec] at hw
    obtain ⟨label, rfl⟩ := canonical_text.mp hx
    obtain ⟨body, rfl⟩ := stmts_below hstmt y (by omega) hy
    exact ⟨.mk label body, rfl⟩
  simpa only [SwitchCase.listToJson_eq_map] using hcase.list

theorem handlers_below (hstmt : DescribesBelow n stmt Stmt.toJson) :
    DescribesBelow n (.list catchClause) fun cs => .array (CatchClause.listToJson cs) := by
  have hhandler : DescribesBelow n catchClause CatchClause.toJson := by
    intro w hw h
    obtain ⟨ms, rfl, hms⟩ := canonical_fields.mp h
    simp only [canonicalMembers_cons, canonicalMembers_nil] at hms
    obtain ⟨x, _, rfl, hx, y, _, rfl, hy, rfl⟩ := hms
    simp only [Json.object.sizeOf_spec, List.cons.sizeOf_spec, Prod.mk.sizeOf_spec] at hw
    obtain ⟨types, -, rfl⟩ := (describes_strings _).mp hx
    obtain ⟨body, rfl⟩ := block_below hstmt y (by omega) hy
    exact ⟨.mk types body, rfl⟩
  simpa only [CatchClause.listToJson_eq_map] using hhandler.list

/-- A canonical statement is a record if smaller ones are. -/
theorem stmt_below (hstmt : DescribesBelow n stmt Stmt.toJson)
    (hexpr : DescribesBelow n expr Expr.toJson) : DescribesBelow (n + 1) stmt Stmt.toJson := by
  intro w hw h
  obtain ⟨v, rfl, hv⟩ | ⟨v, item, x, rfl, -, hv, hx⟩ | ⟨v, fs, ms, rfl, -, -, hv, hms⟩ :=
    canonical_choice.mp (canonical_named.mp h)
  · cases hv
  · have hmem := mem_of_lookup hv
    simp only [Json.object.sizeOf_spec, List.cons.sizeOf_spec, Prod.mk.sizeOf_spec] at hw
    simp only [List.mem_cons, Prod.mk.injEq, List.not_mem_nil, or_false] at hmem
    obtain ⟨rfl, rfl⟩ | ⟨rfl, rfl⟩ | ⟨rfl, rfl⟩ := hmem
    · obtain ⟨e, rfl⟩ := hexpr x (by omega) hx
      exact ⟨.throw e, rfl⟩
    · obtain ⟨b, rfl⟩ := block_below hstmt x (by omega) hx
      exact ⟨.block b, rfl⟩
    · obtain ⟨es, rfl⟩ := exprs_below hexpr x (by omega) hx
      exact ⟨.simple es, rfl⟩
  · have hmem := mem_of_lookup hv
    simp only [List.mem_cons, Prod.mk.injEq, List.not_mem_nil, or_false] at hmem
    -- there are at least two fields in all of them
    obtain ⟨rfl, rfl⟩ | ⟨rfl, rfl⟩ | ⟨rfl, rfl⟩ | ⟨rfl, rfl⟩ | ⟨rfl, rfl⟩ | ⟨rfl, rfl⟩ |
      ⟨rfl, rfl⟩ | ⟨rfl, rfl⟩ := hmem <;>
      simp only [canonicalMembers_cons, canonicalMembers_nil] at hms <;>
      obtain ⟨x, rest, rfl, hx, y, more, rfl, hy, hmore⟩ := hms <;>
      simp only [Json.object.sizeOf_spec, List.cons.sizeOf_spec, Prod.mk.sizeOf_spec] at hw
    · obtain ⟨z, _, rfl, hz, rfl⟩ := hmore
      simp only [List.cons.sizeOf_spec, Prod.mk.sizeOf_spec] at hw
      obtain ⟨c, rfl⟩ := hexpr x (by omega) hx
      obtain ⟨a, rfl⟩ := hstmt y (by omega) hy
      obtain rfl | hz := canonical_option.mp hz
      · exact ⟨.ifElse c a none, rfl⟩
      · obtain ⟨b, rfl⟩ := hstmt z (by omega) hz
        exact ⟨.ifElse c a (some b), rfl⟩
    · obtain ⟨c, rfl⟩ := hexpr x (by omega) hx
      obtain ⟨b, rfl⟩ := hstmt y (by omega) hy
      exact ⟨.whileLoop c b, by rw [hmore]; rfl⟩
    · obtain ⟨b, rfl⟩ := hstmt x (by omega) hx
      obtain ⟨c, rfl⟩ := hexpr y (by omega) hy
      exact ⟨.doWhile b c, by rw [hmore]; rfl⟩
    · obtain ⟨header, rfl⟩ := exprs_below hexpr x (by omega) hx
      obtain ⟨b, rfl⟩ := hstmt y (by omega) hy
      exact ⟨.forLoop header b, by rw [hmore]; rfl⟩
    · obtain ⟨e, rfl⟩ := hexpr x (by omega) hx
      obtain ⟨b, rfl⟩ := hstmt y (by omega) hy
      exact ⟨.forEach e b, by rw [hmore]; rfl⟩
    · obtain ⟨e, rfl⟩ := hexpr x (by omega) hx
      obtain ⟨cs, rfl⟩ := cases_below hstmt y (by omega) hy
      exact ⟨.switch e cs, by rw [hmore]; rfl⟩
    · obtain ⟨z, _, rfl, hz, u, _, rfl, hu, rfl⟩ := hmore
      simp only [List.cons.sizeOf_spec, Prod.mk.sizeOf_spec] at hw
      obtain ⟨rs, rfl⟩ := exprs_below hexpr x (by omega) hx
      obtain ⟨b, rfl⟩ := block_below hstmt y (by omega) hy
      obtain ⟨cs, rfl⟩ := handlers_below hstmt z (by omega) hz
      obtain rfl | hu := canonical_option.mp hu
      · exact ⟨.tryCatch rs b cs none, rfl⟩
      · obtain ⟨f, rfl⟩ := block_below hstmt u (by omega) hu
        exact ⟨.tryCatch rs b cs (some f), rfl⟩
    · obtain ⟨e, rfl⟩ := hexpr x (by omega) hx
      obtain ⟨b, rfl⟩ := block_below hstmt y (by omega) hy
      exact ⟨.synchronized e b, by rw [hmore]; rfl⟩

/-- A canonical expression is a record if smaller ones are. -/
theorem expr_below (hstmt : DescribesBelow n stmt Stmt.toJson)
    (hexpr : DescribesBelow n expr Expr.toJson) : DescribesBelow (n + 1) expr Expr.toJson := by
  intro w hw h
  obtain ⟨v, rfl, hv⟩ | ⟨v, item, x, rfl, -, hv, hx⟩ | ⟨v, fs, ms, rfl, -, -, hv, hms⟩ :=
    canonical_choice.mp (canonical_named.mp h)
  · obtain rfl : v = "Atom" := by simpa using hv
    exact ⟨.atom, rfl⟩
  · have hmem := mem_of_lookup hv
    simp only [Json.object.sizeOf_spec, List.cons.sizeOf_spec, Prod.mk.sizeOf_spec] at hw
    simp only [List.mem_cons, Prod.mk.injEq, List.not_mem_nil, or_false] at hmem
    obtain ⟨rfl, rfl⟩ | ⟨rfl, rfl⟩ := hmem
    · obtain ⟨s, rfl⟩ := hstmt x (by omega) hx
      exact ⟨.lambda s, rfl⟩
    · obtain ⟨es, rfl⟩ := exprs_below hexpr x (by omega) hx
      exact ⟨.compound es, rfl⟩
  · have hmem := mem_of_lookup hv
    simp only [List.mem_cons, Prod.mk.injEq, List.not_mem_nil, or_false] at hmem
    obtain ⟨rfl, rfl⟩ | ⟨rfl, rfl⟩ := hmem <;>
      simp only [canonicalMembers_cons, canonicalMembers_nil] at hms
    · obtain ⟨x, _, rfl, hx, y, _, rfl, hy, z, _, rfl, hz, rfl⟩ := hms
      simp only [Json.object.sizeOf_spec, List.cons.sizeOf_spec, Prod.mk.sizeOf_spec] at hw
      obtain ⟨c, rfl⟩ := hexpr x (by omega) hx
      obtain ⟨a, rfl⟩ := hexpr y (by omega) hy
      obtain ⟨b, rfl⟩ := hexpr z (by omega) hz
      exact ⟨.conditional c a b, rfl⟩
    · obtain ⟨x, _, rfl, hx, y, _, rfl, hy, rfl⟩ := hms
      simp only [Json.object.sizeOf_spec, List.cons.sizeOf_spec, Prod.mk.sizeOf_spec] at hw
      obtain ⟨e, rfl⟩ := hexpr x (by omega) hx
      obtain ⟨cs, rfl⟩ := cases_below hstmt y (by omega) hy
      exact ⟨.switch e cs, rfl⟩

/-- Canonical statements and expressions are records. -/
theorem describesBelow (n : Nat) :
    DescribesBelow n stmt Stmt.toJson ∧ DescribesBelow n expr Expr.toJson := by
  induction n with
  | zero =>
    constructor <;> exact fun _ hw => absurd hw (Nat.not_lt_zero _)
  | succ n ih => exact ⟨stmt_below ih.1 ih.2, expr_below ih.1 ih.2⟩

theorem describes_stmts :
    Describes definitions stmts (fun ss => .array (Stmt.listToJson ss)) fun _ => True := by
  intro w
  constructor
  · intro h
    obtain ⟨ss, hss⟩ := stmts_below (describesBelow (sizeOf w + 1)).1 w (Nat.lt_succ_self _) h
    exact ⟨ss, trivial, hss⟩
  · rintro ⟨ss, -, rfl⟩
    exact .list (Stmt.canonical_listToJson ss)

theorem describes_block : Describes definitions block Block.toJson fun _ => True := by
  intro w
  constructor
  · intro h
    obtain ⟨b, hb⟩ := block_below (describesBelow (sizeOf w + 1)).1 w (Nat.lt_succ_self _) h
    exact ⟨b, trivial, hb⟩
  · rintro ⟨b, -, rfl⟩
    exact .fields (.cons (.list (Stmt.canonical_listToJson b)) .nil)

/-! ## Units -/

/-- The line numbers can be written. -/
def LineSpan.InRange (s : LineSpan) : Prop :=
  s.first < 2 ^ 64 ∧ s.last < 2 ^ 64

/-- The line numbers and the number of lines can be written. -/
structure SourceUnit.InRange (u : SourceUnit) : Prop where
  types : ∀ t ∈ u.types, t.span.InRange
  methods : ∀ m ∈ u.methods, m.span.InRange
  lineCount : u.lineCount < 2 ^ 64

theorem describes_lineSpan :
    Describes definitions lineSpan LineSpan.toJson LineSpan.InRange := by
  intro w
  simp only [lineSpan, canonical_fields, canonicalMembers_cons, canonicalMembers_nil,
    describes_size _]
  constructor
  · rintro ⟨_, rfl, _, _, rfl, ⟨first, hfirst, rfl⟩, _, _, rfl, ⟨last, hlast, rfl⟩, rfl⟩
    exact ⟨⟨first, last⟩, ⟨hfirst, hlast⟩, rfl⟩
  · rintro ⟨⟨first, last⟩, ⟨hfirst, hlast⟩, rfl⟩
    exact ⟨_, rfl, _, _, rfl, ⟨first, hfirst, rfl⟩, _, _, rfl, ⟨last, hlast, rfl⟩, rfl⟩

theorem describes_kind :
    Describes definitions (.choice ["class", "interface"] [] [] ["class", "interface"])
      (fun k : TypeKind => .string k.word) fun _ => True := by
  intro w
  rw [canonical_choice]
  constructor
  · rintro (⟨v, rfl, hv⟩ | ⟨v, item, x, rfl, -, hv, -⟩ | ⟨v, fs, ms, rfl, -, -, hv, -⟩)
    · obtain rfl | rfl : v = "class" ∨ v = "interface" := by simpa using hv
      · exact ⟨.ofClass, trivial, rfl⟩
      · exact ⟨.ofInterface, trivial, rfl⟩
    · cases hv
    · cases hv
  · rintro ⟨_ | _, -, rfl⟩
    · exact .inl ⟨_, rfl, rfl⟩
    · exact .inl ⟨_, rfl, rfl⟩

theorem describes_typeDecl :
    Describes definitions typeDecl TypeDecl.toJson fun t => t.span.InRange := by
  intro w
  simp only [typeDecl, canonical_fields, canonicalMembers_cons, canonicalMembers_nil,
    canonical_text, describes_kind _, describes_strings _, describes_lineSpan _]
  constructor
  · rintro ⟨_, rfl, _, _, rfl, ⟨name, rfl⟩, _, _, rfl, ⟨kind, -, rfl⟩, _, _, rfl,
      ⟨annotations, -, rfl⟩, _, _, rfl, ⟨span, hspan, rfl⟩, rfl⟩
    exact ⟨⟨name, kind, annotations, span⟩, hspan, rfl⟩
  · rintro ⟨⟨name, kind, annotations, span⟩, hspan, rfl⟩
    exact ⟨_, rfl, _, _, rfl, ⟨name, rfl⟩, _, _, rfl, ⟨kind, trivial, rfl⟩, _, _, rfl,
      ⟨annotations, trivial, rfl⟩, _, _, rfl, ⟨span, hspan, rfl⟩, rfl⟩

theorem describes_methodBody :
    Describes definitions methodBody MethodBody.toJson fun _ => True := by
  intro w
  simp only [methodBody, canonical_fields, canonicalMembers_cons, canonicalMembers_nil,
    canonical_text, describes_block _]
  constructor
  · rintro ⟨_, rfl, _, _, rfl, ⟨text, rfl⟩, _, _, rfl, ⟨block, -, rfl⟩, rfl⟩
    exact ⟨⟨text, block⟩, trivial, rfl⟩
  · rintro ⟨⟨text, block⟩, -, rfl⟩
    exact ⟨_, rfl, _, _, rfl, ⟨text, rfl⟩, _, _, rfl, ⟨block, trivial, rfl⟩, rfl⟩

theorem describes_methodDecl :
    Describes definitions methodDecl MethodDecl.toJson fun m => m.span.InRange := by
  intro w
  simp only [methodDecl, canonical_fields, canonicalMembers_cons, canonicalMembers_nil,
    canonical_text, describes_strings _, describes_methodBody.option _, describes_lineSpan _]
  constructor
  · rintro ⟨_, rfl, _, _, rfl, ⟨name, rfl⟩, _, _, rfl, ⟨parameters, -, rfl⟩, _, _, rfl,
      ⟨throws, -, rfl⟩, _, _, rfl, ⟨annotations, -, rfl⟩, _, _, rfl, ⟨body, -, rfl⟩, _, _, rfl,
      ⟨span, hspan, rfl⟩, rfl⟩
    exact ⟨⟨name, parameters, throws, annotations, body, span⟩, hspan, rfl⟩
  · rintro ⟨⟨name, parameters, throws, annotations, body, span⟩, hspan, rfl⟩
    exact ⟨_, rfl, _, _, rfl, ⟨name, rfl⟩, _, _, rfl, ⟨parameters, trivial, rfl⟩, _, _, rfl,
      ⟨throws, trivial, rfl⟩, _, _, rfl, ⟨annotations, trivial, rfl⟩, _, _, rfl,
      ⟨body, fun _ _ => trivial, rfl⟩, _, _, rfl, ⟨span, hspan, rfl⟩, rfl⟩

/-- **The canonical values are the records of the units whose line numbers are in range.** -/
theorem describes_sourceUnit :
    Describes definitions sourceUnit SourceUnit.toJson SourceUnit.InRange := by
  intro w
  simp only [sourceUnit, canonical_fields, canonicalMembers_cons, canonicalMembers_nil,
    describes_text.option _, describes_typeDecl.list _, describes_methodDecl.list _,
    describes_stmts _, describes_strings _, describes_size _]
  constructor
  · rintro ⟨_, rfl, _, _, rfl, ⟨package, -, rfl⟩, _, _, rfl, ⟨types, htypes, rfl⟩, _, _, rfl,
      ⟨methods, hmethods, rfl⟩, _, _, rfl, ⟨code, -, rfl⟩, _, _, rfl, ⟨imports, -, rfl⟩, _, _, rfl,
      ⟨lineCount, hlines, rfl⟩, rfl⟩
    exact ⟨⟨package, types, methods, code, imports, lineCount⟩, ⟨htypes, hmethods, hlines⟩, rfl⟩
  · rintro ⟨⟨package, types, methods, code, imports, lineCount⟩, ⟨htypes, hmethods, hlines⟩, rfl⟩
    exact ⟨_, rfl, _, _, rfl, ⟨package, fun _ _ => trivial, rfl⟩, _, _, rfl,
      ⟨types, htypes, rfl⟩, _, _, rfl, ⟨methods, hmethods, rfl⟩, _, _, rfl, ⟨code, trivial, rfl⟩,
      _, _, rfl, ⟨imports, trivial, rfl⟩, _, _, rfl, ⟨lineCount, hlines, rfl⟩, rfl⟩

end CodeRisk
