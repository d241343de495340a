import CodeRisk.Proofs.Text.Lines
import CodeRisk.Toon

/-!
# The frame of a batch

The records of a batch stand one behind the other with a separator line behind each of them. No line
of a record is a separator, whatever texts are in it: a text with a newline in it stands between
quotes, where newlines are escaped, and every line of a record has a colon or a blank in it that a
separator has not (`Toon.ne_separator_of_mem_lines`). So a reader that splits the text of a
batch at the separator lines finds the records again (`Toon.blocks_ofBatch`).
-/
namespace CodeRisk

open Text (IsLine)

/-! ## Numbers -/

namespace Decimal

theorem newline_not_mem_zeros (n : Nat) : '\n' ∉ zeros n := by
  intro h
  exact absurd (List.eq_of_mem_replicate h) (by decide)

theorem newline_not_mem_digits (n : Nat) : '\n' ∉ digits n :=
  Text.newline_not_mem_toDigits n

namespace Style

theorem newline_not_mem_unsigned (f : Style) (s : Scientific) : '\n' ∉ f.unsigned s := by
  have hdigits := newline_not_mem_digits s.digits
  have htake (k : Nat) : '\n' ∉ (digits s.digits).take k :=
    fun h => hdigits (List.mem_of_mem_take h)
  have hdrop (k : Nat) : '\n' ∉ (digits s.digits).drop k :=
    fun h => hdigits (List.mem_of_mem_drop h)
  have hscientific (n : Int) : '\n' ∉ (digits s.digits).take 1 ++
      (if ((digits s.digits).drop 1).isEmpty then [] else '.' :: (digits s.digits).drop 1) ++
        'e' :: (toString n).toList := by
    have hexponent : '\n' ∉ (toString n).toList := Text.isLine_intToString n
    simp only [List.mem_append, List.mem_cons, htake, hexponent]
    split <;> simp [hdrop, -List.drop_one]
  have hpoint : '\n' ∉ (if f.pointAlways then ['.', '0'] else []) := by
    split <;> decide
  unfold unsigned
  dsimp only
  split
  case isTrue => cases f.pointAlways <;> decide
  case isFalse =>
    split
    case h_1 => simp [hdigits]
    case h_2 k _ =>
      split
      · exact hscientific _
      · split
        · simp only [List.mem_append, hdigits, newline_not_mem_zeros, hpoint, or_self,
            not_false_eq_true]
        · simp [htake, hdrop]
    case h_3 k =>
      split
      · simp [hdigits, newline_not_mem_zeros]
      · exact hscientific _

theorem isLine_render {f : Style} (hnan : IsLine f.nan) (hinfinity : IsLine f.infinity)
    (x : Float) : IsLine (f.render x) := by
  have hsign {s : String} (hs : IsLine s) (negative : Bool) :
      IsLine (if negative then "-" ++ s else s) := by
    split
    · exact Text.isLine_append.mpr ⟨by decide, hs⟩
    · exact hs
  unfold render
  split
  · exact hnan
  · exact hsign hinfinity _
  · exact hsign (Text.isLine_ofList.mpr (newline_not_mem_unsigned f _)) _

end Style

end Decimal

/-! ## Lines of a record -/

namespace Toon

/-- An escape has no newline in it. -/
theorem newline_not_mem_escapeChar (c : Char) : '\n' ∉ escapeChar c := by
  unfold escapeChar
  split
  case h_6 hnewline _ _ _ _ => simpa using fun h => hnewline h.symm
  all_goals decide

/-- **A text is written on one line**, whatever is in it. -/
theorem isLine_text (s : String) : IsLine (text s) := by
  unfold text
  split
  case isTrue =>
    have hescaped : '\n' ∉ s.toList.flatMap escapeChar := by
      rw [List.mem_flatMap]
      rintro ⟨c, -, hc⟩
      exact newline_not_mem_escapeChar c hc
    rw [Text.isLine_ofList, List.mem_cons, List.mem_append, List.mem_singleton]
    rintro (h | h | h)
    · exact absurd h (by decide)
    · exact hescaped h
    · exact absurd h (by decide)
  case isFalse h =>
    -- a newline would have made quotes necessary
    intro hmem
    apply h
    have hany : s.toList.any delimiters.contains := List.any_eq_true.mpr ⟨'\n', hmem, by decide⟩
    rw [needsQuotes, hany, Bool.or_true]

example : text "a\n---\nb" = "\"a\\n---\\nb\"" := by decide +kernel

theorem isLine_real (x : Float) : IsLine (real x) := by
  unfold real
  cases Decimal.Binary64.ofFloat x with
  | nan => exact (by decide : IsLine "null")
  | infinite negative => exact (by decide : IsLine "null")
  | finite negative m e =>
    dsimp only
    split
    · decide
    · split
      · exact Text.isLine_append.mpr ⟨Text.isLine_intToString _, by decide⟩
      · exact Decimal.Style.isLine_render (by decide) (by decide) x

theorem isLine_scalar (x : Scalar Float) : IsLine (scalar x) := by
  cases x with
  | text s => exact isLine_text s
  | nat n => exact Text.isLine_natToString n
  | real x => exact isLine_real x
  | bool b => cases b <;> decide

/-- The names of the columns, if the value is a table. -/
def Value.columns {ν : Type} : Value ν → List String
  | .table columns _ => columns
  | _ => []

namespace Value
variable {ν : Type}

@[simp] theorem columns_scalar (x : Scalar ν) : (scalar x).columns = [] := rfl
@[simp] theorem columns_text (s : String) : (text s : Value ν).columns = [] := rfl
@[simp] theorem columns_nat (n : Nat) : (nat n : Value ν).columns = [] := rfl
@[simp] theorem columns_counter (n : UInt32) : (counter n : Value ν).columns = [] := rfl
@[simp] theorem columns_bool (b : Bool) : (bool b : Value ν).columns = [] := rfl
@[simp] theorem columns_list (items : List String) : (list items : Value ν).columns = [] := rfl
@[simp] theorem columns_table (columns : List String) (rows : List (List (Scalar ν))) :
    (table columns rows).columns = columns := rfl

end Value

/-- Whether the names in a record, those of its fields and of the columns of its tables, are single
lines. The texts in the record may be anything. -/
def HasLineNames {ν : Type} (r : Record ν) : Prop :=
  ∀ f ∈ r, IsLine f.1 ∧ ∀ c ∈ f.2.columns, IsLine c

variable {name l : String} {v : Value Float} {r : Record Float}

theorem lines_scalar (name : String) (x : Scalar Float) :
    lines name (.scalar x) = [name ++ ": " ++ scalar x] := rfl

theorem lines_nil (name : String) : lines name (.list []) = [name ++ "[0]:"] := rfl

theorem lines_cons (name x : String) (xs : List String) :
    lines name (.list (x :: xs)) =
      [name ++ "[" ++ (xs.length + 1).repr ++ "]: " ++ ",".intercalate (text x :: xs.map text)] :=
  rfl

theorem lines_table (name : String) (columns : List String) (rows : List (List (Scalar Float))) :
    lines name (.table columns rows) =
      (name ++ "[" ++ rows.length.repr ++ "]" ++ "\x7b" ++ ",".intercalate columns ++ "\x7d:") ::
        rows.map fun row => "  " ++ ",".intercalate (row.map scalar) := rfl

/-- The lines of a field are lines. -/
theorem isLine_of_mem_lines (hname : IsLine name) (hcolumns : ∀ c ∈ v.columns, IsLine c)
    (hl : l ∈ lines name v) : IsLine l := by
  have hseparated {xs : List String} (h : ∀ x ∈ xs, IsLine x) : IsLine (",".intercalate xs) :=
    Text.isLine_intercalate (by decide) h
  have hcount (n : Nat) : IsLine n.repr := Text.isLine_natToString n
  have hpunctuation : IsLine "[" ∧ IsLine "]" ∧ IsLine "]: " ∧ IsLine ": " ∧ IsLine "[0]:" ∧
      IsLine "\x7b" ∧ IsLine "\x7d:" ∧ IsLine "  " := by decide
  cases v with
  | scalar x =>
    rw [lines_scalar, List.mem_singleton] at hl
    simp [hl, hname, hpunctuation, isLine_scalar]
  | list items =>
    cases items with
    | nil =>
      rw [lines_nil, List.mem_singleton] at hl
      simp [hl, hname, hpunctuation]
    | cons x xs =>
      rw [lines_cons, List.mem_singleton] at hl
      have htexts : ∀ t ∈ text x :: xs.map text, IsLine t := by
        simp [isLine_text]
      simp [hl, hname, hpunctuation, hcount, hseparated htexts]
  | table columns rows =>
    rw [lines_table, List.mem_cons] at hl
    rcases hl with rfl | hl
    · have hheader : IsLine (",".intercalate columns) := hseparated hcolumns
      simp [hname, hpunctuation, hcount, hheader]
    · obtain ⟨row, -, rfl⟩ := List.mem_map.mp hl
      have hscalars : ∀ t ∈ row.map scalar, IsLine t := by
        simp [isLine_scalar]
      simp [hpunctuation, hseparated hscalars]

theorem ne_separator_of_mem {c : Char} (hc : c ∈ l.toList) (hne : c ≠ '-') : l ≠ separator := by
  rintro rfl
  have hdash : c ∈ ['-', '-', '-'] := hc
  simp [hne] at hdash

/-- **No line of a field is a separator.** The first line has a colon in it, a row begins with a
blank. -/
theorem ne_separator_of_mem_lines (hl : l ∈ lines name v) : l ≠ separator := by
  have hcolon (h : ':' ∈ l.toList) : l ≠ separator := ne_separator_of_mem h (by decide)
  cases v with
  | scalar x =>
    rw [lines_scalar, List.mem_singleton] at hl
    exact hcolon (by simp [hl])
  | list items =>
    cases items with
    | nil =>
      rw [lines_nil, List.mem_singleton] at hl
      exact hcolon (by simp [hl])
    | cons x xs =>
      rw [lines_cons, List.mem_singleton] at hl
      exact hcolon (by simp [hl])
  | table columns rows =>
    rw [lines_table, List.mem_cons] at hl
    rcases hl with hl | hl
    · exact hcolon (by simp [hl])
    · obtain ⟨row, -, rfl⟩ := List.mem_map.mp hl
      exact ne_separator_of_mem (c := ' ') (by simp) (by decide)

theorem lines_ne_nil (name : String) (v : Value Float) : lines name v ≠ [] := by
  cases v with
  | scalar | table => exact List.cons_ne_nil _ _
  | list items => cases items <;> exact List.cons_ne_nil _ _

/-- **The lines of a record** are those of its fields. -/
theorem lines_render (h : HasLineNames r) (hne : r ≠ []) :
    Text.lines (render r) = r.flatMap fun (name, v) => lines name v := by
  obtain ⟨f, fs, rfl⟩ := List.exists_cons_of_ne_nil hne
  refine Text.lines_intercalate (fun l hl => ?_) ?_
  · obtain ⟨f, hf, hl⟩ := List.mem_flatMap.mp hl
    exact isLine_of_mem_lines (h f hf).1 (h f hf).2 hl
  · rw [List.flatMap_cons]
    exact List.append_ne_nil_of_left_ne_nil (lines_ne_nil f.1 f.2) _

theorem separator_not_mem_lines_render (h : HasLineNames r) (hne : r ≠ []) :
    separator ∉ Text.lines (render r) := by
  rw [lines_render h hne]
  intro hmem
  obtain ⟨f, -, hl⟩ := List.mem_flatMap.mp hmem
  exact ne_separator_of_mem_lines hl rfl

/-! ## Batches -/

section Names
variable {ν : Type} {r s : Record ν} {name : String} {v : Value ν}

theorem hasLineNames_nil : HasLineNames ([] : Record ν) := by
  simp [HasLineNames]

theorem hasLineNames_cons :
    HasLineNames ((name, v) :: r) ↔
      (IsLine name ∧ ∀ c ∈ v.columns, IsLine c) ∧ HasLineNames r :=
  List.forall_mem_cons

theorem hasLineNames_append : HasLineNames (r ++ s) ↔ HasLineNames r ∧ HasLineNames s :=
  List.forall_mem_append

theorem hasLineNames_field? {present : Bool} (hname : IsLine name)
    (hcolumns : ∀ c ∈ v.columns, IsLine c) : HasLineNames (field? present name v) := by
  unfold field?
  split
  · exact hasLineNames_cons.mpr ⟨⟨hname, hcolumns⟩, hasLineNames_nil⟩
  · exact hasLineNames_nil

/-- The names in the record of a file do not come from the file. -/
theorem hasLineNames_ofMetadata [Scale ν] (m : FileMetadata ν) : HasLineNames (ofMetadata m) := by
  simp +decide only [ofMetadata, hasLineNames_append, hasLineNames_cons, hasLineNames_nil,
    Value.columns_scalar, Value.columns_text, Value.columns_nat, Value.columns_counter,
    Value.columns_bool, Value.columns_list, List.not_mem_nil, IsEmpty.forall_iff, implies_true,
    and_true, true_and, and_assoc]
  refine ⟨?complex, ?annotated, ?methods, ?validation, ?dependencies⟩
  case complex => exact hasLineNames_field? (by decide) (by simp +decide)
  all_goals exact hasLineNames_field? (by decide) (by simp)

theorem hasLineNames_ofFailures (fs : List BatchFailure) : HasLineNames (ofFailures fs) := by
  simp +decide [ofFailures, hasLineNames_cons, hasLineNames_nil]

end Names

theorem separator_not_mem_lines_ofFile (m : FileMetadata Float) :
    separator ∉ Text.lines (ofFile m) :=
  separator_not_mem_lines_render (hasLineNames_ofMetadata m) (List.cons_ne_nil _ _)

/-- What is said of the files that failed. -/
def closing (fs : List BatchFailure) : String :=
  if fs.isEmpty then "" else render (ofFailures fs) ++ "\n"

theorem closing_nil : closing [] = "" := rfl

theorem closing_of_ne_nil {fs : List BatchFailure} (h : fs ≠ []) :
    closing fs = render (ofFailures fs) ++ "\n" ++ "" := by
  rw [closing, if_neg (by simpa using h), String.append_empty]

theorem separator_not_mem_lines_closing (fs : List BatchFailure) :
    separator ∉ Text.lines (closing fs) := by
  by_cases h : fs = []
  · subst h
    decide
  · rw [closing_of_ne_nil h, Text.lines_append_newline, List.mem_append, not_or]
    exact ⟨separator_not_mem_lines_render (hasLineNames_ofFailures fs) (List.cons_ne_nil _ _),
      by decide⟩

/-- The blocks of a text: what stands between its separator lines. -/
def blocks (s : String) : List String :=
  ((Text.lines s).splitOn separator).map ("\n".intercalate ·)

theorem blocks_of_not_mem {s : String} (h : separator ∉ Text.lines s) : blocks s = [s] := by
  rw [blocks, List.splitOn_eq_singleton h, List.map_singleton, Text.intercalate_lines]

/-- The text of a record and the separator behind it. -/
def framed (s : String) : String :=
  s ++ "\n" ++ separator ++ "\n"

theorem lines_framed_append (s t : String) :
    Text.lines (framed s ++ t) = Text.lines s ++ separator :: Text.lines t := by
  rw [framed, Text.lines_append_newline, Text.lines_append_newline, List.append_assoc,
    Text.lines_of_isLine (s := separator) (by decide), List.singleton_append]

/-- A separator line ends a block. -/
theorem blocks_framed_append {s : String} (h : separator ∉ Text.lines s) (t : String) :
    blocks (framed s ++ t) = s :: blocks t := by
  rw [blocks, lines_framed_append, List.splitOn_append_cons_self_of_not_mem h, List.map_cons,
    Text.intercalate_lines]
  rfl

/-- The separators of a row of framed texts are the only ones. -/
theorem count_separator_framed {ss : List String} {t : String}
    (hss : ∀ s ∈ ss, separator ∉ Text.lines s) (ht : separator ∉ Text.lines t) :
    (Text.lines (String.join (ss.map framed) ++ t)).count separator = ss.length := by
  induction ss with
  | nil =>
    rw [List.map_nil, String.join_nil, String.empty_append]
    exact List.count_eq_zero.mpr ht
  | cons s ss ih =>
    obtain ⟨hs, hss⟩ := List.forall_mem_cons.mp hss
    rw [List.map_cons, String.join_cons, String.append_assoc, lines_framed_append,
      List.count_append, List.count_eq_zero.mpr hs, List.count_cons_self, ih hss, Nat.zero_add,
      List.length_cons]

/-- A row of framed texts is split into these texts and what follows them. -/
theorem blocks_framed {ss : List String} {t : String}
    (hss : ∀ s ∈ ss, separator ∉ Text.lines s) (ht : separator ∉ Text.lines t) :
    blocks (String.join (ss.map framed) ++ t) = ss ++ [t] := by
  induction ss with
  | nil =>
    rw [List.map_nil, String.join_nil, String.empty_append]
    exact blocks_of_not_mem ht
  | cons s ss ih =>
    obtain ⟨hs, hss⟩ := List.forall_mem_cons.mp hss
    rw [List.map_cons, String.join_cons, String.append_assoc, blocks_framed_append hs, ih hss,
      List.cons_append]

theorem ofBatch_eq (b : BatchReport Float) :
    ofBatch b = String.join ((b.results.map ofFile).map framed) ++ closing b.failures := by
  rw [List.map_map]
  rfl

theorem closing_eq_empty_iff {fs : List BatchFailure} : closing fs = "" ↔ fs = [] := by
  constructor
  · intro h
    by_contra hne
    rw [closing_of_ne_nil hne] at h
    simp at h
  · rintro rfl
    exact closing_nil

/-- **The frame of a batch cannot be forged.** Whatever texts a report holds, its text splits at the
separator lines into the texts of its results, in their order, and what is said of the files that
failed, which is nothing if there are none. There are as many separator lines as results, since no
line of a record and no line about a failure is one. -/
theorem blocks_ofBatch (b : BatchReport Float) :
    blocks (ofBatch b) = b.results.map ofFile ++ [closing b.failures] ∧
    (closing b.failures = "" ↔ b.failures = []) ∧
    (b.failures ≠ [] → closing b.failures = render (ofFailures b.failures) ++ "\n") ∧
    (Text.lines (ofBatch b)).count separator = b.results.length ∧
    (∀ m ∈ b.results, separator ∉ Text.lines (ofFile m)) ∧
    separator ∉ Text.lines (closing b.failures) := by
  have hclosing := separator_not_mem_lines_closing b.failures
  have hresults : ∀ s ∈ b.results.map ofFile, separator ∉ Text.lines s :=
    List.forall_mem_map.mpr fun m _ => separator_not_mem_lines_ofFile m
  refine ⟨?blocks, closing_eq_empty_iff, ?closing, ?count,
    fun m _ => separator_not_mem_lines_ofFile m, hclosing⟩
  case blocks => rw [ofBatch_eq, blocks_framed hresults hclosing]
  case closing =>
    intro h
    rw [closing_of_ne_nil h, String.append_empty]
  case count => rw [ofBatch_eq, count_separator_framed hresults hclosing, List.length_map]

end Toon

end CodeRisk
