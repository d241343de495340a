import CodeRisk.Proofs.Analyzer.Consistent
import CodeRisk.Proofs.Lowering.Collected
import CodeRisk.Proofs.Parse
import Mathlib.Data.Fintype.Defs

/-!
# What stops a file

A file that is loaded from disk is stopped by what is at its path, by the name of the path, by its
text or by what the text declares. Each error that can come of a file is one way in which it stops
(`Disk.Stops`), and a file has an error exactly if it stops (`Analyzer.analyzeFile_eq_error_iff`).

What a user is told is coarser: one of four obstacles, each with its own label. They are said here
without the order in which the loader asks (`Disk.Meets`). A file meets the obstacle whose label its
error bears (`Disk.meets_iff`), so it never meets two.
-/
namespace CodeRisk

namespace Disk

/-- The text at a path, or why there is none. -/
def readText (d : Disk) (path : String) : Except ReadFault String :=
  (d.find path).bind FileTree.text

/-- The ways in which a file stops, each with its error. -/
inductive Stops (d : Disk) (path : String) : AnalysisError → Prop where
  | missing {fault : ReadFault} (h : d.find path = .error fault) :
      Stops d path (.unreadableSource path "file not found")
  | unsupported {node : FileTree} (h : d.find path = .ok node) (hjava : Path.isJava path = false) :
      Stops d path (.unsupportedLanguage path ((Path.extension? path).getD "none"))
  | textless {node : FileTree} {fault : ReadFault} (h : d.find path = .ok node)
      (hjava : Path.isJava path = true) (htext : node.text = .error fault) :
      Stops d path (.unreadableSource path fault.message)
  | tooDeep {text : String} (htext : d.readText path = .ok text) (hjava : Path.isJava path = true)
      (hheight : maxTreeHeight < (Java.read text).height) :
      Stops d path (.malformedUnit path (Malformation.tooDeep (Java.read text).height).message)
  | faulty {text : String} (htext : d.readText path = .ok text) (hjava : Path.isJava path = true)
      (hheight : (Java.read text).height ≤ maxTreeHeight)
      (herror : (Java.read text).hasError = true) :
      Stops d path (.malformedUnit path
        (Malformation.faulty ((Java.read text).firstErrorLine.getD 1)).message)
  | untyped {text : String} (htext : d.readText path = .ok text) (hjava : Path.isJava path = true)
      (hheight : (Java.read text).height ≤ maxTreeHeight)
      (herror : (Java.read text).hasError = false)
      (hnone : ∀ t ∈ (Java.read text).nodes, declaresType t = false) :
      Stops d path (.noPrimaryType path)

end Disk

/-! ## Texts of errors -/

namespace AnalysisError

variable (path : String)

theorem message_unreadableSource (reason : String) : (unreadableSource path reason).message =
    "cannot read source '" ++ path ++ ("': " ++ reason) :=
  String.append_assoc

theorem message_unsupportedLanguage (extension : String) :
    (unsupportedLanguage path extension).message =
      "unsupported file extension '" ++ extension ++ "' for '" ++ path ++ "'" :=
  rfl

theorem message_malformedUnit (message : String) : (malformedUnit path message).message =
    "malformed source unit '" ++ path ++ ("': " ++ message) :=
  String.append_assoc

theorem message_noPrimaryType : (noPrimaryType path).message =
    "no class or interface declaration found in '" ++ path ++ "'" :=
  rfl

end AnalysisError

theorem Malformation.message_tooDeep (height : Nat) : (tooDeep height).message =
    "syntax nesting depth " ++ toString height ++ " exceeds limit of 1000" := by
  have hlimit : " exceeds limit of " ++ toString maxTreeHeight = " exceeds limit of 1000" := by
    decide
  rw [← hlimit]
  exact String.append_assoc

/-! ## Texts that are refused -/

namespace SourceUnit

variable {path text : String} {e : AnalysisError}

theorem parse_eq_error_iff : parse path text = .error e ↔
    ∃ m, ofTree? (lineCountOf text) (Java.read text) = .error m ∧
      e = .malformedUnit path m.message := by
  unfold parse
  cases ofTree? (lineCountOf text) (Java.read text) <;> simp [eq_comm]

theorem types_ofTree_eq_nil_iff (n : Nat) (root : Java.Tree) :
    (ofTree n root).types = [] ↔ ∀ t ∈ root.nodes, declaresType t = false := by
  rw [ofTree, Findings.types_ofTree, List.filterMap_eq_nil_iff]
  refine forall₂_congr fun t _ => ?_
  rw [← typeDecl?_isSome, Option.isSome_eq_false_iff, Option.isNone_iff_eq_none]

end SourceUnit

/-! ## Files that are refused -/

namespace Disk

variable {d : Disk} {path text : String} {e : AnalysisError}

theorem readText_of_find {node : FileTree} (h : d.find path = .ok node) :
    d.readText path = node.text := by
  rw [readText, h]
  rfl

/-- A text is loaded as the unit that it is parsed as. -/
theorem loadUnit_of_readText (htext : d.readText path = .ok text)
    (hjava : Path.isJava path = true) : d.loadUnit path = SourceUnit.parse path text := by
  cases hfind : d.find path with
  | error fault =>
    rw [readText, hfind] at htext
    cases htext
  | ok node =>
    rw [readText_of_find hfind] at htext
    simp only [loadUnit, hfind, hjava, htext, if_true]

/-- What is loaded was parsed from a text. -/
theorem parse_of_loadUnit {u : SourceUnit} (h : d.loadUnit path = .ok u) :
    Path.isJava path = true ∧ ∃ text, d.readText path = .ok text ∧
      SourceUnit.parse path text = .ok u := by
  unfold loadUnit at h
  split at h
  · cases h
  · rename_i node hfind
    split at h
    · rename_i hjava
      split at h
      · cases h
      · rename_i text htext
        exact ⟨hjava, text, (readText_of_find hfind).trans htext, h⟩
    · cases h

/-- What cannot be loaded stops. -/
theorem stops_of_loadUnit (h : d.loadUnit path = .error e) : d.Stops path e := by
  cases hfind : d.find path with
  | error fault =>
    simp only [loadUnit, hfind, Except.error.injEq] at h
    exact h ▸ .missing hfind
  | ok node =>
    cases hjava : Path.isJava path with
    | false =>
      simp only [loadUnit, hfind, hjava, Bool.false_eq_true, if_false, Except.error.injEq] at h
      exact h ▸ .unsupported hfind hjava
    | true =>
      cases htext : node.text with
      | error fault =>
        simp only [loadUnit, hfind, hjava, htext, if_true, Except.error.injEq] at h
        exact h ▸ .textless hfind hjava htext
      | ok text =>
        have hread : d.readText path = .ok text := (readText_of_find hfind).trans htext
        rw [loadUnit_of_readText hread hjava] at h
        obtain ⟨m, hm, rfl⟩ := SourceUnit.parse_eq_error_iff.mp h
        rcases SourceUnit.ofTree?_eq_error_iff.mp hm with ⟨hheight, rfl⟩ | ⟨hheight, herror, rfl⟩
        · exact .tooDeep hread hjava hheight
        · exact .faulty hread hjava hheight herror

end Disk

namespace Analyzer

variable {ν : Type} [Scale ν] (a : Analyzer) (load : Loader) (revision : Revision) (now : Timestamp)
  (d : Disk) {path : String} {e : AnalysisError}

/-- The analysis of a file fails with its loading, or since nothing in it declares a type. -/
theorem analyzeFile_eq_error_iff_load :
    (a.analyzeFile load revision now path : Except AnalysisError (FileMetadata ν)) = .error e ↔
      load path = .error e ∨
        ∃ u, load path = .ok u ∧ u.types = [] ∧ e = .noPrimaryType path := by
  unfold analyzeFile
  cases load path with
  | error fault => simp [bind, Except.bind]
  | ok u => simpa [bind, Except.bind] using analyzeUnit_eq_error_iff a revision now path u e

/-- **A file has an error exactly if it stops with that error.** -/
theorem analyzeFile_eq_error_iff :
    (a.analyzeFile d.loadUnit revision now path : Except AnalysisError (FileMetadata ν)) =
      .error e ↔ d.Stops path e := by
  rw [analyzeFile_eq_error_iff_load]
  constructor
  · rintro (h | ⟨u, hu, hnone, rfl⟩)
    · exact Disk.stops_of_loadUnit h
    · obtain ⟨hjava, text, htext, hparse⟩ := Disk.parse_of_loadUnit hu
      obtain ⟨hheight, herror, rfl⟩ := SourceUnit.parse_eq_ok_iff.mp hparse
      exact .untyped htext hjava hheight herror
        ((SourceUnit.types_ofTree_eq_nil_iff _ _).mp hnone)
  · intro h
    cases h with
    | missing h => simp [Disk.loadUnit, h]
    | unsupported h hjava => simp [Disk.loadUnit, h, hjava]
    | textless h hjava htext => simp [Disk.loadUnit, h, hjava, htext]
    | tooDeep htext hjava hheight =>
      rw [Disk.loadUnit_of_readText htext hjava]
      exact .inl (SourceUnit.parse_eq_error_iff.mpr
        ⟨_, SourceUnit.ofTree?_eq_error_iff.mpr (.inl ⟨hheight, rfl⟩), rfl⟩)
    | faulty htext hjava hheight herror =>
      rw [Disk.loadUnit_of_readText htext hjava]
      exact .inl (SourceUnit.parse_eq_error_iff.mpr
        ⟨_, SourceUnit.ofTree?_eq_error_iff.mpr (.inr ⟨hheight, herror, rfl⟩), rfl⟩)
    | untyped htext hjava hheight herror hnone =>
      rw [Disk.loadUnit_of_readText htext hjava]
      exact .inr ⟨_, SourceUnit.parse_eq_ok_iff.mpr ⟨hheight, herror, rfl⟩,
        (SourceUnit.types_ofTree_eq_nil_iff _ _).mpr hnone, rfl⟩

/-- The record of a file names the file. -/
theorem filePath_of_analyzeFile {m : FileMetadata ν}
    (h : a.analyzeFile load revision now path = .ok m) : m.filePath = path := by
  unfold analyzeFile at h
  cases hload : load path with
  | error e =>
    rw [hload] at h
    cases h
  | ok u =>
    rw [hload] at h
    change a.analyzeUnit revision now path u = .ok m at h
    unfold analyzeUnit at h
    cases hprimary : u.primaryType? with
    | none =>
      rw [hprimary] at h
      cases h
    | some primary =>
      rw [hprimary] at h
      cases h
      rfl

end Analyzer

/-! ## Obstacles -/

/-- What can stop a file, as a user is told. -/
inductive Obstacle where
  | unreadable
  | unsupported
  | malformed
  | untyped
  deriving DecidableEq, Repr

namespace Obstacle

/-- The label of an obstacle. -/
def kind : Obstacle → String
  | unreadable => "unreadable_source"
  | unsupported => "unsupported_language"
  | malformed => "malformed_unit"
  | untyped => "no_primary_type"

instance : Fintype Obstacle where
  elems := {.unreadable, .unsupported, .malformed, .untyped}
  complete o := by cases o <;> decide

theorem kind_injective : Function.Injective kind := by
  intro o o' h
  revert h
  cases o <;> cases o' <;> decide

end Obstacle

namespace Disk

/-- A file meets an obstacle. -/
def Meets (d : Disk) (path : String) : Obstacle → Prop
  -- nothing is there, or it is called a Java source and there is no text
  | .unreadable => (d.find path).isOk = false ∨
      Path.isJava path = true ∧ (d.readText path).isOk = false
  | .unsupported => (d.find path).isOk = true ∧ Path.isJava path = false
  | .malformed => Path.isJava path = true ∧ ∃ text, d.readText path = .ok text ∧
      (1000 < (Java.read text).height ∨ (Java.read text).hasError = true)
  | .untyped => Path.isJava path = true ∧ ∃ text, d.readText path = .ok text ∧
      (Java.read text).height ≤ 1000 ∧ (Java.read text).hasError = false ∧
      ∀ t ∈ (Java.read text).nodes, declaresType t = false

instance decidableOfText {ε : Type} {x : Except ε String} {P : String → Prop} [DecidablePred P] :
    Decidable (∃ text, x = .ok text ∧ P text) :=
  match x with
  | .error _ => .isFalse fun ⟨_, h, _⟩ => nomatch h
  | .ok text => decidable_of_iff (P text) ⟨fun h => ⟨text, rfl, h⟩, fun ⟨_, rfl, h⟩ => h⟩

instance (d : Disk) (path : String) : DecidablePred (d.Meets path)
  | .unreadable => inferInstanceAs (Decidable (_ ∨ _))
  | .unsupported => inferInstanceAs (Decidable (_ ∧ _))
  | .malformed => inferInstanceAs (Decidable (_ ∧ ∃ _, _ ∧ (_ ∨ _)))
  | .untyped => inferInstanceAs (Decidable (_ ∧ ∃ _, _ ∧ _ ∧ _ ∧ ∀ _ ∈ _, _))

variable {d : Disk} {path text : String} {e e' : AnalysisError} {o o' : Obstacle}

/-- **A file meets the obstacle whose label its error bears.** -/
theorem meets_iff : d.Meets path o ↔ ∃ e, d.Stops path e ∧ e.kind = o.kind := by
  constructor
  · intro h
    cases o with
    | unreadable =>
      cases hfind : d.find path with
      | error fault => exact ⟨_, .missing hfind, rfl⟩
      | ok node =>
        obtain ⟨hjava, htext⟩ := h.resolve_left (by simp [hfind, Except.isOk, Except.toBool])
        rw [readText_of_find hfind] at htext
        cases hnode : node.text with
        | error fault => exact ⟨_, .textless hfind hjava hnode, rfl⟩
        | ok text => simp [hnode, Except.isOk, Except.toBool] at htext
    | unsupported =>
      obtain ⟨hthere, hjava⟩ := h
      cases hfind : d.find path with
      | error fault => simp [hfind, Except.isOk, Except.toBool] at hthere
      | ok node => exact ⟨_, .unsupported hfind hjava, rfl⟩
    | malformed =>
      obtain ⟨hjava, text, htext, hmalformed⟩ := h
      by_cases hheight : maxTreeHeight < (Java.read text).height
      · exact ⟨_, .tooDeep htext hjava hheight, rfl⟩
      · exact ⟨_, .faulty htext hjava (Nat.le_of_not_lt hheight)
          (hmalformed.resolve_left hheight), rfl⟩
    | untyped =>
      obtain ⟨hjava, text, htext, hheight, herror, hnone⟩ := h
      exact ⟨_, .untyped htext hjava hheight herror hnone, rfl⟩
  · rintro ⟨e, hstops, hkind⟩
    cases hstops with
    | missing h =>
      obtain rfl : Obstacle.unreadable = o := Obstacle.kind_injective hkind
      exact .inl (by rw [h]; rfl)
    | textless h hjava htext =>
      obtain rfl : Obstacle.unreadable = o := Obstacle.kind_injective hkind
      exact .inr ⟨hjava, by rw [readText_of_find h, htext]; rfl⟩
    | unsupported h hjava =>
      obtain rfl : Obstacle.unsupported = o := Obstacle.kind_injective hkind
      exact ⟨by rw [h]; rfl, hjava⟩
    | tooDeep htext hjava hheight =>
      obtain rfl : Obstacle.malformed = o := Obstacle.kind_injective hkind
      exact ⟨hjava, _, htext, .inl hheight⟩
    | faulty htext hjava hheight herror =>
      obtain rfl : Obstacle.malformed = o := Obstacle.kind_injective hkind
      exact ⟨hjava, _, htext, .inr herror⟩
    | untyped htext hjava hheight herror hnone =>
      obtain rfl : Obstacle.untyped = o := Obstacle.kind_injective hkind
      exact ⟨hjava, _, htext, hheight, herror, hnone⟩

/-- A file stops in one way only. -/
theorem Stops.unique (h : d.Stops path e) (h' : d.Stops path e') : e = e' := by
  have hfails (e : AnalysisError) : _ ↔ d.Stops path e :=
    Analyzer.analyzeFile_eq_error_iff (ν := Float) {} ⟨"", ""⟩ ⟨0, 0, 0⟩ d
  exact Except.error.inj (((hfails e).mpr h).symm.trans ((hfails e').mpr h'))

/-- **No file meets two obstacles.** -/
theorem meets_unique (h : d.Meets path o) (h' : d.Meets path o') : o = o' := by
  obtain ⟨e, he, hkind⟩ := meets_iff.mp h
  obtain ⟨e', he', hkind'⟩ := meets_iff.mp h'
  obtain rfl := he.unique he'
  exact Obstacle.kind_injective (hkind.symm.trans hkind')

/-- What stops a file is an obstacle that it meets. -/
theorem Stops.exists_meets (h : d.Stops path e) : ∃ o, d.Meets path o ∧ e.kind = o.kind := by
  have hkind : ∃ o : Obstacle, e.kind = o.kind := by
    cases h with
    | missing | textless => exact ⟨.unreadable, rfl⟩
    | unsupported => exact ⟨.unsupported, rfl⟩
    | tooDeep | faulty => exact ⟨.malformed, rfl⟩
    | untyped => exact ⟨.untyped, rfl⟩
  obtain ⟨o, ho⟩ := hkind
  exact ⟨o, meets_iff.mpr ⟨e, h, ho⟩, ho⟩

/-- The text of an error has the path in it. -/
theorem Stops.path_in_message (h : d.Stops path e) :
    ∃ before after, e.message = before ++ path ++ after := by
  cases h with
  | missing | textless => exact ⟨_, _, AnalysisError.message_unreadableSource path _⟩
  | unsupported => exact ⟨_, _, AnalysisError.message_unsupportedLanguage path _⟩
  | tooDeep | faulty => exact ⟨_, _, AnalysisError.message_malformedUnit path _⟩
  | untyped => exact ⟨_, _, AnalysisError.message_noPrimaryType path⟩

/-- Of a tree that is too high the height is reported, whether or not there is an error in it. -/
theorem Stops.eq_of_tooDeep (h : d.Stops path e) (hkind : e.kind = Obstacle.malformed.kind)
    (htext : d.readText path = .ok text) (hheight : 1000 < (Java.read text).height) :
    e = .malformedUnit path
      ("syntax nesting depth " ++ toString (Java.read text).height ++ " exceeds limit of 1000") := by
  cases h with
  | missing | textless | unsupported | untyped =>
    simp [AnalysisError.kind, Obstacle.kind] at hkind
  | tooDeep htext' =>
    obtain rfl := Except.ok.inj (htext'.symm.trans htext)
    rw [Malformation.message_tooDeep]
  | faulty htext' _ hlow =>
    obtain rfl := Except.ok.inj (htext'.symm.trans htext)
    exact absurd hlow (Nat.not_le.mpr hheight)

end Disk

end CodeRisk
