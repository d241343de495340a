import CodeRisk.Proofs.Batch.Failures
import CodeRisk.Proofs.File.Reach

/-!
# Batches of expanded arguments

A user names files and directories; a batch takes the files and, in place of each directory, what a
search finds there. The search and the loader decide each for itself what is there and what is a
Java source. They agree: what the search has found the loader neither misses nor turns down for its
name, so a batch has such failures only at files that the user named
(`Analyzer.failures_of_expanded`).
-/
namespace CodeRisk

namespace Disk

/-- Whether a path leads to a directory, be it one that may not be read. -/
def isDirectory (d : Disk) (path : String) : Bool :=
  match d.find path with
  | .ok (.directory _) | .ok .locked => true
  | _ => false

variable {d : Disk} {maxDepth : Nat} {path : String} {e : AnalysisError}

theorem expand_eq (d : Disk) (maxDepth : Nat) (args : List String) :
    d.expand maxDepth args =
      args.flatMap fun arg => if d.isDirectory arg then d.javaFiles maxDepth arg else [arg] := by
  refine List.flatMap_congr fun arg _ => ?_
  unfold isDirectory
  split <;> simp_all

theorem expand_append_cons (before after : List String) {arg : String}
    (h : d.isDirectory arg = false) :
    d.expand maxDepth (before ++ arg :: after) =
      d.expand maxDepth before ++ arg :: d.expand maxDepth after := by
  rw [expand_eq, expand_eq, expand_eq, List.flatMap_append, List.flatMap_cons, h]
  rfl

/-- What an expansion gives was named itself or found under a directory that was named. -/
theorem mem_expand {args : List String} (h : path ∈ d.expand maxDepth args) :
    (path ∈ args ∧ d.isDirectory path = false) ∨
      ∃ arg ∈ args, d.isDirectory arg = true ∧ path ∈ d.javaFiles maxDepth arg := by
  rw [expand_eq, List.mem_flatMap] at h
  obtain ⟨arg, harg, h⟩ := h
  cases hdirectory : d.isDirectory arg with
  | true =>
    rw [hdirectory, if_pos rfl] at h
    exact .inr ⟨arg, harg, hdirectory, h⟩
  | false =>
    rw [hdirectory, if_neg Bool.false_ne_true, List.mem_singleton] at h
    subst h
    exact .inl ⟨harg, hdirectory⟩

end Disk

/-- A failure tells that its file is not there or is no source. -/
def BatchFailure.IsStray (f : BatchFailure) : Prop :=
  f.kind = "unsupported_language" ∨
    f.reason = (AnalysisError.unreadableSource f.path "file not found").message

/-- The reason of a failure that is not stray begins otherwise or has another end. -/
theorem AnalysisError.not_isStray_of_head {path : String} {e : AnalysisError}
    (hkind : e.kind ≠ "unsupported_language") (hhead : e.message.toList.head? ≠ some 'c') :
    ¬(e.failure path).IsStray := by
  rintro (h | h)
  · exact hkind h
  · change e.message = _ at h
    refine hhead ?_
    rw [h, message_unreadableSource]
    simp

/-- **What a search has found does not stray.** -/
theorem Disk.Stops.not_isStray {d : Disk} {path : String} {e : AnalysisError} (h : d.Stops path e)
    {text : Option String} (hfind : d.find path = .ok (.file text))
    (hjava : Path.isJava path = true) : ¬(e.failure path).IsStray := by
  cases h with
  | missing h => cases h.symm.trans hfind
  | unsupported h hjava' => exact absurd (hjava'.symm.trans hjava) Bool.false_ne_true
  | textless h _ htext =>
    obtain rfl := Except.ok.inj (h.symm.trans hfind)
    cases text with
    | none =>
      cases htext
      rintro (h | h)
      · simp [AnalysisError.failure, AnalysisError.kind] at h
      · simp only [AnalysisError.failure, AnalysisError.message_unreadableSource,
          String.append_right_inj] at h
        exact absurd h (by decide)
    | some text => cases htext
  | tooDeep | faulty =>
    refine AnalysisError.not_isStray_of_head (by simp [AnalysisError.kind]) ?_
    rw [AnalysisError.message_malformedUnit]
    simp
  | untyped =>
    refine AnalysisError.not_isStray_of_head (by simp [AnalysisError.kind]) ?_
    rw [AnalysisError.message_noPrimaryType]
    simp

namespace Analyzer

open BatchEvent

variable {ν : Type} [Scale ν]

/-- **Search and loader agree.** The paths of a batch are the arguments in their order, with what a
search finds in the place of each directory. An argument that is no directory has one slot, behind
those of the arguments before it. No path that a search has found fails as missing or for its
extension, so each such failure is that of an argument. -/
theorem failures_of_expanded (d : Disk) (maxDepth : Nat) (args : List String)
    (hproper : d.root.IsProper) (a : Analyzer) (revision : Revision) (now : Timestamp)
    (events : List BatchEvent) (hschedule : IsSchedule (d.expand maxDepth args).length events) :
    let paths := d.expand maxDepth args
    let outcome : Bool → String → FileOutcome ν := a.outcome d.loadUnit revision now
    let report : BatchReport ν := a.analyzeBatchDuring d.loadUnit revision now events paths
    paths = args.flatMap (fun arg =>
      if d.isDirectory arg then d.javaFiles maxDepth arg else [arg]) ∧
    (∀ before arg after, args = before ++ arg :: after → d.isDirectory arg = false →
      let place := (d.expand maxDepth before).length
      paths = d.expand maxDepth before ++ arg :: d.expand maxDepth after ∧
      (BatchRun.run outcome paths.toArray a.cancelled events).slots[place]? =
        some (some (outcome (flagAtStart a.cancelled events place) arg))) ∧
    (∀ arg ∈ args, d.isDirectory arg = true → ∀ path ∈ d.javaFiles maxDepth arg, ∀ e,
      (a.analyzeFile d.loadUnit revision now path : Except AnalysisError (FileMetadata ν)) =
        .error e → ¬(e.failure path).IsStray) ∧
    ∀ f ∈ report.failures, f.IsStray → f.path ∈ args ∧ d.isDirectory f.path = false := by
  intro paths outcome report
  have hfound (arg path : String) (h : path ∈ d.javaFiles maxDepth arg) (e : AnalysisError)
      (he : d.Stops path e) : ¬(e.failure path).IsStray := by
    obtain ⟨⟨text, hfind⟩, hjava⟩ := Disk.find_of_mem_javaFiles hproper h
    exact he.not_isStray hfind hjava
  refine ⟨d.expand_eq maxDepth args, ?place, ?found, ?stray⟩
  case place =>
    intro before arg after hargs harg place
    have hpaths : paths = d.expand maxDepth before ++ arg :: d.expand maxDepth after := by
      rw [← Disk.expand_append_cons before after harg, ← hargs]
    have hplace : paths[place]? = some arg := by
      rw [hpaths, List.getElem?_append_right (Nat.le_refl _), Nat.sub_self]
      rfl
    exact ⟨hpaths, (BatchRun.slot_run hschedule place).trans (congrArg (Option.map _) hplace)⟩
  case found =>
    intro arg _ _ path hpath e he
    exact hfound arg path hpath e ((analyzeFile_eq_error_iff a revision now d).mp he)
  case stray =>
    intro f hf hstray
    obtain ⟨hpath, e, hstops, hfailure⟩ := stops_of_mem_failures a revision now d hschedule hf
    rcases Disk.mem_expand hpath with hnamed | ⟨arg, -, -, hmem⟩
    · exact hnamed
    · exact absurd (hfailure ▸ hstray) (hfound arg f.path hmem e hstops)

/-- A directory with a source that is no text, another directory that is called a source, and a
hidden note. -/
def sampleShop : Disk :=
  ⟨.directory [("shop", .directory [
    ("A.JAVA", .file none),
    ("B.java", .directory []),
    (".note", .file (some "to do"))])], []⟩

theorem failures_of_expanded_sample :
    let args := ["Gone.java", "shop/", "shop/.note"]
    let paths := sampleShop.expand 10 args
    let events : List BatchEvent := [.start 2, .start 0, .store true, .start 1]
    let report : BatchReport Float :=
      ({} : Analyzer).analyzeBatchDuring sampleShop.loadUnit ⟨"", "main"⟩ ⟨0, 0, 0⟩ events paths
    sampleShop.root.IsProper ∧ paths = ["Gone.java", "shop/A.JAVA", "shop/.note"] ∧
      IsSchedule paths.length events ∧
      ∀ f ∈ report.failures, f.IsStray → f.path = "Gone.java" ∨ f.path = "shop/.note" := by
  intro args paths events report
  have hproper : sampleShop.root.IsProper := by
    refine .directory (by decide) (by decide) fun e he => ?_
    obtain rfl := List.mem_singleton.mp he
    refine .directory (by decide) (by decide) fun e he => ?_
    simp only [List.mem_cons, List.not_mem_nil, or_false] at he
    rcases he with rfl | rfl | rfl
    · exact .file none
    · exact .directory (by decide) (by decide) nofun
    · exact .file (some "to do")
  have hsorted : [["A.JAVA"]].Pairwise (· < ·) := List.pairwise_singleton _ _
  have hfound : sampleShop.javaFiles 10 "shop/" = ["shop/A.JAVA"] :=
    Disk.javaFiles_eq_of_perm rfl hsorted (by decide +kernel)
  have hpaths : paths = ["Gone.java", "shop/A.JAVA", "shop/.note"] := by
    have hexpand : paths = ["Gone.java"] ++ sampleShop.javaFiles 10 "shop/" ++ ["shop/.note"] := rfl
    rw [hexpand, hfound]
    rfl
  have hschedule : IsSchedule paths.length events := by
    rw [hpaths]
    decide
  refine ⟨hproper, hpaths, hschedule, fun f hf h => ?_⟩
  obtain ⟨-, -, -, hstray⟩ := failures_of_expanded (ν := Float) sampleShop 10 args hproper {}
    ⟨"", "main"⟩ ⟨0, 0, 0⟩ events hschedule
  obtain ⟨hnamed, hplain⟩ := hstray f hf h
  simp only [args, List.mem_cons, List.not_mem_nil, or_false] at hnamed
  rcases hnamed with hnamed | hnamed | hnamed
  · exact .inl hnamed
  · rw [hnamed] at hplain
    exact absurd hplain (by decide)
  · exact .inr hnamed

end Analyzer

end CodeRisk
