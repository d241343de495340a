import CodeRisk.Proofs.CommandLine.Run

/-!
# Overrides

However often settings are overridden, it comes to one override, by the values that were given last
(`overridden_eq`). So much is exact. But only a file is asked whether there is a worker: a number of
workers from the command line takes its place unseen. Settings therefore stay valid exactly as long
as zero is not the last number that was given (`isValid_overridden_iff`), and the settings of a run
are valid exactly if its words do not say zero.
-/
namespace CodeRisk
open CommandLine

namespace Config

/-- What is put in the place of settings; without a value they stay as they are. -/
structure Override where
  jobs : Option Nat := none
  maxDepth : Option Nat := none
  deriving DecidableEq, Repr

/-- The override by the values that were given last. -/
def Override.last (os : List Override) : Override where
  jobs := (os.filterMap jobs).getLast?
  maxDepth := (os.filterMap maxDepth).getLast?

/-- The settings after some overrides, one after the other. -/
def overridden (c : Config) (os : List Override) : Config :=
  os.foldl (fun c o => c.withOverrides o.jobs o.maxDepth) c

variable {c : Config} {os : List Override} {jobs maxDepth : Option Nat}

/-! ## Values -/

/-- **Two overrides** are one, by the values of the second and, where it has none, of the first. -/
theorem withOverrides_withOverrides (c : Config) (jobs maxDepth jobs' maxDepth' : Option Nat) :
    (c.withOverrides jobs maxDepth).withOverrides jobs' maxDepth' =
      c.withOverrides (jobs' <|> jobs) (maxDepth' <|> maxDepth) := by
  cases jobs' <;> cases maxDepth' <;> rfl

/-- The first of some values is the last one only if no other is given. -/
theorem getLast?_filterMap_cons {α β : Type} (f : α → Option β) (x : α) (xs : List α) :
    ((x :: xs).filterMap f).getLast? = ((xs.filterMap f).getLast? <|> f x) := by
  cases hx : f x with
  | none =>
    rw [List.filterMap_cons_none hx]
    cases (xs.filterMap f).getLast? <;> rfl
  | some y =>
    rw [List.filterMap_cons_some hx, List.getLast?_cons]
    cases (xs.filterMap f).getLast? <;> rfl

/-- **Any number of overrides** is one. -/
theorem overridden_eq (c : Config) (os : List Override) :
    c.overridden os = c.withOverrides (Override.last os).jobs (Override.last os).maxDepth := by
  induction os generalizing c with
  | nil => rfl
  | cons o os ih =>
    have hcons : c.overridden (o :: os) =
        (c.withOverrides o.jobs o.maxDepth).overridden os := rfl
    rw [hcons, ih, withOverrides_withOverrides]
    simp only [Override.last, getLast?_filterMap_cons]

/-! ## Validity -/

theorem isValid_iff : c.isValid = true ↔ c.jobs ≠ some 0 :=
  bne_iff_ne

/-- Valid settings stay valid exactly if the command line does not ask for no workers. -/
theorem isValid_withOverrides_iff (h : c.isValid = true) :
    (c.withOverrides jobs maxDepth).isValid = true ↔ jobs ≠ some 0 := by
  rw [isValid_iff] at h ⊢
  cases jobs with
  | none => exact ⟨nofun, fun _ => h⟩
  | some n => rfl

theorem isValid_overridden_iff (h : c.isValid = true) :
    (c.overridden os).isValid = true ↔ (os.filterMap Override.jobs).getLast? ≠ some 0 := by
  rw [overridden_eq, isValid_withOverrides_iff h]
  rfl

theorem eq_ok_of_toOption {ε α : Type} {r : Except ε α} {x : α} (h : r.toOption = some x) :
    r = .ok x := by
  cases r with
  | error e => cases h
  | ok y => exact congrArg Except.ok (Option.some.inj h)

/-- **What is read from a file** is valid. -/
theorem isValid_of_parse {text : String} (h : parse text = .ok c) : c.isValid = true := by
  unfold parse at h
  split at h
  next => cases h
  next =>
    split at h
    next => cases h
    next =>
      split at h
      next hvalid =>
        cases h
        exact hvalid
      next => cases h

/-- An analyzer takes over the number of workers as it is. It would get the same number when set by
itself exactly if the settings are valid: set to zero, it takes the number as not given. -/
theorem jobs_ofConfig_eq_withJobs_iff (a : Analyzer) :
    (Analyzer.ofConfig c).jobs = (a.withJobs c.jobs).jobs ↔ c.isValid = true := by
  rw [isValid_iff]
  show c.jobs = c.jobs.filter (0 < ·) ↔ _
  match c.jobs with
  | none => exact ⟨nofun, fun _ => rfl⟩
  | some 0 => exact ⟨nofun, fun h => absurd rfl h⟩
  | some (n + 1) => exact ⟨nofun, fun _ => rfl⟩

end Config

/-! ## Settings of a run -/

namespace CommandLine

variable {disk : Disk} {args : Arguments} {c : Config}

/-- What the command line overrides is valid. -/
theorem isValid_of_underlies (h : Underlies disk args c) : c.isValid = true := by
  unfold Underlies at h
  split at h
  next =>
    subst h
    rfl
  next path _ =>
    unfold Disk.loadConfig at h
    split at h
    next => cases h
    next => exact Config.isValid_of_parse h

end CommandLine

namespace Config

/-- **Overrides are exact, and they are not validated.** After any number of them each value is the
one that was given last, and without one it is what it was; two of them are the second with the
first to fall back on; and the prefixes of the platform never change. Settings that are read from a
text, and the usual ones, are valid, and overrides keep them so exactly if zero is not the last
number of workers that they give. So the settings of a run, which are those of a file or the usual
ones with one override, are valid exactly if the command line does not say zero; and otherwise its
analyzer holds a number of workers that it would not take when set by itself. -/
theorem overrides_exact (c : Config) (os : List Override) :
    ((c.overridden os).jobs = ((os.filterMap Override.jobs).getLast? <|> c.jobs) ∧
      (c.overridden os).maxDepth = (os.filterMap Override.maxDepth).getLast?.getD c.maxDepth ∧
      (c.overridden os).extraPlatformPrefixes = c.extraPlatformPrefixes) ∧
    (∀ o o' : Override, c.overridden [o, o'] =
      c.withOverrides (o'.jobs <|> o.jobs) (o'.maxDepth <|> o.maxDepth)) ∧
    ((c = {} ∨ ∃ text, parse text = .ok c) → c.isValid = true ∧
      ((c.overridden os).isValid = true ↔ (os.filterMap Override.jobs).getLast? ≠ some 0)) ∧
    ∀ (disk : Disk) (args : Arguments), settings disk args = .ok c →
      (∃ base, Underlies disk args base ∧ base.isValid = true ∧
        c = base.overridden [⟨args.jobs, args.maxDepth⟩]) ∧
      (c.isValid = true ↔ args.jobs ≠ some 0) ∧
      ∀ a : Analyzer, (Analyzer.ofConfig c).jobs = (a.withJobs c.jobs).jobs ↔
        args.jobs ≠ some 0 := by
  refine ⟨?values, fun o o' => withOverrides_withOverrides .., fun h => ?valid,
    fun disk args h => ?run⟩
  case values =>
    rw [overridden_eq]
    exact ⟨rfl, rfl, rfl⟩
  case valid =>
    have hvalid : c.isValid = true := by
      rcases h with rfl | ⟨text, htext⟩
      · rfl
      · exact isValid_of_parse htext
    exact ⟨hvalid, isValid_overridden_iff hvalid⟩
  case run =>
    obtain ⟨base, hbase, hc⟩ := settings_eq_ok_iff.mp h
    have hvalid := isValid_of_underlies hbase
    have hzero : c.isValid = true ↔ args.jobs ≠ some 0 :=
      hc ▸ isValid_withOverrides_iff hvalid
    exact ⟨⟨base, hbase, hvalid, hc⟩, hzero,
      fun a => (jobs_ofConfig_eq_withJobs_iff a).trans hzero⟩

/-- A file with four workers and a depth of three, two overrides after which there are two workers
and a depth of five, and a run that names this file and gives the depth alone. -/
theorem overrides_exact_sample :
    parse "jobs = 4\nmax_depth = 3\n" = .ok ⟨[], some 4, 3⟩ ∧
    (overridden ⟨[], some 4, 3⟩ [⟨some 2, some 7⟩, ⟨none, some 5⟩]) = ⟨[], some 2, 5⟩ ∧
    (overridden ⟨[], some 4, 3⟩ [⟨some 2, some 7⟩, ⟨none, some 5⟩]).isValid = true ∧
    arguments {} ["-c", "settings.toml", "--max-depth", "5", "A.java"] =
      .ok ⟨["A.java"], "", "main", .text, some "settings.toml", none, some 5, 0⟩ ∧
    ∃ c, settings ⟨.directory [("settings.toml", .file (some "jobs = 4\nmax_depth = 3\n"))], []⟩
        ⟨["A.java"], "", "main", .text, some "settings.toml", none, some 5, 0⟩ = .ok c ∧
      c = ⟨[], some 4, 5⟩ ∧ c.isValid = true := by
  have hparse : parse "jobs = 4\nmax_depth = 3\n" = .ok ⟨[], some 4, 3⟩ :=
    eq_ok_of_toOption (by decide +kernel)
  have hsettings :
      settings ⟨.directory [("settings.toml", .file (some "jobs = 4\nmax_depth = 3\n"))], []⟩
        ⟨["A.java"], "", "main", .text, some "settings.toml", none, some 5, 0⟩ =
        .ok ⟨[], some 4, 5⟩ :=
    eq_ok_of_toOption (by decide +kernel)
  obtain ⟨-, -, hvalid, -⟩ :=
    overrides_exact ⟨[], some 4, 3⟩ [⟨some 2, some 7⟩, ⟨none, some 5⟩]
  obtain ⟨-, -, -, hrun⟩ := overrides_exact ⟨[], some 4, 5⟩ []
  obtain ⟨-, hrunValid, -⟩ := hrun _ _ hsettings
  exact ⟨hparse, rfl, (hvalid (.inr ⟨_, hparse⟩)).2.mpr nofun, rfl, _, hsettings, rfl,
    hrunValid.mpr nofun⟩

/-- Without a file the command line is free to ask for no workers, and the settings of the run hold
its zero; a file that says the same is refused. -/
theorem zero_workers_accepted :
    parse "" = .ok {} ∧ (({} : Config).withOverrides (some 0) none).isValid = false ∧
    (parse "jobs = 0").toOption = none ∧
    ∃ args, arguments {} ["--jobs", "0", "A.java"] = .ok args ∧
      ∃ c, settings ⟨.directory [], []⟩ args = .ok c ∧ c.jobs = some 0 ∧ c.isValid = false :=
  ⟨rfl, rfl, by decide +kernel, _, rfl, _, rfl, rfl, rfl⟩

end Config

end CodeRisk
