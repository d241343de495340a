import CodeRisk.Proofs.Dependency
import CodeRisk.Proofs.FloatScale
import Mathlib.Data.Set.Card

/-!
# The platform

Prefixes are brought to an inspector in calls, each with a list of them. Whatever the calls, the
inspector holds the prefixes of all calls but the empty ones (`extraPrefixes_extended`). These and
the usual ones make up the platform, and an import is local to the project if it begins with no
prefix of the platform (`isProjectLocal_extended`). All else follows from this: how the prefixes
came makes no difference, more prefixes leave fewer dependencies, and a prefix that only says more
than one that is there already changes nothing (`inspect_extended`).
-/
namespace CodeRisk
namespace DependencyInspector

/-- The inspector after some calls, each of which brings a list of prefixes. -/
def extended (calls : List (List String)) : DependencyInspector :=
  calls.foldl withExtraPrefixes {}

/-- The prefixes that some calls bring; an empty one is none. -/
def brought (calls : List (List String)) : Set String :=
  {p | p ≠ "" ∧ ∃ call ∈ calls, p ∈ call}

/-- All prefixes of the platform after some calls. -/
def platform (calls : List (List String)) : Set String :=
  {"java.", "javax.", "org.springframework", "org.slf4j", "lombok"} ∪ brought calls

/-- The imports that begin with none of the prefixes. -/
def outside (prefixes : Set String) (imports : List String) : Set String :=
  {x | x ∈ imports ∧ ∀ p ∈ prefixes, ¬ p.toList <+: x.toList}

variable {calls calls' : List (List String)} {imports : List String}

/-! ## What the inspector holds -/

/-- **A call adds** its prefixes but the empty ones behind all others. -/
theorem extraPrefixes_foldl (d : DependencyInspector) (calls : List (List String)) :
    (calls.foldl withExtraPrefixes d).extraPrefixes =
      d.extraPrefixes ++ calls.flatMap fun call => call.filter fun p => p != "" := by
  induction calls generalizing d with
  | nil => simp
  | cons call calls ih =>
    rw [List.foldl_cons, ih, List.flatMap_cons, ← List.append_assoc]
    rfl

theorem extraPrefixes_extended (calls : List (List String)) :
    (extended calls).extraPrefixes =
      calls.flatMap fun call => call.filter fun p => p != "" :=
  extraPrefixes_foldl {} calls

theorem mem_extraPrefixes_extended {p : String} :
    p ∈ (extended calls).extraPrefixes ↔ p ∈ brought calls := by
  simp only [extraPrefixes_extended, List.mem_flatMap, List.mem_filter, bne_iff_ne]
  constructor
  · rintro ⟨call, hcall, hp, hne⟩
    exact ⟨hne, call, hcall, hp⟩
  · rintro ⟨hne, call, hcall, hp⟩
    exact ⟨call, hcall, hp, hne⟩

/-- **An import is local** if it begins with no prefix of the platform. -/
theorem isProjectLocal_extended {x : String} :
    (extended calls).isProjectLocal x = true ↔ ∀ p ∈ platform calls, ¬ p.toList <+: x.toList := by
  have hplatform (p : String) :
      p ∈ platform calls ↔ p ∈ platformPrefixes ∨ p ∈ (extended calls).extraPrefixes := by
    simp [platform, platformPrefixes, mem_extraPrefixes_extended, or_assoc]
  simp only [hplatform, isProjectLocal, Text.startsWith, Bool.and_eq_true, Bool.not_eq_true',
    List.any_eq_false, List.isPrefixOf_iff_prefix, or_imp, forall_and]

/-! ## What is outside the platform -/

theorem brought_append : brought (calls ++ calls') = brought calls ∪ brought calls' := by
  ext p
  simp only [brought, Set.mem_union, Set.mem_ofPred_eq, List.mem_append, or_and_right, exists_or,
    and_or_left]

theorem platform_append : platform (calls ++ calls') = platform calls ∪ brought calls' := by
  rw [platform, platform, brought_append, Set.union_assoc]

/-- The outgoing dependencies are the imports outside the platform. -/
theorem mem_outgoing_extended {x : String} :
    x ∈ ((extended calls).outgoing imports).toList ↔ x ∈ outside (platform calls) imports := by
  rw [mem_outgoing, isProjectLocal_extended, outside, Set.mem_ofPred_eq]

theorem size_outgoing_extended :
    ((extended calls).outgoing imports).size = (outside (platform calls) imports).ncard := by
  have hset : outside (platform calls) imports =
      ((extended calls).outgoing imports).toList.toFinset := by
    ext x
    rw [List.coe_toFinset, Set.mem_ofPred_eq, mem_outgoing_extended]
  rw [hset, Set.ncard_coe_finset, List.toFinset_card_of_nodup (StringSet.nodup_toList _)]
  rfl

/-- More prefixes leave fewer imports outside. -/
theorem outside_subset {prefixes prefixes' : Set String} (h : prefixes ⊆ prefixes') :
    outside prefixes' imports ⊆ outside prefixes imports :=
  fun _ ⟨hmem, houtside⟩ => ⟨hmem, fun p hp => houtside p (h hp)⟩

/-- A prefix that begins with one of the others leaves no fewer imports outside. -/
theorem outside_union {prefixes more : Set String}
    (h : ∀ p ∈ more, ∃ q ∈ prefixes, q.toList <+: p.toList) :
    outside (prefixes ∪ more) imports = outside prefixes imports := by
  refine Set.Subset.antisymm (outside_subset Set.subset_union_left) ?_
  rintro x ⟨hmem, houtside⟩
  refine ⟨hmem, ?_⟩
  rintro p (hp | hp) hprefix
  · exact houtside p hp hprefix
  · obtain ⟨q, hq, hqp⟩ := h p hp
    exact houtside q hq (hqp.trans hprefix)

/-- The impact depends on the imports outside the platform only. -/
theorem inspect_extended_congr {ν : Type} [Scale ν] {imports' : List String}
    (h : outside (platform calls') imports' = outside (platform calls) imports) :
    ((extended calls').inspect imports' : DependencyImpact ν) =
      (extended calls).inspect imports := by
  refine inspect_congr (StringSet.ext fun x => ?_)
  show x ∈ ((extended calls').outgoing imports').toList ↔
    x ∈ ((extended calls).outgoing imports).toList
  rw [mem_outgoing_extended, mem_outgoing_extended, h]

/-! ## Instability -/

/-- In floating point, too, the share of the outgoing dependencies is all or nothing. -/
theorem instability_float (d : DependencyInspector) (imports : List String) :
    (d.inspect imports : DependencyImpact Float).instability =
      if (d.inspect imports : DependencyImpact Float).fanOut = 0 then 0.0 else 1.0 := by
  generalize hfan : (d.inspect imports : DependencyImpact Float).fanOut = n
  have hshare : (d.inspect imports : DependencyImpact Float).instability =
      if n + 0 = 0 then 0.0 else Float.ofNat n.toNat / Float.ofNat (n + 0).toNat := hfan ▸ rfl
  rw [hshare, UInt32.add_zero]
  by_cases hzero : n = 0
  · rw [if_pos hzero, if_pos hzero]
  · have hpos : 0 < n.toNat := UInt32.lt_iff_toNat_lt.mp (UInt32.pos_iff_ne_zero.mpr hzero)
    have hsmall : n.toNat < 2 ^ 53 := n.toNat_lt.trans (by decide)
    rw [if_neg hzero, if_neg hzero, FloatScale.ofNat_div_self hpos hsmall]

/-- **The dependencies of a file, whatever prefixes came in whatever calls.** They are the imports
that begin with none of the usual prefixes and with none of those that were brought, empty ones
apart. So all that is said of them depends on which imports there are and which prefixes were
brought, and on nothing else; more calls only take dependencies away, and take none away if they
bring nothing but prefixes that begin with one that is there already. The fan-out is the number of
these imports, each counted once, as long as it fits into a counter; then the instability is one if
there is such an import, and zero otherwise. -/
theorem inspect_extended (calls : List (List String)) (imports : List String) :
    let impact (calls : List (List String)) (imports : List String) : DependencyImpact Float :=
      (extended calls).inspect imports
    let project := outside (platform calls) imports
    (∀ x, x ∈ (impact calls imports).outgoing.toList ↔ x ∈ project) ∧
    (∀ calls' imports', brought calls' = brought calls → (∀ x, x ∈ imports' ↔ x ∈ imports) →
      impact calls' imports' = impact calls imports) ∧
    (∀ more, (impact (calls ++ more) imports).outgoing.toList ⊆
      (impact calls imports).outgoing.toList) ∧
    (∀ more, (∀ p ∈ brought more, ∃ q ∈ platform calls, q.toList <+: p.toList) →
      impact (calls ++ more) imports = impact calls imports) ∧
    (impact calls imports).fanIn = 0 ∧
    (project.ncard < Counter.limit →
      (impact calls imports).fanOut.toNat = project.ncard ∧
      ((impact calls imports).instability = 1.0 ↔ project.Nonempty) ∧
      ((impact calls imports).instability = 0.0 ↔ ¬ project.Nonempty)) := by
  intro impact project
  have hmem (calls : List (List String)) (x : String) :
      x ∈ (impact calls imports).outgoing.toList ↔ x ∈ outside (platform calls) imports :=
    mem_outgoing_extended
  refine ⟨hmem calls, ?_, ?_, ?_, rfl, ?_⟩
  · intro calls' imports' hbrought himports
    refine inspect_extended_congr ?_
    simp only [outside, platform, hbrought, himports]
  · intro more x hx
    rw [hmem, platform_append] at hx
    exact (hmem calls x).mpr (outside_subset Set.subset_union_left hx)
  · intro more hmore
    refine inspect_extended_congr ?_
    rw [platform_append, outside_union hmore]
  · intro hlimit
    rw [← size_outgoing_extended] at hlimit
    have hfanOut : (impact calls imports).fanOut.toNat = project.ncard := by
      rw [← size_outgoing_extended]
      exact toNat_fanOut (extended calls) hlimit
    have hfinite : project.Finite :=
      (List.finite_toSet imports).subset fun x hx => hx.1
    have hzero : (impact calls imports).fanOut = 0 ↔ ¬ project.Nonempty := by
      rw [← UInt32.toNat_inj, hfanOut, Set.not_nonempty_iff_eq_empty, ← Set.ncard_eq_zero hfinite]
      rfl
    have hone : (1.0 : Float) ≠ 0.0 := by decide
    refine ⟨hfanOut, ?_⟩
    rw [show (impact calls imports).instability = _ from instability_float _ _]
    by_cases hnonempty : project.Nonempty
    · rw [if_neg (fun h => hzero.mp h hnonempty)]
      exact ⟨iff_of_true rfl hnonempty, iff_of_false hone (not_not_intro hnonempty)⟩
    · rw [if_pos (hzero.mpr hnonempty)]
      exact ⟨iff_of_false hone.symm hnonempty, iff_of_true rfl hnonempty⟩

/-- One prefix in two calls, with an empty one beside it. -/
def sampleCalls : List (List String) := [["com.fasterxml", ""], ["com.fasterxml"]]

/-- Imports of the platform and of the project; `javafx` is not `java`. -/
def sampleImports : List String :=
  ["java.util.List", "com.acme.Item", "javafx.Node", "com.fasterxml.jackson.Mapper",
    "com.acme.Item"]

theorem inspect_extended_sample :
    let impact (calls : List (List String)) (imports : List String) : DependencyImpact Float :=
      (extended calls).inspect imports
    brought [["com.fasterxml"]] = brought sampleCalls ∧
    impact [["com.fasterxml"]] sampleImports.reverse = impact sampleCalls sampleImports ∧
    (∀ p ∈ brought [["com.fasterxml.jackson"]],
      ∃ q ∈ platform sampleCalls, q.toList <+: p.toList) ∧
    impact (sampleCalls ++ [["com.fasterxml.jackson"]]) sampleImports =
      impact sampleCalls sampleImports ∧
    (impact sampleCalls sampleImports).outgoing.toList = ["com.acme.Item", "javafx.Node"] ∧
    (outside (platform sampleCalls) sampleImports).ncard < Counter.limit ∧
    (impact sampleCalls sampleImports).fanOut.toNat = 2 ∧
    (impact sampleCalls sampleImports).instability = 1.0 := by
  intro impact
  have hbrought : brought [["com.fasterxml"]] = brought sampleCalls := by
    ext p
    simp only [brought, sampleCalls, Set.mem_ofPred_eq, List.mem_cons, List.not_mem_nil, or_false,
      exists_eq_left, exists_eq_or_imp]
    tauto
  have hmore : ∀ p ∈ brought [["com.fasterxml.jackson"]],
      ∃ q ∈ platform sampleCalls, q.toList <+: p.toList := by
    rintro p ⟨-, call, hcall, hp⟩
    obtain rfl := List.mem_singleton.mp hcall
    obtain rfl := List.mem_singleton.mp hp
    exact ⟨"com.fasterxml", .inr (hbrought ▸ ⟨by decide, _, List.mem_cons_self, List.mem_cons_self⟩),
      by decide⟩
  have hcard : (outside (platform sampleCalls) sampleImports).ncard = 2 := by
    rw [← size_outgoing_extended]
    decide
  have hproject : (outside (platform sampleCalls) sampleImports).Nonempty :=
    ⟨"com.acme.Item", mem_outgoing_extended.mp (by decide)⟩
  have hlimit : (outside (platform sampleCalls) sampleImports).ncard < Counter.limit := by
    rw [hcard]
    decide
  obtain ⟨-, hsame, -, hredundant, -, hcount⟩ := inspect_extended sampleCalls sampleImports
  obtain ⟨hfanOut, hone, -⟩ := hcount hlimit
  exact ⟨hbrought, hsame _ _ hbrought fun _ => List.mem_reverse, hmore, hredundant _ hmore,
    by decide, hlimit, hfanOut.trans hcard, hone.mpr hproject⟩

end DependencyInspector
end CodeRisk
