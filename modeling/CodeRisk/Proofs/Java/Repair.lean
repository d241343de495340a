import CodeRisk.Proofs.Java.Reading
import CodeRisk.Proofs.Java.Search

/-!
# Repairs keep to the grammar

A repair sets text aside, skips it, or puts in a token that was not there. Text that is set aside
or skipped ends up in errors, which stand between symbols like comments, and the token that is put
in is marked. So whatever way a repair takes, its frames stay sound (`Repair.Attempt.Sound`), and a
tree that marks no error conforms, no matter how it has been found (`conforms_read`).
-/
namespace CodeRisk.Java
open Reader
open CodeRisk.Java.Tree (IsExtra IsPlain)

namespace Repair

/-- The views of what was read are sound, and what has been skipped is no part of the text. -/
inductive Standing.Sound : Standing → Prop where
  | reading : Sound .reading
  | stuck (place : Place) : Sound (.stuck place)
  | lost {bs : List (List Frame)} {trees : List Tree} (hbs : ∀ b ∈ bs, ∀ f ∈ b, f.Sound)
      (htrees : ∀ t ∈ trees, t.IsPlain) : Sound (.lost bs trees)

/-- An attempt that has kept to the grammar, apart from errors. -/
structure Attempt.Sound (a : Attempt) : Prop where
  thread : a.thread.Sound
  standing : a.standing.Sound

/-! ## Views -/

section Views
variable {frames : List Frame} {bs : List (List Frame)}

/-- Reading backwards whatever comes next keeps frames sound. -/
theorem views_sound {fuel : Nat} {waiting known : List (List Frame)}
    (hwaiting : ∀ b ∈ waiting, ∀ f ∈ b, f.Sound) (hknown : ∀ b ∈ known, ∀ f ∈ b, f.Sound) :
    ∀ b ∈ views fuel waiting known, ∀ f ∈ b, f.Sound := by
  induction fuel generalizing waiting known with
  | zero => exact fun b hb => hknown b (List.mem_reverse.mp hb)
  | succ fuel ih =>
    cases waiting with
    | nil => exact fun b hb => hknown b (List.mem_reverse.mp hb)
    | cons frames waiting =>
      obtain ⟨hframes, hrest⟩ := List.forall_mem_cons.mp hwaiting
      rw [views]
      split
      · exact ih hrest hknown
      · refine ih (fun b hb => ?_) (List.forall_mem_cons.mpr ⟨hframes, hknown⟩)
        rcases List.mem_append.mp hb with hb | hb
        · exact hrest b hb
        · obtain ⟨n, -, hreduced⟩ := List.mem_filterMap.mp hb
          obtain ⟨p, hp, hreduced⟩ := Option.bind_eq_some_iff.mp hreduced
          have hreduces := reduces_of_reduce? (mem_of_productions hp) hreduced (.refl _)
          exact hreduces.forall_mem sound_reduced hframes

/-- What was read may be seen in another way, but never against the grammar. -/
theorem bases_sound (hframes : ∀ f ∈ frames, f.Sound) :
    ∀ b ∈ bases frames, ∀ f ∈ b, f.Sound := by
  have hone : ∀ b ∈ [frames], ∀ f ∈ b, f.Sound := fun b hb => List.mem_singleton.mp hb ▸ hframes
  unfold bases
  split
  · exact hone
  · exact fun b hb => views_sound hone (List.forall_mem_nil _) b (List.mem_filter.mp hb).1

/-- A semicolon may be put in. -/
theorem insert?_sound {p here : Place} {row : Nat} {longer : List Frame}
    (hframes : ∀ f ∈ frames, f.Sound) (h : insert? p here row frames = some longer) :
    ∀ f ∈ longer, f.Sound := by
  obtain ⟨action, -, h⟩ := List.exists_of_findSome?_eq_some h
  cases action with
  | reduce n => cases h
  | shift state =>
    dsimp only at h
    split at h
    · cases h
      exact List.forall_mem_cons.mpr ⟨sound_shifted .., hframes⟩
    · cases h

theorem Attempt.Sound.withStopper? {a stopped : Attempt} (ha : a.Sound) {p : Place}
    (hbs : ∀ b ∈ bs, ∀ f ∈ b, f.Sound) (h : withStopper? a p bs = some stopped) :
    stopped.Sound := by
  obtain ⟨longer, hlonger, rfl⟩ := Option.map_eq_some_iff.mp h
  obtain ⟨b, hb, hinsert⟩ := List.exists_of_findSome?_eq_some hlonger
  exact ⟨⟨insert?_sound (hbs b hb) hinsert, ha.thread.opening⟩, .reading⟩

end Views

/-! ## Text that is set aside -/

section Aside
variable {trees : List Tree}

theorem splitError_extra (h : ∀ t ∈ trees, t.IsExtra) :
    (∀ t ∈ (splitError trees).1, t.IsExtra) ∧ ∀ t ∈ (splitError trees).2, t.IsPlain := by
  unfold splitError
  split
  next f inner before hreverse =>
    have hmem : ∀ t ∈ Tree.branch .error f inner :: before, t.IsExtra :=
      fun t ht => h t (List.mem_reverse.mp (hreverse ▸ ht))
    obtain ⟨herror, hbefore⟩ := List.forall_mem_cons.mp hmem
    refine ⟨fun t ht => hbefore t (List.mem_reverse.mp ht), ?_⟩
    cases herror with
    | error hinner => exact hinner
  next => exact ⟨h, List.forall_mem_nil _⟩

theorem splitComments_fst {t : Tree} (ht : t ∈ (splitComments trees).1) : t ∈ trees :=
  List.mem_of_mem_take ht

theorem splitComments_snd_eq :
    (splitComments trees).2.reverse = trees.reverse.takeWhile Tree.isComment := by
  have hprefix := List.takeWhile_prefix (l := trees.reverse) Tree.isComment
  have hle := hprefix.length_le
  rw [List.length_reverse] at hle
  rw [splitComments, List.reverse_drop, Nat.sub_sub_self hle]
  exact (List.prefix_iff_eq_take.mp hprefix).symm

/-- What is split off at the end are comments. -/
theorem splitComments_snd {t : Tree} (ht : t ∈ (splitComments trees).2) :
    t ∈ trees ∧ t.isComment := by
  refine ⟨List.mem_of_mem_drop ht, ?_⟩
  rw [← List.mem_reverse, splitComments_snd_eq] at ht
  exact List.all_eq_true.mp List.all_takeWhile t ht

theorem isExtra_of_isComment {t : Tree} (hcomment : t.isComment) (hplain : t.IsPlain) :
    t.IsExtra := by
  cases t with
  | branch => cases hcomment
  | leaf k f l =>
    obtain rfl : f = none := hplain hcomment
    exact .comment hcomment

/-- What is set aside becomes an error between the comments before it and those behind it. -/
theorem aside_extra {before popped : List Tree} (hbefore : ∀ t ∈ before, t.IsExtra)
    (hpopped : ∀ t ∈ popped, t.IsPlain) (htrees : ∀ t ∈ trees, t.IsPlain) :
    let inside := splitComments ((splitError before).2 ++ popped ++ trees)
    ∀ t ∈ (splitError before).1 ++ [Tree.branch .error none inside.1] ++ inside.2, t.IsExtra := by
  intro inside t ht
  obtain ⟨hextra, hjoined⟩ := splitError_extra hbefore
  have hplain : ∀ t ∈ (splitError before).2 ++ popped ++ trees, t.IsPlain :=
    List.forall_mem_append.mpr ⟨List.forall_mem_append.mpr ⟨hjoined, hpopped⟩, htrees⟩
  rcases List.mem_append.mp ht with ht | ht
  · rcases List.mem_append.mp ht with ht | ht
    · exact hextra t ht
    · rw [List.mem_singleton.mp ht]
      exact .error fun c hc => hplain c (splitComments_fst hc)
  · obtain ⟨hmem, hcomment⟩ := splitComments_snd ht
    exact isExtra_of_isComment hcomment (hplain t hmem)

end Aside

/-- The comments in what frames hold have no role. -/
theorem plain_of_sound {fs : List Frame} (hfs : ∀ f ∈ fs, f.Sound) :
    ∀ t ∈ fs.flatMap (fun f => f.trees ++ f.comments), t.IsPlain := by
  intro t ht
  obtain ⟨f, hf, ht⟩ := List.mem_flatMap.mp ht
  rcases List.mem_append.mp ht with ht | ht
  · exact ((hfs f hf).trees t ht).plain
  · exact ((hfs f hf).comments t ht).sound.plain

section Attempts
variable {a : Attempt} {others : List Attempt} {bs : List (List Frame)} {trees : List Tree}

/-- Frames are set aside, and what was skipped with them. -/
theorem Attempt.Sound.setAside (ha : a.Sound) {base : List Frame} (hbase : ∀ f ∈ base, f.Sound)
    (htrees : ∀ t ∈ trees, t.IsPlain) (depth : Nat) : (setAside a base trees depth).Sound := by
  have hpopped : ∀ t ∈ (base.take depth).reverse.flatMap fun f => f.trees ++ f.comments,
      t.IsPlain :=
    plain_of_sound fun f hf => hbase f (List.mem_of_mem_take (List.mem_reverse.mp hf))
  have hbelow : ∀ f ∈ base.drop depth, f.Sound := fun f hf => hbase f (List.mem_of_mem_drop hf)
  refine ⟨?_, .reading⟩
  unfold Repair.setAside
  dsimp only [Attempt.remark]
  -- the error goes behind the frame that is now the last one, or to the beginning of the text
  generalize base.drop depth = below at hbelow ⊢
  cases below with
  | nil => exact ⟨List.forall_mem_nil _, aside_extra ha.thread.opening hpopped htrees⟩
  | cons f fs =>
    obtain ⟨hf, hfs⟩ := List.forall_mem_cons.mp hbelow
    have hlast := hf.withComments (aside_extra hf.comments hpopped htrees)
    exact ⟨List.forall_mem_cons.mpr ⟨hlast, hfs⟩, ha.thread.opening⟩

/-! ## Going back and skipping -/

/-- An attempt goes back to views of what it has read. -/
theorem mem_of_mem_retreats {first depth : Nat} {b : List Frame}
    (h : (depth, b) ∈ retreats bs first) : b ∈ bs := by
  obtain ⟨i, -, h⟩ := List.mem_flatMap.mp h
  rw [List.mem_reverse] at h
  -- views are passed over if their state is known, but none is made up
  let known (s : List Nat × List (Nat × List Frame)) : Prop := ∀ x ∈ s.2, x.2 ∈ bs
  refine List.foldlRecOn (motive := known) _ _ (List.forall_mem_nil _) ?_ _ h
  intro s hs c hc
  dsimp only
  split
  · exact hs
  · exact List.forall_mem_cons.mpr ⟨(List.mem_filter.mp hc).1, hs⟩

theorem retreat?_sound {depths : List (Nat × List Frame)} {token : Token} {back : Attempt}
    (ha : a.Sound) (hdepths : ∀ x ∈ depths, ∀ f ∈ x.2, f.Sound) (htrees : ∀ t ∈ trees, t.IsPlain)
    (h : retreat? others a trees token depths = some back) : back.Sound := by
  induction depths with
  | nil => cases h
  | cons x rest ih =>
    obtain ⟨depth, base⟩ := x
    obtain ⟨hbase, hrest⟩ := List.forall_mem_cons.mp hdepths
    rw [retreat?] at h
    split at h
    · exact ih hrest h
    · split at h
      · cases h
      · split at h
        · exact ih hrest h
        · cases h
          exact ha.setAside hbase htrees depth

section Skipping
variable (ha : a.Sound) (hbs : ∀ b ∈ bs, ∀ f ∈ b, f.Sound) (htrees : ∀ t ∈ trees, t.IsPlain)
include ha hbs htrees

theorem goBack_sound {token : Token} : ∀ b ∈ goBack others a bs trees token, b.Sound := by
  intro b hb
  refine retreat?_sound ha (fun x hx => ?_) htrees (Option.mem_toList.mp hb)
  exact hbs x.2 (mem_of_mem_retreats hx)

theorem skipped_sound {t : Tree} {after : Place} {row : Nat} (ht : t.IsPlain) :
    (skipped a bs trees t after row).Sound where
  thread := ⟨ha.thread.frames, ha.thread.opening⟩
  standing := .lost hbs (List.forall_mem_append.mpr ⟨htrees, List.forall_mem_singleton.mpr ht⟩)

theorem meet_sound {token : Token} : ∀ b ∈ meet others a bs trees token, b.Sound := by
  have hback : ∀ b ∈ goBack others a bs trees token, b.Sound := goBack_sound ha hbs htrees
  unfold meet
  dsimp only
  split
  · exact hback
  · exact List.forall_mem_cons.mpr ⟨skipped_sound ha hbs htrees fun _ => rfl, hback⟩

theorem skipStray_sound {p : Place} {blank : Nat} :
    ∀ b ∈ skipStray others a bs trees p blank, b.Sound := by
  unfold skipStray
  dsimp only
  split
  · exact List.forall_mem_nil _
  · exact List.forall_mem_singleton.mpr (skipped_sound ha hbs htrees fun _ => rfl)

end Skipping

/-- **Every repair** of a sound attempt is sound. -/
theorem repair_sound {p : Place} (ha : a.Sound) : ∀ b ∈ repair others a p, b.Sound := by
  have hbs := bases_sound ha.thread.frames
  have hlost (n : Nat) :
      Attempt.Sound { a with standing := .lost (bases a.thread.frames) [], mark := n } :=
    ⟨ha.thread, .lost hbs (List.forall_mem_nil _)⟩
  have hmissing : ∀ b ∈ (withStopper? a p (bases a.thread.frames)).toList, b.Sound :=
    fun b hb => ha.withStopper? hbs (Option.mem_toList.mp hb)
  unfold repair
  dsimp only
  refine List.forall_mem_append.mpr ⟨?_, hmissing⟩
  split
  · exact skipStray_sound (hlost _) hbs (List.forall_mem_nil _)
  · split
    · exact List.forall_mem_singleton.mpr (hlost _)
    · exact meet_sound (hlost _) hbs (List.forall_mem_nil _)

end Attempts

/-! ## The search -/

/-- What an outcome leads to is sound, its trees too. -/
structure Outcome.Sound (o : Outcome) : Prop where
  live : ∀ a ∈ o.live, a.Sound
  done : ∀ r ∈ o.done, r.tree.Sound

section Search
variable {a : Attempt} {others : List Attempt}

theorem sound_error (ts : List Tree) : (Tree.branch .error none ts).Sound :=
  ⟨nofun, nofun⟩

/-- What is skipped is kept until it becomes an error. -/
theorem stepLost_sound {bs : List (List Frame)} {trees : List Tree} (ha : a.Sound)
    (hbs : ∀ b ∈ bs, ∀ f ∈ b, f.Sound) (htrees : ∀ t ∈ trees, t.IsPlain) :
    (stepLost others a bs trees).Sound := by
  unfold stepLost
  dsimp only
  split
  next k n hcomment =>
    have hleaf (l : Lexeme) : ∀ t ∈ trees ++ [.leaf k none l], t.IsPlain :=
      List.forall_mem_append.mpr ⟨htrees, List.forall_mem_singleton.mpr fun _ => rfl⟩
    refine ⟨List.forall_mem_singleton.mpr ⟨?_, .lost hbs (hleaf _)⟩, List.forall_mem_nil _⟩
    exact ⟨ha.thread.frames, ha.thread.opening⟩
  next =>
    split
    next => exact ⟨skipStray_sound ha hbs htrees, List.forall_mem_nil _⟩
    next =>
      split
      · exact ⟨goBack_sound ha hbs htrees, List.forall_mem_singleton.mpr (sound_error _)⟩
      · exact ⟨meet_sound ha hbs htrees, List.forall_mem_nil _⟩

/-- **One step** of a sound attempt leads to sound attempts. -/
theorem step_sound (ha : a.Sound) : (step others a).Sound := by
  have hstanding := ha.standing
  unfold step
  cases hs : a.standing with
  | stuck place => exact ⟨List.forall_mem_singleton.mpr ha, List.forall_mem_nil _⟩
  | lost bs trees =>
    rw [hs] at hstanding
    cases hstanding with
    | lost hbs htrees => exact stepLost_sound ha hbs htrees
  | reading =>
    have hstep : a.thread.Leads a.thread.step := a.thread.leads_step
    generalize a.thread.step = outcome at hstep ⊢
    cases hstep with
    | live hnext =>
      refine ⟨fun b hb => ?_, List.forall_mem_nil _⟩
      obtain ⟨th, hth, rfl⟩ := List.mem_map.mp hb
      exact ⟨ha.thread.next (hnext th hth), .reading⟩
    | stuck place =>
      exact ⟨List.forall_mem_singleton.mpr ⟨ha.thread, .stuck place⟩, List.forall_mem_nil _⟩
    | done hdone =>
      refine ⟨List.forall_mem_nil _, fun r hr => ?_⟩
      obtain ⟨th, hth, rfl⟩ := List.mem_map.mp hr
      obtain ⟨hnext, hwhole⟩ := hdone th hth
      exact (ha.thread.next hnext).whole hwhole

/-- All attempts of a search are sound, and all trees that it finds. -/
theorem isKept_sound : IsKept Attempt.Sound fun r => r.tree.Sound where
  live ha := (step_sound ha).live
  done ha := (step_sound ha).done
  repair ha := repair_sound ha

/-- **The tree of a text that could not be read** is sound. -/
theorem tree_sound {f : Failure} (hf : f.thread.Sound) (limit : Nat) : (tree f limit).Sound := by
  rcases isKept_sound.tree ⟨hf, .stuck f.place⟩ limit with ⟨r, hr, htree⟩ | herror
  · rw [← htree]
    exact hr
  · rw [herror]
    exact sound_error _

end Search

end Repair

/-- **Every tree that is read conforms to the grammar, unless it marks an error.** -/
theorem conforms_read {source : String} (h : (read source).hasError = false) :
    (read source).Conforms := by
  have hsound : (read source).Sound := by
    unfold read
    dsimp only
    split
    next th hvoid =>
      obtain ⟨hth, hframes⟩ := isVoid_sound (sound_start source) rfl hvoid
      exact hth.void hframes
    next =>
      have hrun : EndsWith Thread.Sound (run (stepLimit source) [start source] none) :=
        run_of_next (fun _ _ => Thread.Sound.next)
          (List.forall_mem_singleton.mpr (sound_start source)) nofun
      generalize run (stepLimit source) [start source] none = reading at hrun ⊢
      match reading, hrun with
      | .ok th, hrun => exact hrun.1.whole hrun.2
      | .error (some f), hrun => exact Repair.tree_sound (hrun f rfl) _
      | .error none, _ => exact Repair.sound_error []
  exact hsound.conforms h

end CodeRisk.Java
