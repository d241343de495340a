import CodeRisk.Proofs.Java.Repair

/-!
# Repaired trees mark an error

A repair leaves a mark: the token that it puts in is missing from the text, and what it sets aside
becomes an error. A mark is never lost, whatever is read behind it (`Reader.hasError_next`). So an
attempt that is reading again holds an error (`Repair.Attempt.IsMarked`), and a tree without an
error is that of a text of comments or of a thread that has read the whole text
(`exists_thread_of_hasError_eq_false`).
-/
namespace CodeRisk.Java
open Grammar (Production)
open CodeRisk.Java.Tree (forestHasError)

namespace Tree

/-- Whether a list of trees has an error shows in what the single trees say. -/
theorem forestHasError_eq_flatMap (ts : List Tree) :
    forestHasError ts = (ts.flatMap fun t => [t.hasError]).any id := by
  rw [Conforms.forestHasError_eq, List.any_flatMap]
  simp

end Tree

namespace Reader

/-! ## Reading on -/

theorem hasError_wrap {p : Phrase} {ts : List Tree} (h : forestHasError ts) :
    forestHasError (wrap p ts) := by
  cases p <;> simp [wrap, forestHasError, Tree.hasError, h]

/-- Reading productions backwards keeps every error. -/
theorem hasError_reduces {frames reduced : List Frame} (hreduces : Reduces frames reduced)
    (h : forestHasError (contents frames)) : forestHasError (contents reduced) := by
  induction hreduces with
  | refl fs => exact h
  | @step p parts below reduced f hp hf hlater ih =>
    apply ih
    have hparts : forestHasError (gather p.steps parts ++ trailing parts) =
        forestHasError (parts.flatMap fun f => f.trees ++ f.comments) := by
      rw [Tree.forestHasError_eq_flatMap, Tree.forestHasError_eq_flatMap,
        flatMap_gather (fun s t => by rw [Tree.hasError_dressed]) hf.length]
    rw [contents_append, contents_reverse, Tree.forestHasError_append, ← hparts,
      Tree.forestHasError_append] at h
    rw [contents_cons, hf.trees, hf.comments, Tree.forestHasError_append,
      Tree.forestHasError_append]
    simp only [Bool.or_eq_true] at h ⊢
    rcases h with h | h | h
    · exact .inl h
    · exact .inr (.inl (hasError_wrap h))
    · exact .inr (.inr h)

theorem hasError_takes {frames taken : List Frame} {t : Token} (htakes : Takes frames t taken)
    (h : forestHasError (contents frames)) : forestHasError (contents taken) := by
  obtain ⟨reduced, hreduces, htaken⟩ := htakes
  have hreduced : forestHasError (contents reduced) := hasError_reduces hreduces h
  rcases htaken with rfl | ⟨state, rfl⟩
  · exact hreduced
  · rw [contents_cons, Tree.forestHasError_append, hreduced]
    rfl

/-- A comment comes behind all that has been read. -/
theorem forest_addComment (th : Thread) (t : Tree) (after : Place) :
    (th.addComment t after).forest = th.forest ++ [t] := by
  unfold Thread.addComment
  cases hframes : th.frames with
  | nil => simp [forest_eq, hframes]
  | cons f fs => simp [forest_eq, hframes, contents_cons]

/-- **Reading on keeps every error.** -/
theorem hasError_next {th next : Thread} (hnext : th.Next next) (h : forestHasError th.forest) :
    forestHasError next.forest := by
  cases hnext with
  | comment hk ht =>
    rw [forest_addComment, Tree.forestHasError_append, h]
    rfl
  | @token t frames ht hspelled htakes =>
    rw [forest_eq, Tree.forestHasError_append, Bool.or_eq_true] at h ⊢
    exact h.imp_right (hasError_takes htakes)

end Reader

namespace Repair
open Reader

/-! ## Repairs -/

/-- An attempt that is reading has an error behind it. -/
def Attempt.IsMarked (a : Attempt) : Prop :=
  a.standing = .reading → forestHasError a.thread.forest

section Attempts
variable {a b : Attempt} {others : List Attempt} {bs : List (List Frame)} {trees : List Tree}

/-- What is set aside becomes an error. -/
theorem isMarked_setAside (a : Attempt) (base : List Frame) (trees : List Tree) (depth : Nat) :
    (setAside a base trees depth).IsMarked := by
  intro _
  unfold setAside
  dsimp only [Attempt.remark]
  -- the error goes behind the frame that is now the last one, or to the beginning of the text
  cases base.drop depth with
  | nil => simp [forest_eq, Tree.forestHasError_append, forestHasError, Tree.hasError]
  | cons f fs =>
    simp [forest_eq, contents_cons, Tree.forestHasError_append, forestHasError, Tree.hasError]

theorem isMarked_goBack {token : Token} (hb : b ∈ goBack others a bs trees token) :
    b.IsMarked := by
  have hretreat (depths : List (Nat × List Frame))
      (h : retreat? others a trees token depths = some b) : b.IsMarked := by
    induction depths with
    | nil => cases h
    | cons x rest ih =>
      obtain ⟨depth, base⟩ := x
      rw [retreat?] at h
      split at h
      · exact ih h
      · split at h
        · cases h
        · split at h
          · exact ih h
          · cases h
            exact isMarked_setAside a base trees depth
  exact hretreat _ (Option.mem_toList.mp hb)

theorem isMarked_meet {token : Token} (hb : b ∈ meet others a bs trees token) : b.IsMarked := by
  unfold meet at hb
  dsimp only at hb
  split at hb
  · exact isMarked_goBack hb
  · rcases List.mem_cons.mp hb with rfl | hb
    · exact nofun
    · exact isMarked_goBack hb

theorem isMarked_skipStray {p : Place} {blank : Nat}
    (hb : b ∈ skipStray others a bs trees p blank) : b.IsMarked := by
  unfold skipStray at hb
  dsimp only at hb
  split at hb
  · cases hb
  · rw [List.mem_singleton.mp hb]
    exact nofun

/-- The semicolon that is put in is marked as missing. -/
theorem isMarked_withStopper {p : Place} (h : withStopper? a p bs = some b) : b.IsMarked := by
  intro _
  obtain ⟨longer, hlonger, rfl⟩ := Option.map_eq_some_iff.mp h
  obtain ⟨base, -, hinsert⟩ := List.exists_of_findSome?_eq_some hlonger
  obtain ⟨action, -, hinsert⟩ := List.exists_of_findSome?_eq_some hinsert
  cases action with
  | reduce n => cases hinsert
  | shift state =>
    dsimp only at hinsert
    split at hinsert
    · cases hinsert
      simp [forest_eq, contents_cons, Tree.forestHasError_append, shifted, forestHasError,
        Tree.hasError]
    · cases hinsert

/-- **Every repair leaves a mark.** -/
theorem isMarked_repair {p : Place} (hb : b ∈ repair others a p) : b.IsMarked := by
  unfold repair at hb
  dsimp only at hb
  rcases List.mem_append.mp hb with hb | hb
  · split at hb
    · exact isMarked_skipStray hb
    · split at hb
      · rw [List.mem_singleton.mp hb]
        exact nofun
      · exact isMarked_meet hb
  · exact isMarked_withStopper (Option.mem_toList.mp hb)

/-! ## The search -/

/-- What is skipped becomes an error in the end. -/
theorem isMarked_stepLost :
    (∀ b ∈ (stepLost others a bs trees).live, b.IsMarked) ∧
      ∀ r ∈ (stepLost others a bs trees).done, r.tree.hasError := by
  unfold stepLost
  dsimp only
  split
  next => exact ⟨List.forall_mem_singleton.mpr nofun, List.forall_mem_nil _⟩
  next =>
    split
    next => exact ⟨fun b hb => isMarked_skipStray hb, List.forall_mem_nil _⟩
    next =>
      split
      · exact ⟨fun b hb => isMarked_goBack hb, List.forall_mem_singleton.mpr rfl⟩
      · exact ⟨fun b hb => isMarked_meet hb, List.forall_mem_nil _⟩

/-- A step of an attempt that is marked. -/
theorem isMarked_step (ha : a.IsMarked) :
    (∀ b ∈ (step others a).live, b.IsMarked) ∧ ∀ r ∈ (step others a).done, r.tree.hasError := by
  unfold step
  cases hs : a.standing with
  | stuck place => exact ⟨List.forall_mem_singleton.mpr ha, List.forall_mem_nil _⟩
  | lost bs trees => exact isMarked_stepLost
  | reading =>
    have hstep : a.thread.Leads a.thread.step := a.thread.leads_step
    generalize a.thread.step = outcome at hstep ⊢
    cases hstep with
    | stuck place => exact ⟨List.forall_mem_singleton.mpr nofun, List.forall_mem_nil _⟩
    | live hnext =>
      refine ⟨fun b hb _ => ?_, List.forall_mem_nil _⟩
      obtain ⟨th, hth, rfl⟩ := List.mem_map.mp hb
      exact hasError_next (hnext th hth) (ha hs)
    | done hdone =>
      refine ⟨List.forall_mem_nil _, fun r hr => ?_⟩
      obtain ⟨th, hth, rfl⟩ := List.mem_map.mp hr
      rw [Tree.hasError, hasError_next (hdone th hth).1 (ha hs), Bool.or_true]

/-- All attempts of a search are marked, and so are the trees that it finds. -/
theorem isKept_marked : IsKept Attempt.IsMarked fun r => r.tree.hasError where
  live ha := (isMarked_step ha).1
  done ha := (isMarked_step ha).2
  repair _ _ hb := isMarked_repair hb

/-- **The tree of a text that could not be read marks an error.** -/
theorem hasError_tree (f : Failure) (limit : Nat) : (tree f limit).hasError := by
  have hstart : (start f).IsMarked := nofun
  rcases isKept_marked.tree hstart limit with ⟨r, hr, htree⟩ | herror
  · rw [← htree]
    exact hr
  · rw [herror]
    rfl

end Attempts

end Repair

/-- **A tree without an error needed no repair**: all that was read stands in a thread that came to
the end of the text. -/
theorem exists_thread_of_hasError_eq_false {source : String}
    (h : (read source).hasError = false) :
    ∃ th, read source = .branch .program none th.forest ∧
      (Reader.isVoid (source.length + 1) (Reader.start source) = some th ∨
        Reader.run (Reader.stepLimit source) [Reader.start source] none = .ok th) := by
  unfold read at h ⊢
  dsimp only at h ⊢
  split at h
  next th hvoid =>
    rw [hvoid]
    exact ⟨th, rfl, .inl rfl⟩
  next hvoid =>
    rw [hvoid]
    split at h
    next th hrun =>
      rw [hrun]
      exact ⟨th, rfl, .inr rfl⟩
    next f hrun =>
      rw [Repair.hasError_tree] at h
      cases h
    next hrun => cases h

end CodeRisk.Java
