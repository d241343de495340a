import CodeRisk.Proofs.Java.Marked
import CodeRisk.Proofs.Java.Spelled

/-!
# Trees that are read are laid out in their text

A thread that has come to a place has found its tokens in the text before it, each on the row that
it notes (`Reader.Place.IsBehind`); reading productions backwards moves none of them. So a tree
without an error is laid out in the text that it was read from (`isLaidOut_read`), and it has no
more methods than the text has characters (`methodCount_read_le`).
-/
namespace CodeRisk.Java
open CodeRisk.Java.Lexeme (StandIn)
open CodeRisk.Java.Tree (forestLeaves methodCount width)

namespace Reader

/-! ## Tokens before a place -/

/-- Reading productions backwards moves no token. -/
theorem forestLeaves_reduces {frames reduced : List Frame} (h : Reduces frames reduced) :
    forestLeaves (contents reduced) = forestLeaves (contents frames) := by
  induction h with
  | refl fs => rfl
  | @step p parts below reduced f hp hf hlater ih =>
    have hparts : forestLeaves (gather p.steps parts ++ trailing parts) =
        forestLeaves (parts.flatMap fun f => f.trees ++ f.comments) := by
      rw [Tree.forestLeaves_eq, Tree.forestLeaves_eq, flatMap_gather Tree.leaves_dressed hf.length]
    rw [ih, contents_cons, hf.trees, hf.comments, contents_append, contents_reverse,
      Tree.forestLeaves_append, Tree.forestLeaves_append, Tree.forestLeaves_append,
      forestLeaves_wrap, ← hparts, Tree.forestLeaves_append]

/-- A token that is taken comes behind those that were read before. -/
theorem forestLeaves_takes {frames taken : List Frame} {t : Token} (h : Takes frames t taken) :
    forestLeaves (contents taken) = forestLeaves (contents frames) ∨
      forestLeaves (contents taken) = forestLeaves (contents frames) ++ [t.lexeme] := by
  obtain ⟨reduced, hreduces, htaken⟩ := h
  rw [← forestLeaves_reduces hreduces]
  rcases htaken with rfl | ⟨state, rfl⟩
  · exact .inl rfl
  · right
    rw [contents_cons, Tree.forestLeaves_append]
    rfl

namespace Place
variable {source : String} {p : Place} {t : Token} {ls : List Lexeme}

/-- The tokens stand in the text before the place. -/
def IsBehind (source : String) (p : Place) (ls : List Lexeme) : Prop :=
  ∃ before, source.toList = before ++ p.rest ∧ p.row = before.count '\n' ∧ StandIn before 0 ls

/-- A token stands between the place before it and the place behind it. -/
theorem Has.split (h : p.Has t) :
    ∃ gap, p.rest = gap ++ t.lexeme.text.toList ++ t.after.rest ∧
      t.lexeme.row = p.row + gap.count '\n' ∧
      t.after.row = p.row + (gap ++ t.lexeme.text.toList).count '\n' := by
  cases h with
  | intro blank terminal n =>
    refine ⟨p.rest.take blank, ?_, rfl, ?_⟩
    · show p.rest = p.rest.take blank ++
        (String.ofList ((p.rest.drop blank).take n)).toList ++ (p.rest.drop blank).drop n
      rw [String.toList_ofList, List.append_assoc, List.take_append_drop, List.take_append_drop]
    · simp [Token.at, skip, List.count_append, Nat.add_assoc]

/-- Behind a token of the text stand all tokens before it, and the token itself. -/
theorem IsBehind.after (hp : p.IsBehind source ls) (ht : p.Has t) :
    t.after.IsBehind source ls ∧ t.after.IsBehind source (ls ++ [t.lexeme]) := by
  obtain ⟨before, hsource, hrow, hstand⟩ := hp
  obtain ⟨gap, hrest, hstart, hafter⟩ := ht.split
  have htext : source.toList = before ++ gap ++ t.lexeme.text.toList ++ t.after.rest := by
    rw [hsource, hrest]
    simp only [List.append_assoc]
  have hcount : t.after.row = (before ++ gap ++ t.lexeme.text.toList).count '\n' := by
    rw [hafter, hrow]
    simp only [List.count_append]
    omega
  refine ⟨⟨_, htext, hcount, ?_⟩, ⟨_, htext, hcount, ?_⟩⟩
  · rw [List.append_assoc]
    exact hstand.append_text _
  · apply hstand.concat
    rw [hstart, hrow, List.count_append]
    omega

end Place

/-! ## Threads -/

/-- A thread whose tokens stand in the text before it and are spelled as the grammar says. -/
structure Thread.IsPlaced (source : String) (th : Thread) : Prop where
  behind : th.place.IsBehind source (forestLeaves th.forest)
  frames : ∀ f ∈ th.frames, f.Spelled
  opening : ∀ t ∈ th.opening, t.isComment

theorem isPlaced_start (source : String) : (start source).IsPlaced source where
  behind := ⟨[], rfl, rfl, .nil ..⟩
  frames := List.forall_mem_nil _
  opening := List.forall_mem_nil _

/-- **Reading on keeps to the text.** -/
theorem Thread.IsPlaced.next {source : String} {th next : Thread} (hth : th.IsPlaced source)
    (hnext : th.Next next) : next.IsPlaced source := by
  cases hnext with
  | @comment k t hk ht =>
    have hleaves : forestLeaves (th.addComment (.leaf k none t.lexeme) t.after).forest =
        forestLeaves th.forest ++ [t.lexeme] := by
      rw [forest_addComment, Tree.forestLeaves_append]
      rfl
    have hbehind := (hth.behind.after ht).2
    rw [← hleaves] at hbehind
    have happend {ts : List Tree} (hts : ∀ u ∈ ts, u.isComment) :
        ∀ u ∈ ts ++ [.leaf k none t.lexeme], u.isComment :=
      List.forall_mem_append.mpr ⟨hts, List.forall_mem_singleton.mpr hk⟩
    unfold Thread.addComment at hbehind ⊢
    cases hframes : th.frames with
    | nil =>
      rw [hframes] at hbehind
      exact ⟨hbehind, List.forall_mem_nil _, happend hth.opening⟩
    | cons f fs =>
      rw [hframes] at hbehind
      obtain ⟨hf, hfs⟩ := List.forall_mem_cons.mp (hframes ▸ hth.frames)
      have hlast : Frame.Spelled { f with comments := f.comments ++ [.leaf k none t.lexeme] } :=
        ⟨hf.symbol, hf.declared, happend hf.comments, hf.counted⟩
      exact ⟨hbehind, List.forall_mem_cons.mpr ⟨hlast, hfs⟩, hth.opening⟩
  | @token t frames ht hspelled htakes =>
    refine ⟨?_, htakes.forall_mem spelled_reduced (fun _ => spelled_shifted hspelled) hth.frames,
      hth.opening⟩
    obtain ⟨hsame, hmore⟩ := hth.behind.after ht
    rw [forest_eq, Tree.forestLeaves_append] at hsame hmore ⊢
    rcases forestLeaves_takes htakes with htaken | htaken
    · rw [htaken]
      exact hsame
    · rw [htaken, ← List.append_assoc]
      exact hmore

/-- All that a placed thread has read is laid out in the text. -/
theorem Thread.IsPlaced.isLaidOut {source : String} {th : Thread} (hth : th.IsPlaced source) :
    (Tree.branch .program none th.forest).IsLaidOut source where
  stand := by
    obtain ⟨before, hsource, -, hstand⟩ := hth.behind
    rw [hsource, Tree.leaves_branch]
    exact hstand.append_text _
  closed n hn hdeclaration := by
    have hdeclared : n.leaves ∈ (Tree.branch .program none th.forest).declared :=
      List.mem_map_of_mem (List.mem_filter.mpr ⟨hn, hdeclaration⟩)
    rw [Tree.declared_branch, forest_eq, List.flatMap_append] at hdeclared
    rcases List.mem_append.mp hdeclared with h | h
    · cases h
    · rcases List.mem_append.mp h with h | h
      · obtain ⟨t, ht, h⟩ := List.mem_flatMap.mp h
        rw [Tree.declared_eq_nil_of_isComment (hth.opening t ht)] at h
        cases h
      · rw [contents, List.flatMap_assoc] at h
        obtain ⟨f, hf, h⟩ := List.mem_flatMap.mp h
        exact (hth.frames f (List.mem_reverse.mp hf)).contents _ h

/-- No more methods than characters have been read. -/
theorem Thread.IsPlaced.methodCount_le {source : String} {th : Thread}
    (hth : th.IsPlaced source) : methodCount th.forest ≤ width th.forest := by
  have hcontents (fs : List Frame) (hfs : ∀ f ∈ fs, f.Spelled) :
      methodCount (contents fs) ≤ width (contents fs) := by
    induction fs with
    | nil => exact Nat.le_refl _
    | cons f fs ih =>
      obtain ⟨hf, hfs⟩ := List.forall_mem_cons.mp hfs
      have hcounted := hf.counted
      have hbelow := ih hfs
      rw [contents_cons, Tree.methodCount_append, Tree.methodCount_append, Tree.width_append,
        Tree.width_append, Tree.methodCount_of_isComment hf.comments]
      omega
  have hframes := hcontents th.frames hth.frames
  rw [forest_eq, Tree.methodCount_append, Tree.width_append,
    Tree.methodCount_of_isComment hth.opening]
  omega

end Reader

/-- A tree without an error holds what a thread has read that keeps to the text. -/
theorem exists_isPlaced {source : String} (h : (read source).hasError = false) :
    ∃ th : Reader.Thread, th.IsPlaced source ∧ read source = .branch .program none th.forest := by
  obtain ⟨th, htree, hread⟩ := exists_thread_of_hasError_eq_false h
  have hstart : (Reader.start source).IsPlaced source := Reader.isPlaced_start source
  have hnext : ∀ th next : Reader.Thread, th.IsPlaced source → th.Next next →
      next.IsPlaced source := fun _ _ => Reader.Thread.IsPlaced.next
  refine ⟨th, ?_, htree⟩
  rcases hread with hvoid | hrun
  · refine Reader.isVoid_of_comment (fun th k t hth hk ht => ?_) hstart hvoid
    exact hth.next (.comment hk ht)
  · have hends : Reader.EndsWith (Reader.Thread.IsPlaced source)
        (Reader.run (Reader.stepLimit source) [Reader.start source] none) :=
      Reader.run_of_next hnext (List.forall_mem_singleton.mpr hstart) nofun
    rw [hrun] at hends
    exact hends.1

/-- **A tree without an error is laid out in the text that it was read from.** -/
theorem isLaidOut_read {source : String} (h : (read source).hasError = false) :
    (read source).IsLaidOut source := by
  obtain ⟨th, hth, htree⟩ := exists_isPlaced h
  rw [htree]
  exact hth.isLaidOut

/-- **A text has no more methods than characters.** -/
theorem methodCount_read_le {source : String} (h : (read source).hasError = false) :
    (read source).nodes.countP (Tree.isNode .methodDeclaration) ≤ source.length := by
  obtain ⟨th, hth, htree⟩ := exists_isPlaced h
  have hwidth : Tree.width th.forest ≤ source.length := by
    have hstand := hth.isLaidOut.stand
    rw [Tree.leaves_branch] at hstand
    rw [← String.length_toList]
    exact hstand.sum_length_le
  have hcount := hth.methodCount_le
  rw [htree, Tree.nodes, List.countP_cons]
  exact Nat.le_trans hcount hwidth

end CodeRisk.Java
