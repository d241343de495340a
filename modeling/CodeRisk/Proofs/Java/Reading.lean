import CodeRisk.Proofs.Java.Threads

/-!
# Reading keeps to the grammar

The parsing table is not looked at here: whatever it proposes, every frame on the stack of a reader
holds a reading of its symbol (`Reader.Frame.Sound`). A token is a reading of its terminal, and a
production is read backwards only if its symbols are at hand. So every thread is sound after each
step, and a thread that has read the whole text holds a tree that conforms.

Comments stand between the symbols. When text that is not Java is repaired, so do the errors, and a
token that was not there may be put in. All statements are about trees as far as they do not mark an
error, so that they hold of repaired readings as well.
-/
namespace CodeRisk.Java
open Grammar

namespace Tree

/-- A comment has no role. -/
def IsPlain (t : Tree) : Prop :=
  t.isComment → t.field = none

/-- Unless the tree marks an error it conforms, and a comment has no role. -/
structure Sound (t : Tree) : Prop where
  conforms : t.hasError = false → t.Conforms
  plain : t.IsPlain

/-- What can stand between two symbols: a comment, or text that has been set aside. -/
inductive IsExtra : Tree → Prop where
  | comment {k : TokenKind} {l : Lexeme} (hk : k.isComment) : IsExtra (.leaf k none l)
  | error {cs : List Tree} (hcs : ∀ c ∈ cs, c.IsPlain) : IsExtra (.branch .error none cs)

theorem sound_leaf (k : TokenKind) (l : Lexeme) : (leaf k none l).Sound where
  conforms h := .leaf h
  plain _ := rfl

/-- A branch over sound trees is sound, if they follow the rule of its kind. -/
theorem sound_of_yields {k : NodeKind} {cs : List Tree} (hcs : ∀ c ∈ cs, c.Sound)
    (hyields : forestHasError cs = false →
      ∃ r, shapeOf? k = some r ∧ Yields r (withoutComments cs)) : (branch k none cs).Sound := by
  refine ⟨fun herror => ?_, nofun⟩
  have hforest : forestHasError cs = false := (Bool.or_eq_false_iff.mp herror).2
  obtain ⟨r, hr, hcs'⟩ := hyields hforest
  rw [Conforms.forestHasError_eq, List.any_eq_false] at hforest
  refine .branch hr hcs' (fun c hc => (hcs c hc).plain) fun c hc => ?_
  exact (hcs c hc).conforms (Bool.eq_false_iff.mpr (hforest c hc))

namespace IsExtra
variable {t : Tree} {ts : List Tree}

theorem sound (h : t.IsExtra) : t.Sound := by
  cases h with
  | comment => exact sound_leaf ..
  | error => exact ⟨nofun, nofun⟩

theorem isComment (h : t.IsExtra) (herror : t.hasError = false) : t.isComment := by
  cases h with
  | comment hk => exact hk
  | error => cases herror

/-- Between symbols there are only comments, if nothing has been set aside. -/
theorem withoutComments_eq_nil (h : ∀ t ∈ ts, t.IsExtra) (herror : forestHasError ts = false) :
    withoutComments ts = [] := by
  rw [Conforms.forestHasError_eq, List.any_eq_false] at herror
  refine List.filter_eq_nil_iff.mpr fun t ht => ?_
  have hcomment := (h t ht).isComment (Bool.eq_false_iff.mpr (herror t ht))
  rw [hcomment]
  exact Bool.false_ne_true

end IsExtra

theorem withoutComments_append (ts us : List Tree) :
    withoutComments (ts ++ us) = withoutComments ts ++ withoutComments us :=
  List.filter_append ..

theorem forestHasError_append (ts us : List Tree) :
    forestHasError (ts ++ us) = (forestHasError ts || forestHasError us) := by
  rw [Conforms.forestHasError_eq, List.any_append, ← Conforms.forestHasError_eq,
    ← Conforms.forestHasError_eq]

end Tree

/-- No token is a comment. -/
theorem isComment_kind (t : Terminal) : t.kind.isComment = false := by
  unfold Terminal.kind
  split <;> rfl

namespace Reader
open CodeRisk.Java.Tree (Sound IsExtra withoutComments forestHasError dressed)

/-! ## Frames -/

/-- A frame that holds a reading of its symbol. -/
structure Frame.Sound (f : Frame) : Prop where
  yields : forestHasError f.trees = false →
    Yields (ruleOfSymbol f.symbol) (withoutComments f.trees)
  trees : ∀ t ∈ f.trees, t.Sound
  one : isOneTree f.symbol → ∃ t, f.trees = [t] ∧ t.isComment = false
  comments : ∀ t ∈ f.comments, t.IsExtra

theorem Frame.Sound.withComments {f : Frame} (hf : f.Sound) {cs : List Tree}
    (hcs : ∀ t ∈ cs, t.IsExtra) : Frame.Sound { f with comments := cs } :=
  ⟨hf.yields, hf.trees, hf.one, hcs⟩

/-- The frame of a token. -/
theorem sound_shifted (state : Nat) (t : Token) : (shifted state t).Sound where
  yields _ := by
    have hcomment : (Tree.leaf t.terminal.kind none t.lexeme).isComment = false :=
      isComment_kind t.terminal
    have hwithout : withoutComments (shifted state t).trees =
        [.leaf t.terminal.kind none t.lexeme] := by
      simp [shifted, withoutComments, hcomment]
    rw [hwithout]
    exact .terminal t.terminal t.lexeme
  trees u hu := by
    rw [List.mem_singleton.mp hu]
    exact Tree.sound_leaf ..
  one _ := ⟨_, rfl, isComment_kind t.terminal⟩
  comments := by simp [shifted]

section Parts
variable {s : JavaStep} {ss : List JavaStep} {f : Frame} {fs : List Frame}

/-- Single trees stay single. -/
theorem Frame.Sound.one_dressed (hf : f.Sound) (hs : isFitting s) (hsymbol : f.symbol = s.symbol)
    (hone : isOneTree s.symbol) :
    ∃ t, f.trees = [t] ∧ t.isComment = false ∧ (t.dressed s).isComment = false := by
  obtain ⟨t, ht, hcomment⟩ := hf.one (hsymbol ▸ hone)
  have hkinds : ∀ k ∈ s.shown, k.isComment = false := by
    intro k hk
    have hkind := (Bool.and_eq_true_iff.mp hs).2
    rw [Option.mem_def.mp hk] at hkind
    simpa using hkind
  exact ⟨t, ht, hcomment, Tree.isComment_dressed hkinds hcomment⟩

/-- Roles and kinds do no harm to the trees of a frame. -/
theorem Frame.Sound.dressed (hf : f.Sound) (hs : isFitting s) (hsymbol : f.symbol = s.symbol) :
    (∀ t ∈ f.trees.map (dressed s), t.Sound) ∧
      withoutComments (f.trees.map (dressed s)) = (withoutComments f.trees).map (dressed s) := by
  have hbare := (Bool.and_eq_true_iff.mp hs).1
  rcases Bool.or_eq_true_iff.mp hbare with hbare | hone
  · obtain ⟨hlabel, hshown⟩ := Bool.and_eq_true_iff.mp hbare
    rw [Option.isNone_iff_eq_none] at hlabel hshown
    rw [Tree.map_dressed_of_bare hlabel hshown, Tree.map_dressed_of_bare hlabel hshown]
    exact ⟨hf.trees, rfl⟩
  · obtain ⟨t, ht, hcomment, hdressed⟩ := hf.one_dressed hs hsymbol hone
    have hsound := hf.trees t (ht ▸ List.mem_singleton_self t)
    rw [ht, List.map_singleton]
    refine ⟨fun u hu => ?_, ?_⟩
    · rw [List.mem_singleton.mp hu]
      refine ⟨fun herror => ?_, fun h => ?_⟩
      · rw [Tree.hasError_dressed] at herror
        exact (hsound.conforms herror).dressed
      · rw [hdressed] at h
        cases h
    · simp [withoutComments, hdressed, hcomment]

/-- The children that some frames give are sound. Without the comments they are what the steps
yield. -/
theorem gather_sound (hss : ∀ s ∈ ss, isFitting s) (hfs : ∀ f ∈ fs, f.Sound)
    (hsymbols : fs.map (·.symbol) = ss.map (·.symbol)) :
    (∀ t ∈ gather ss fs, t.Sound) ∧
      (forestHasError (gather ss fs) = false →
        StepsYield ss (withoutComments (gather ss fs))) := by
  induction ss generalizing fs with
  | nil => exact ⟨List.forall_mem_nil _, fun _ => .nil⟩
  | cons s ss ih =>
    cases fs with
    | nil => cases hsymbols
    | cons f fs =>
      obtain ⟨hsymbol, hsymbols⟩ : f.symbol = s.symbol ∧ _ := List.cons.inj hsymbols
      obtain ⟨hs, hss⟩ := List.forall_mem_cons.mp hss
      obtain ⟨hf, hfs⟩ := List.forall_mem_cons.mp hfs
      obtain ⟨hdressed, hwithout⟩ := hf.dressed hs hsymbol
      obtain ⟨hrest, hyields⟩ := ih hss hfs hsymbols
      -- comments behind the last frame are left to the frame that takes its place
      have hbetween : ∀ t ∈ if fs.isEmpty then [] else f.comments, t.IsExtra := by
        split
        · exact List.forall_mem_nil _
        · exact hf.comments
      rw [gather, Tree.dress_eq]
      refine ⟨?_, fun herror => ?_⟩
      · have hsound := fun t ht => (hbetween t ht).sound
        exact List.forall_mem_append.mpr ⟨List.forall_mem_append.mpr ⟨hdressed, hsound⟩, hrest⟩
      · rw [Tree.forestHasError_append, Tree.forestHasError_append, Bool.or_eq_false_iff,
          Bool.or_eq_false_iff, Tree.forestHasError_map_dressed] at herror
        obtain ⟨⟨htrees, hcomments⟩, hgather⟩ := herror
        rw [Tree.withoutComments_append, Tree.withoutComments_append, hwithout,
          Tree.IsExtra.withoutComments_eq_nil hbetween hcomments, List.append_nil]
        exact .cons (hsymbol ▸ hf.yields htrees) (hyields hgather)

end Parts

/-! ## Reading backwards -/

theorem wrap_of_isHidden {p : Phrase} (hp : p.isHidden) (ts : List Tree) : wrap p ts = ts := by
  cases p <;> first | rfl | cases hp

theorem shapeOf?_of_ruleOf? {k : NodeKind} {r : JavaRule} (hr : ruleOf? (.node k) = some r) :
    shapeOf? k = some r := by
  unfold shapeOf?
  split
  · cases hr
  · exact hr

section Reductions
variable {p : Production Terminal Phrase Field TokenKind} {parts : List Frame}

/-- A node over the children that the frames of its production give. -/
theorem sound_branch {k : NodeKind} (hp : p ∈ grammar.productions) (hphrase : p.phrase = .node k)
    (hparts : ∀ f ∈ parts, f.Sound) (hsymbols : parts.map (·.symbol) = p.steps.map (·.symbol)) :
    (Tree.branch k none (gather p.steps parts)).Sound := by
  obtain ⟨hsound, hyields⟩ := gather_sound (isFitting_of_mem p hp) hparts hsymbols
  refine Tree.sound_of_yields hsound fun herror => ?_
  obtain ⟨r, hr, hr'⟩ := Yields.of_production hp (hyields herror)
  exact ⟨r, shapeOf?_of_ruleOf? (hphrase ▸ hr), hr'⟩

/-- The production of a phrase that is one tree gives one child. -/
theorem one_gather (hp : p ∈ grammar.productions) (hparts : ∀ f ∈ parts, f.Sound)
    (hsymbols : parts.map (·.symbol) = p.steps.map (·.symbol)) (hhidden : p.phrase.isHidden)
    (hone : p.phrase.isOne) : ∃ t, gather p.steps parts = [t] ∧ t.isComment = false := by
  have hstraight := isStraight_of_isOne p hp hhidden hone
  have hfitting := isFitting_of_mem p hp
  revert hstraight hfitting hsymbols
  rw [isStraight]
  rcases p.steps with _ | ⟨s, _ | ⟨_, _⟩⟩
  case cons.nil =>
    intro hsymbols hone hfitting
    obtain ⟨f, rfl, hsymbol⟩ := List.map_eq_singleton_iff.mp hsymbols
    obtain ⟨t, ht, -, hdressed⟩ := (hparts f (List.mem_singleton_self f)).one_dressed
      (hfitting s (List.mem_singleton_self s)) hsymbol hone
    exact ⟨t.dressed s, by simp [gather, Tree.dress_eq, ht], hdressed⟩
  all_goals
    intro _ hone
    cases hone

/-- The frame that takes the place of the frames of a production. -/
theorem sound_reduced {f : Frame} (hp : p ∈ grammar.productions) (hparts : ∀ f ∈ parts, f.Sound)
    (hf : Reduction p parts f) : f.Sound := by
  obtain ⟨hsymbols, hsymbol, htrees, hcomments⟩ := hf
  have hextra : ∀ t ∈ f.comments, t.IsExtra := by
    rw [hcomments, trailing]
    cases hlast : parts.getLast? with
    | none => exact List.forall_mem_nil _
    | some g => exact (hparts g (List.mem_of_getLast? hlast)).comments
  cases hhidden : p.phrase.isHidden with
  | false =>
    obtain ⟨k, hphrase⟩ : ∃ k, p.phrase = .node k := by
      cases hk : p.phrase with
      | node k => exact ⟨k, rfl⟩
      | _ => rw [hk] at hhidden; cases hhidden
    rw [hphrase] at htrees hsymbol
    refine ⟨fun _ => ?_, fun t ht => ?_, fun _ => ⟨_, htrees, rfl⟩, hextra⟩
    · rw [hsymbol, htrees]
      exact .node k _
    · rw [htrees] at ht
      rw [List.mem_singleton.mp ht]
      exact sound_branch hp hphrase hparts hsymbols
  | true =>
    obtain ⟨hsound, hyields⟩ := gather_sound (isFitting_of_mem p hp) hparts hsymbols
    rw [wrap_of_isHidden hhidden] at htrees
    refine ⟨fun herror => ?_, fun t ht => ?_, fun hone => ?_, hextra⟩
    · rw [htrees] at herror
      obtain ⟨r, hr, hr'⟩ := Yields.of_production hp (hyields herror)
      rw [hsymbol, htrees]
      exact .phrase hhidden hr hr'
    · rw [htrees] at ht
      exact hsound t ht
    · rw [htrees]
      exact one_gather hp hparts hsymbols hhidden (by rwa [hsymbol] at hone)

end Reductions

/-! ## Threads -/

/-- A thread whose frames are sound, with nothing but comments and errors before them. -/
structure Thread.Sound (th : Thread) : Prop where
  frames : ∀ f ∈ th.frames, f.Sound
  opening : ∀ t ∈ th.opening, t.IsExtra

theorem sound_start (source : String) : (start source).Sound :=
  ⟨List.forall_mem_nil _, List.forall_mem_nil _⟩

/-- Adding a comment keeps a thread sound. -/
theorem Thread.Sound.addComment {th : Thread} (hth : th.Sound) {t : Tree} (ht : t.IsExtra)
    (after : Place) : (th.addComment t after).Sound := by
  have happend {ts : List Tree} (hts : ∀ u ∈ ts, u.IsExtra) : ∀ u ∈ ts ++ [t], u.IsExtra :=
    List.forall_mem_append.mpr ⟨hts, List.forall_mem_singleton.mpr ht⟩
  unfold Thread.addComment
  cases hframes : th.frames with
  | nil => exact ⟨List.forall_mem_nil _, happend hth.opening⟩
  | cons f fs =>
    obtain ⟨hf, hfs⟩ := List.forall_mem_cons.mp (hframes ▸ hth.frames)
    have hlast := hf.withComments (happend hf.comments)
    exact ⟨List.forall_mem_cons.mpr ⟨hlast, hfs⟩, hth.opening⟩

/-- **One step** of a sound thread leads to sound threads. -/
theorem Thread.Sound.next {th next : Thread} (hth : th.Sound) (hnext : th.Next next) :
    next.Sound := by
  cases hnext with
  | comment hk ht => exact hth.addComment (.comment hk) _
  | @token t frames ht hspelled htakes =>
    exact ⟨htakes.forall_mem sound_reduced (sound_shifted · t) hth.frames, hth.opening⟩

/-! ## Whole texts -/

/-- The comments of a text that holds nothing else. -/
theorem isVoid_sound {fuel : Nat} {th void : Thread} (hth : th.Sound) (hframes : th.frames = [])
    (h : isVoid fuel th = some void) : void.Sound ∧ void.frames = [] := by
  let bare (th : Thread) : Prop := th.Sound ∧ th.frames = []
  refine isVoid_of_comment (P := bare) ?_ ⟨hth, hframes⟩ h
  rintro th k t ⟨hth, hframes⟩ hk -
  refine ⟨hth.addComment (.comment hk) _, ?_⟩
  rw [Thread.addComment, hframes]

section Wholes
variable {th : Thread}

/-- Everything that a sound thread has read is sound. -/
theorem Thread.Sound.forest (hth : th.Sound) : ∀ t ∈ th.forest, t.Sound := by
  intro t ht
  rcases List.mem_append.mp ht with ht | ht
  · exact (hth.opening t ht).sound
  · obtain ⟨f, hf, ht⟩ := List.mem_flatMap.mp ht
    have hf := hth.frames f (List.mem_reverse.mp hf)
    rcases List.mem_append.mp ht with ht | ht
    · exact hf.trees t ht
    · exact (hf.comments t ht).sound

/-- A text of comments only. -/
theorem Thread.Sound.void (hth : th.Sound) (hframes : th.frames = []) :
    (Tree.branch .program none th.forest).Sound := by
  refine Tree.sound_of_yields hth.forest fun herror => ⟨_, rfl, .right ?_⟩
  have hforest : th.forest = th.opening := by
    rw [Thread.forest, hframes]
    exact List.append_nil _
  rw [hforest] at herror ⊢
  rw [IsExtra.withoutComments_eq_nil hth.opening herror]
  exact .empty

/-- **A thread that has read the whole text** holds a tree that conforms, unless it marks an
error. -/
theorem Thread.Sound.whole (hth : th.Sound) (hwhole : th.isWhole) :
    (Tree.branch .program none th.forest).Sound := by
  refine Tree.sound_of_yields hth.forest fun herror => ⟨_, rfl, .left ?_⟩
  obtain ⟨f, hframes, hsymbol⟩ := List.map_eq_singleton_iff.mp (eq_of_beq hwhole)
  have hf := hth.frames f (hframes ▸ List.mem_singleton_self f)
  have hforest : th.forest = th.opening ++ (f.trees ++ f.comments) := by
    rw [Thread.forest, hframes]
    exact congrArg _ (List.append_nil _)
  rw [hforest, Tree.forestHasError_append, Tree.forestHasError_append, Bool.or_eq_false_iff,
    Bool.or_eq_false_iff] at herror
  obtain ⟨hopening, htrees, hcomments⟩ := herror
  rw [hforest, Tree.withoutComments_append, Tree.withoutComments_append,
    IsExtra.withoutComments_eq_nil hth.opening hopening,
    IsExtra.withoutComments_eq_nil hf.comments hcomments, List.nil_append, List.append_nil]
  have hyields := hf.yields htrees
  rw [hsymbol] at hyields
  exact hyields

end Wholes

end Reader

end CodeRisk.Java
