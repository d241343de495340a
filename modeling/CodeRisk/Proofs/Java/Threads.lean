import CodeRisk.Proofs.Java.Production
import Mathlib.Data.List.Basic

/-!
# What one step of a reader does

A step of a thread puts a comment behind what has been read, or it reads some productions backwards
and then takes a token (`Thread.Next`, `Thread.leads_step`). Nothing that has been read is lost or
moved when a production is read backwards: the new frame holds the trees of the old ones, and the
comments between them (`flatMap_gather`). What every step preserves holds of the thread that a run
ends with (`run_of_next`).
-/
namespace CodeRisk.Java

namespace Reader
open Grammar (Production)

/-! ## What frames hold -/

/-- The trees and comments of some frames, those of the oldest frame first. -/
def contents (frames : List Frame) : List Tree :=
  frames.reverse.flatMap fun f => f.trees ++ f.comments

@[simp] theorem contents_nil : contents [] = [] := rfl

theorem contents_append (fs gs : List Frame) :
    contents (fs ++ gs) = contents gs ++ contents fs := by
  rw [contents, List.reverse_append, List.flatMap_append, contents, contents]

theorem contents_cons (f : Frame) (fs : List Frame) :
    contents (f :: fs) = contents fs ++ (f.trees ++ f.comments) := by
  rw [← List.singleton_append, contents_append]
  simp [contents]

theorem contents_reverse (fs : List Frame) :
    contents fs.reverse = fs.flatMap fun f => f.trees ++ f.comments := by
  rw [contents, List.reverse_reverse]

theorem forest_eq (th : Thread) : th.forest = th.opening ++ contents th.frames := rfl

/-- The comments behind the last of some frames. -/
def trailing (fs : List Frame) : List Tree :=
  (fs.getLast?.map (·.comments)).getD []

section Gather
variable {ss : List JavaStep} {fs : List Frame}

/-- The frames of a production hold the children it gathers and the comments behind them. -/
theorem gather_append_trailing (h : fs.length = ss.length) :
    gather ss fs ++ trailing fs =
      (ss.zip fs).flatMap fun x => x.2.trees.map (Tree.dressed x.1) ++ x.2.comments := by
  induction ss generalizing fs with
  | nil =>
    obtain rfl := List.length_eq_zero_iff.mp h
    rfl
  | cons s ss ih =>
    cases fs with
    | nil => cases h
    | cons f fs =>
      have hrest := ih (Nat.succ.inj h)
      rw [gather, Tree.dress_eq, List.zip_cons_cons, List.flatMap_cons, ← hrest]
      -- comments are gathered unless they stand behind the last frame
      cases fs with
      | nil => simp [trailing, gather]
      | cons g fs => simp [trailing]

/-- **Nothing is lost or moved when a production is read backwards.** `g` is anything that can be
read off a tree whatever its role in its parent. -/
theorem flatMap_gather {α : Type} {g : Tree → List α} (hg : ∀ s t, g (Tree.dressed s t) = g t)
    (h : fs.length = ss.length) :
    (gather ss fs ++ trailing fs).flatMap g =
      (fs.flatMap fun f => f.trees ++ f.comments).flatMap g := by
  have hsecond : (ss.zip fs).map Prod.snd = fs := List.map_snd_zip (Nat.le_of_eq h)
  rw [gather_append_trailing h, List.flatMap_assoc, List.flatMap_assoc]
  calc (ss.zip fs).flatMap
        (fun x => (x.2.trees.map (Tree.dressed x.1) ++ x.2.comments).flatMap g)
      = (ss.zip fs).flatMap (fun x => (x.2.trees ++ x.2.comments).flatMap g) := by
        refine List.flatMap_congr fun x _ => ?_
        rw [List.flatMap_append, List.flatMap_append, List.flatMap_map]
        simp only [hg]
    _ = ((ss.zip fs).map Prod.snd).flatMap fun f => (f.trees ++ f.comments).flatMap g := by
        rw [List.flatMap_map]
    _ = fs.flatMap fun f => (f.trees ++ f.comments).flatMap g := by rw [hsecond]

/-- What is gathered ends in the trees of the last frame. -/
theorem gather_concat {s : JavaStep} {f : Frame} (h : fs.length = ss.length) :
    ∃ ts, gather (ss ++ [s]) (fs ++ [f]) = ts ++ f.trees.map (Tree.dressed s) := by
  induction ss generalizing fs with
  | nil =>
    obtain rfl := List.length_eq_zero_iff.mp h
    exact ⟨[], by simp [gather, Tree.dress_eq]⟩
  | cons s' ss ih =>
    cases fs with
    | nil => cases h
    | cons f' fs =>
      obtain ⟨ts, hts⟩ := ih (Nat.succ.inj h)
      rw [List.cons_append, List.cons_append, gather, hts, ← List.append_assoc]
      exact ⟨_, rfl⟩

end Gather

/-! ## Reading backwards -/

theorem mem_of_productions {n : Nat} {p : Production Terminal Phrase Field TokenKind}
    (h : productions[n]? = some p) : p ∈ grammar.productions := by
  unfold productions at h
  exact List.mem_toArray.mp (Array.mem_of_getElem? h)

/-- The frame `f` takes the place of the frames `parts` of a production. -/
structure Reduction (p : Production Terminal Phrase Field TokenKind) (parts : List Frame)
    (f : Frame) : Prop where
  symbols : parts.map (·.symbol) = p.steps.map (·.symbol)
  symbol : f.symbol = .phrase p.phrase
  trees : f.trees = wrap p.phrase (gather p.steps parts)
  comments : f.comments = trailing parts

theorem Reduction.length {p : Production Terminal Phrase Field TokenKind} {parts : List Frame}
    {f : Frame} (h : Reduction p parts f) : parts.length = p.steps.length := by
  have hlength := congrArg List.length h.symbols
  rwa [List.length_map, List.length_map] at hlength

/-- The frames after some productions have been read backwards. -/
inductive Reduces : List Frame → List Frame → Prop where
  | refl (fs : List Frame) : Reduces fs fs
  | step {p : Production Terminal Phrase Field TokenKind} {parts below reduced : List Frame}
      {f : Frame} (hp : p ∈ grammar.productions) (hf : Reduction p parts f)
      (h : Reduces (f :: below) reduced) : Reduces (parts.reverse ++ below) reduced

theorem reduces_of_reduce? {p : Production Terminal Phrase Field TokenKind}
    {frames reduced later : List Frame} (hp : p ∈ grammar.productions)
    (h : reduce? p frames = some reduced) (hlater : Reduces reduced later) :
    Reduces frames later := by
  unfold reduce? at h
  simp only at h
  split at h
  case isFalse => cases h
  case isTrue hsymbols =>
    obtain ⟨state, -, rfl⟩ := Option.map_eq_some_iff.mp h
    have hsplit : frames = (frames.take p.steps.length).reverse.reverse ++
        frames.drop p.steps.length := by
      rw [List.reverse_reverse, List.take_append_drop]
    rw [hsplit]
    exact .step hp ⟨hsymbols, rfl, rfl, rfl⟩ hlater

/-- A token is put on top of the frames after some productions have been read backwards, or it only
ends the text. -/
def Takes (frames : List Frame) (t : Token) (taken : List Frame) : Prop :=
  ∃ reduced, Reduces frames reduced ∧
    (taken = reduced ∨ ∃ state, taken = shifted state t :: reduced)

section Frames
variable {P : Frame → Prop} {frames : List Frame}

/-- **What every production keeps, reading backwards keeps.** -/
theorem Reduces.forall_mem {reduced : List Frame} (h : Reduces frames reduced)
    (hreduced : ∀ {p parts f}, p ∈ grammar.productions → (∀ g ∈ parts, P g) →
      Reduction p parts f → P f)
    (hframes : ∀ f ∈ frames, P f) : ∀ f ∈ reduced, P f := by
  induction h with
  | refl fs => exact hframes
  | step hp hf hlater ih =>
    obtain ⟨hparts, hbelow⟩ := List.forall_mem_append.mp hframes
    refine ih (List.forall_mem_cons.mpr ⟨hreduced hp (fun g hg => ?_) hf, hbelow⟩)
    exact hparts g (List.mem_reverse.mpr hg)

/-- The same for a token, if its frame is such. -/
theorem Takes.forall_mem {t : Token} {taken : List Frame} (h : Takes frames t taken)
    (hreduced : ∀ {p parts f}, p ∈ grammar.productions → (∀ g ∈ parts, P g) →
      Reduction p parts f → P f)
    (hshifted : ∀ state, P (shifted state t)) (hframes : ∀ f ∈ frames, P f) :
    ∀ f ∈ taken, P f := by
  obtain ⟨reduced, hreduces, htaken⟩ := h
  have hbefore : ∀ f ∈ reduced, P f := hreduces.forall_mem hreduced hframes
  rcases htaken with rfl | ⟨state, rfl⟩
  · exact hbefore
  · exact List.forall_mem_cons.mpr ⟨hshifted state, hbefore⟩

end Frames

theorem takes_of_mem_advance {fuel : Nat} {frames : List Frame} {tokens : List Token}
    {x : List Frame × Token} (h : x ∈ advance fuel frames tokens) :
    x.2 ∈ tokens ∧ Takes frames x.2 x.1 := by
  induction fuel generalizing frames with
  | zero =>
    rw [advance] at h
    exact absurd h List.not_mem_nil
  | succ fuel ih =>
    rw [advance] at h
    split at h
    next => cases h
    next t ht =>
      have hmem : t ∈ tokens := List.mem_of_find?_eq_some ht
      obtain ⟨action, -, h⟩ := List.mem_flatMap.mp h
      -- the actions of the table: a shift, the end of the text, a production
      split at h
      next state =>
        rw [List.mem_singleton.mp h]
        exact ⟨hmem, frames, .refl frames, .inr ⟨state, rfl⟩⟩
      next =>
        rw [List.mem_singleton.mp h]
        exact ⟨hmem, frames, .refl frames, .inl rfl⟩
      next n =>
        split at h
        next reduced hreduced =>
          obtain ⟨p, hp, hreduced⟩ := Option.bind_eq_some_iff.mp hreduced
          obtain ⟨hmem, later, hlater, htaken⟩ := ih h
          exact ⟨hmem, later,
            reduces_of_reduce? (mem_of_productions hp) hreduced hlater, htaken⟩
        next => cases h

theorem takes_of_mem_advanceAny {frames : List Frame} {tokens : List Token}
    {x : List Frame × Token} (h : x ∈ advanceAny frames tokens) :
    x.2 ∈ tokens ∧ Takes frames x.2 x.1 := by
  induction tokens with
  | nil =>
    rw [advanceAny] at h
    exact absurd h List.not_mem_nil
  | cons t ts ih =>
    rw [advanceAny] at h
    split at h
    next => exact (ih h).imp_left (List.mem_cons_of_mem _)
    next => exact takes_of_mem_advance h

/-! ## Tokens with a spelling -/

/-- A keyword, an operator or a bracket is spelled as its terminal says. -/
theorem take_of_mem_fixedTokens {cs : List Char} {s : String} {n : Nat}
    (h : (Terminal.fixed s, n) ∈ Lexer.fixedTokens cs) : cs.take n = s.toList := by
  obtain ⟨spelling, -, hspelling⟩ := List.mem_filterMap.mp h
  split at hspelling
  case isTrue hprefix =>
    cases hspelling
    rw [← String.length_toList]
    exact (List.prefix_iff_eq_take.mp (List.isPrefixOf_iff_prefix.mp hprefix)).symm
  case isFalse => cases hspelling

theorem take_of_mem_words {cs : List Char} {s : String} {n : Nat}
    (h : (Terminal.fixed s, n) ∈ Lexer.words cs) : cs.take n = s.toList := by
  have hprefix : cs.takeWhile Lexer.isWordPart <+: cs := List.takeWhile_prefix _
  unfold Lexer.words at h
  split at h
  · cases h
  · split at h
    · dsimp only at h
      split at h
      · rcases List.mem_cons.mp h with h | h
        · cases h
          rw [String.toList_ofList]
          exact (List.prefix_iff_eq_take.mp hprefix).symm
        · cases List.mem_singleton.mp h
      · cases List.mem_singleton.mp h
    · cases h

/-- A terminal is found only if it was looked for. -/
theorem exists_of_mem_found {xs : List (Terminal × Option Nat)} {t : Terminal} {n : Nat}
    (h : (t, n) ∈ xs.filterMap fun (t, n) => n.map fun n => (t, n)) : ∃ m, (t, m) ∈ xs := by
  obtain ⟨⟨u, m⟩, hu, h⟩ := List.mem_filterMap.mp h
  obtain ⟨k, -, h⟩ := Option.map_eq_some_iff.mp h
  cases h
  exact ⟨m, hu⟩

/-- No literal is a keyword, an operator or a bracket. -/
theorem fixed_notMem_literals {cs : List Char} {s : String} {n : Nat} :
    (Terminal.fixed s, n) ∉ Lexer.literals cs := by
  intro h
  obtain ⟨m, hm⟩ := exists_of_mem_found h
  simp at hm

theorem take_of_mem_candidates {cs : List Char} {s : String} {n : Nat}
    (h : (Terminal.fixed s, n) ∈ Lexer.candidates cs) : cs.take n = s.toList := by
  unfold Lexer.candidates at h
  split at h
  · cases List.mem_singleton.mp h
  · rw [List.mem_mergeSort] at h
    rcases List.mem_append.mp h with h | h
    · rcases List.mem_append.mp h with h | h
      · exact take_of_mem_words h
      · exact absurd h fixed_notMem_literals
    · exact take_of_mem_fixedTokens h

theorem take_of_mem_stringCandidates {cs : List Char} {s : String} {n : Nat}
    (h : (Terminal.fixed s, n) ∈ Lexer.stringCandidates cs) : cs.take n = s.toList := by
  rcases List.mem_append.mp h with h | h
  · exact take_of_mem_fixedTokens h
  · obtain ⟨m, hm⟩ := exists_of_mem_found h
    simp at hm

/-- A token that is spelled as its terminal says, if that has a spelling. -/
def Token.IsSpelled (t : Token) : Prop :=
  ∀ s, t.terminal = .fixed s → t.lexeme.text = s

/-- Every token that can stand at a place is spelled as its terminal says. -/
theorem isSpelled_at {p : Place} {blank n : Nat} {terminal : Terminal} {within : Bool}
    (h : (terminal, n) ∈ if within then Lexer.stringCandidates (p.skip blank).rest
      else Lexer.candidates (p.skip blank).rest) : (Token.at p blank terminal n).IsSpelled := by
  intro s hs
  obtain rfl : terminal = .fixed s := hs
  have htake : (p.skip blank).rest.take n = s.toList := by
    cases within with
    | false => exact take_of_mem_candidates h
    | true => exact take_of_mem_stringCandidates h
  show String.ofList ((p.skip blank).rest.take n) = s
  rw [htake, String.ofList_toList]

/-! ## Steps of threads -/

/-- The tokens and comments that stand at a place. -/
inductive Place.Has (p : Place) : Token → Prop where
  | intro (blank : Nat) (terminal : Terminal) (n : Nat) : Has p (Token.at p blank terminal n)

/-- **What one step of a thread may lead to.** -/
inductive Thread.Next (th : Thread) : Thread → Prop where
  | comment {k : TokenKind} {t : Token} (hk : k.isComment) (ht : th.place.Has t) :
      Next th (th.addComment (.leaf k none t.lexeme) t.after)
  | token {t : Token} {frames : List Frame} (ht : th.place.Has t) (hspelled : t.IsSpelled)
      (h : Takes th.frames t frames) :
      Next th { th with frames, place := t.after, endRow := t.lexeme.endRow }

/-- What an outcome leads to is next, and what is done has been read as a whole. -/
inductive Thread.Leads (th : Thread) : Outcome → Prop where
  | live {threads : List Thread} (h : ∀ next ∈ threads, th.Next next) : Leads th (.live threads)
  | done {threads : List Thread} (h : ∀ next ∈ threads, th.Next next ∧ next.isWhole) :
      Leads th (.done threads)
  | stuck (place : Place) : Leads th (.stuck place)

/-- At the end of the text only the threads are left that have read all of it. -/
theorem Thread.leads_of_end {th : Thread} {atEnd : Bool} {threads : List Thread}
    (h : ∀ next ∈ threads, th.Next next) :
    th.Leads (if atEnd then .done (threads.filter Thread.isWhole) else .live threads) := by
  cases atEnd with
  | false => exact .live h
  | true =>
    refine .done fun next hnext => ?_
    obtain ⟨hmem, hwhole⟩ := List.mem_filter.mp hnext
    exact ⟨h next hmem, hwhole⟩

theorem isComment_of_comment? {cs : List Char} {k : TokenKind} {n : Nat}
    (h : Lexer.comment? cs = some (k, n)) : k.isComment := by
  unfold Lexer.comment? at h
  split at h
  · cases h
    rfl
  · obtain ⟨m, -, h⟩ := Option.map_eq_some_iff.mp h
    cases h
    rfl
  · cases h

theorem Thread.leads_step (th : Thread) : th.Leads th.step := by
  unfold Thread.step
  simp only
  -- inside a string nothing is a comment
  split
  next k n hcomment =>
    have hk : k.isComment := by
      split at hcomment
      · cases hcomment
      · exact isComment_of_comment? hcomment
    exact .live (List.forall_mem_singleton.mpr (.comment hk (.intro ..)))
  next =>
    split
    next => exact .stuck _
    next =>
      refine leads_of_end fun next hnext => ?_
      obtain ⟨⟨frames, t⟩, hx, rfl⟩ := List.mem_map.mp hnext
      obtain ⟨htoken, htakes⟩ := takes_of_mem_advanceAny hx
      obtain ⟨⟨terminal, n⟩, hfound, ht⟩ := List.mem_map.mp htoken
      obtain rfl : Token.at th.place _ terminal n = t := ht
      exact .token (.intro ..) (isSpelled_at hfound) htakes

/-! ## Runs -/

/-- Threads that meet others are dropped, and nothing else comes in. -/
theorem mem_of_mem_enqueue {th other : Thread} {queue : List Thread}
    (h : other ∈ enqueue th queue) : other = th ∨ other ∈ queue := by
  induction queue with
  | nil => exact .inl (List.mem_singleton.mp h)
  | cons first rest ih =>
    rw [enqueue] at h
    split at h
    · rcases List.mem_cons.mp h with h | h
      · split at h
        · exact .inl h
        · exact .inr (h ▸ List.mem_cons_self ..)
      · exact .inr (List.mem_cons_of_mem _ h)
    · split at h
      · exact List.mem_cons.mp h
      · rcases List.mem_cons.mp h with h | h
        · exact .inr (h ▸ List.mem_cons_self ..)
        · exact (ih h).imp_right (List.mem_cons_of_mem _)

theorem mem_of_best {th : Thread} {threads : List Thread} (h : best threads = some th) :
    th ∈ threads := by
  induction threads generalizing th with
  | nil => cases h
  | cons first rest ih =>
    rw [best] at h
    split at h
    · cases h
      exact List.mem_cons_self ..
    next other hother =>
      split at h
      · cases h
        exact List.mem_cons_of_mem _ (ih hother)
      · cases h
        exact List.mem_cons_self ..

theorem mem_of_mem_foldl_enqueue {other : Thread} {threads queue : List Thread}
    (h : other ∈ threads.foldl (fun queue th => enqueue th queue) queue) :
    other ∈ threads ∨ other ∈ queue := by
  induction threads generalizing queue with
  | nil => exact .inr h
  | cons th threads ih =>
    rcases ih h with h | h
    · exact .inl (List.mem_cons_of_mem _ h)
    · rcases mem_of_mem_enqueue h with rfl | h
      · exact .inl (List.mem_cons_self ..)
      · exact .inr h

/-- A run has come to a thread with `P` that has read the whole text, or it has failed at one with
`P`. -/
def EndsWith (P : Thread → Prop) : Except (Option Failure) Thread → Prop
  | .ok th => P th ∧ th.isWhole
  | .error failure => ∀ f ∈ failure, P f.thread

theorem further_of_forall {P : Thread → Prop} {failure : Option Failure} {th : Thread}
    {place : Place} (hfailure : ∀ f ∈ failure, P f.thread) (hth : P th) :
    ∀ f ∈ some (Failure.further failure ⟨th, place⟩), P f.thread := by
  rintro f ⟨⟩
  unfold Failure.further
  split
  · exact hth
  next old =>
    split
    · exact hth
    · exact hfailure old rfl

/-- **What every step preserves, a run preserves.** -/
theorem run_of_next {P : Thread → Prop} (hnext : ∀ th next, P th → th.Next next → P next)
    {fuel : Nat} {threads : List Thread} {failure : Option Failure}
    (hthreads : ∀ th ∈ threads, P th) (hfailure : ∀ f ∈ failure, P f.thread) :
    EndsWith P (run fuel threads failure) := by
  induction fuel generalizing threads failure with
  | zero => exact hfailure
  | succ fuel ih =>
    cases threads with
    | nil => exact hfailure
    | cons th rest =>
      obtain ⟨hth, hrest⟩ := List.forall_mem_cons.mp hthreads
      have hstep : th.Leads th.step := th.leads_step
      rw [run]
      generalize th.step = outcome at hstep ⊢
      cases hstep with
      | live hlive =>
        refine ih (fun other hother => ?_) hfailure
        exact (mem_of_mem_foldl_enqueue hother).elim (fun h => hnext th other hth (hlive other h))
          (hrest other)
      | stuck place => exact ih hrest (further_of_forall hfailure hth)
      | @done finished hdone =>
        have hfinished : ∀ next ∈ finished, P next ∧ next.isWhole := fun next h =>
          (hdone next h).imp_left (hnext th next hth)
        have hlater : EndsWith P (run fuel rest failure) := ih hrest hfailure
        generalize run fuel rest failure = later at hlater ⊢
        -- a thread behind this one may come to the end too, and then the best one is taken
        cases later with
        | ok other =>
          have hall : ∀ th ∈ finished ++ [other], P th ∧ th.isWhole :=
            List.forall_mem_append.mpr ⟨hfinished, List.forall_mem_singleton.mpr hlater⟩
          show EndsWith P (.ok ((best (finished ++ [other])).getD other))
          cases hbest : best (finished ++ [other]) with
          | none => exact hlater
          | some th => exact hall th (mem_of_best hbest)
        | error failure =>
          dsimp only
          cases hbest : best finished with
          | none => exact hlater
          | some th => exact hfinished th (mem_of_best hbest)

/-- The same for the comments of a text that holds nothing else. -/
theorem isVoid_of_comment {P : Thread → Prop}
    (hcomment : ∀ th k t, P th → TokenKind.isComment k → th.place.Has t →
      P (th.addComment (.leaf k none t.lexeme) t.after))
    {fuel : Nat} {th last : Thread} (hth : P th) (h : isVoid fuel th = some last) : P last := by
  induction fuel generalizing th with
  | zero => cases h
  | succ fuel ih =>
    rw [isVoid] at h
    dsimp only at h
    split at h
    next k n hk =>
      exact ih (hcomment th k _ hth (isComment_of_comment? hk) (.intro ..)) h
    next =>
      split at h
      · cases h
        exact hth
      · cases h

end Reader

end CodeRisk.Java
