import CodeRisk.Java.Repair

/-!
# What the search for a repair keeps

The search makes no attempts and results of its own: it steps attempts, repairs them, puts them in
order and drops some. So what every step and every repair preserves (`Repair.IsKept`) holds of all
that the search finds (`Repair.search_of_isKept`).
-/
namespace CodeRisk.Java.Repair
open Reader

/-- A step leads from attempts with `P` to attempts with `P` and results with `Q`, and a repair
leads to attempts with `P`. -/
structure IsKept (P : Attempt → Prop) (Q : Result → Prop) : Prop where
  live : ∀ {others a}, P a → ∀ b ∈ (step others a).live, P b
  done : ∀ {others a}, P a → ∀ r ∈ (step others a).done, Q r
  repair : ∀ {others a p}, P a → ∀ b ∈ repair others a p, P b

variable {P : Attempt → Prop} {Q : Result → Prop} {a : Attempt} {attempts : List Attempt}
  {found : Option Result}

/-! ## Results -/

theorem cheaper_of_forall {new : Result} (hfound : ∀ r ∈ found, Q r) (hnew : Q new) :
    ∀ r ∈ cheaper found new, Q r := by
  unfold cheaper
  split
  · rintro r ⟨⟩
    exact hnew
  next old =>
    split
    · rintro r ⟨⟩
      exact hnew
    · exact hfound

theorem foldl_cheaper_of_forall {done : List Result} (hfound : ∀ r ∈ found, Q r)
    (hdone : ∀ r ∈ done, Q r) : ∀ r ∈ done.foldl cheaper found, Q r := by
  induction done generalizing found with
  | nil => exact hfound
  | cons new done ih =>
    obtain ⟨hnew, hdone⟩ := List.forall_mem_cons.mp hdone
    exact ih (cheaper_of_forall hfound hnew) hdone

/-! ## Attempts in order -/

/-- Some attempts are dropped, but those that are kept are the same. -/
theorem enter_of_forall (ha : P a) (hattempts : ∀ b ∈ attempts, P b) :
    ∀ b ∈ enter a attempts, P b := by
  induction attempts generalizing a with
  | nil => exact List.forall_mem_singleton.mpr ha
  | cons first rest ih =>
    obtain ⟨hfirst, hrest⟩ := List.forall_mem_cons.mp hattempts
    have hbehind : ∀ b ∈ first :: enter a rest, P b :=
      List.forall_mem_cons.mpr ⟨hfirst, ih ha hrest⟩
    have hahead : ∀ b ∈ a :: enter first rest, P b :=
      List.forall_mem_cons.mpr ⟨ha, ih hfirst hrest⟩
    rw [enter]
    cases compare first.total first.inFault first.progress a with
    | takeLeft => exact hattempts
    | preferLeft | neither =>
      dsimp only
      split
      · exact hattempts
      · exact hbehind
    | preferRight =>
      dsimp only
      split
      · exact hattempts
      · exact hahead
    | takeRight => exact ih ha hrest

theorem sift_of_forall (hattempts : ∀ b ∈ attempts, P b) : ∀ b ∈ sift attempts, P b := by
  have hkept : ∀ b ∈ attempts.foldl (fun kept a => enter a kept) [], P b := by
    let kept (bs : List Attempt) : Prop := ∀ b ∈ bs, P b
    exact List.foldlRecOn (motive := kept) _ _ (List.forall_mem_nil _) fun bs hbs a ha =>
      enter_of_forall (hattempts a ha) hbs
  exact fun b hb => hkept b (List.mem_of_mem_take hb)

namespace IsKept
variable (h : IsKept P Q)
include h

/-! ## Rounds and the search -/

/-- Rounds of steps keep all attempts, those that are ready and those that wait. -/
theorem round (fuel last : Nat) {ready waiting : List Attempt}
    (hready : ∀ b ∈ ready, P b) (hwaiting : ∀ b ∈ waiting, P b) (hfound : ∀ r ∈ found, Q r) :
    (∀ b ∈ (Repair.round fuel last ready waiting found).1, P b) ∧
      ∀ r ∈ (Repair.round fuel last ready waiting found).2, Q r := by
  have hreverse {ready : List Attempt} (hready : ∀ b ∈ ready, P b) : ∀ b ∈ ready.reverse, P b :=
    fun b hb => hready b (List.mem_reverse.mp hb)
  induction fuel generalizing last ready waiting found with
  | zero => exact ⟨List.forall_mem_append.mpr ⟨hreverse hready, hwaiting⟩, hfound⟩
  | succ fuel ih =>
    cases waiting with
    | nil => exact ⟨hreverse hready, hfound⟩
    | cons a waiting =>
      obtain ⟨ha, hrest⟩ := List.forall_mem_cons.mp hwaiting
      rw [Repair.round]
      split
      · exact ih _ (List.forall_mem_cons.mpr ⟨ha, hready⟩) hrest hfound
      · have hlive : ∀ b ∈ (step (ready.reverse ++ waiting) a).live, P b := h.live ha
        have hdone : ∀ r ∈ (step (ready.reverse ++ waiting) a).done, Q r := h.done ha
        generalize step (ready.reverse ++ waiting) a = outcome at hlive hdone ⊢
        have hcheaper := foldl_cheaper_of_forall hfound hdone
        dsimp only
        split
        next => exact ih _ hready hrest hcheaper
        next b more hbs =>
          obtain ⟨hb, hmore⟩ := List.forall_mem_cons.mp (hbs ▸ hlive)
          split
          · exact ih _ (List.forall_mem_cons.mpr ⟨hb, hready⟩)
              (List.forall_mem_append.mpr ⟨hrest, hmore⟩) hcheaper
          · exact ih _ hready (List.forall_mem_append.mpr
              ⟨List.forall_mem_cons.mpr ⟨hb, hrest⟩, hmore⟩) hcheaper

theorem resume (hattempts : ∀ b ∈ attempts, P b) : ∀ b ∈ Repair.resume attempts, P b := by
  cases attempts with
  | nil => exact List.forall_mem_nil _
  | cons a rest =>
    obtain ⟨ha, hrest⟩ := List.forall_mem_cons.mp hattempts
    have hgoing : ∀ b ∈ rest.filter fun b => !b.isStuck, P b :=
      fun b hb => hrest b (List.mem_filter.mp hb).1
    unfold Repair.resume
    dsimp only
    split
    next place _ =>
      split
      next => exact hgoing
      next b more hrepair =>
        have hmore : ∀ b ∈ Repair.repair (rest.filter fun b => !b.isStuck) a place, P b :=
          h.repair ha
        rw [hrepair] at hmore
        obtain ⟨hb, hmore⟩ := List.forall_mem_cons.mp hmore
        exact List.forall_mem_append.mpr ⟨List.forall_mem_cons.mpr ⟨hb, hgoing⟩, hmore⟩
    next => exact List.forall_mem_cons.mpr ⟨ha, hgoing⟩

/-- **What every step and every repair keeps, the search keeps.** -/
theorem search {fuel last : Nat} (hattempts : ∀ b ∈ attempts, P b) (hfound : ∀ r ∈ found, Q r) :
    ∀ r ∈ Repair.search fuel last attempts found, Q r := by
  induction fuel generalizing last attempts found with
  | zero => exact hfound
  | succ fuel ih =>
    cases attempts with
    | nil => exact hfound
    | cons a rest =>
      have hround := h.round 64 last (List.forall_mem_nil _) hattempts hfound
      rw [Repair.search]
      · generalize Repair.round 64 last [] (a :: rest) found = result at hround ⊢
        obtain ⟨after, better⟩ := result
        dsimp -zeta only
        -- whether the search ends here depends on costs only
        extract_lets kept last settled
        split
        · exact hround.2
        · exact ih (h.resume (sift_of_forall hround.1)) hround.2
      · exact List.cons_ne_nil a rest

/-- The tree of a text that could not be read comes from a result with `Q`, or all that was read is
one error. -/
theorem tree {f : Failure} (hstart : P (start f)) (limit : Nat) :
    (∃ r, Q r ∧ r.tree = Repair.tree f limit) ∨
      Repair.tree f limit = .branch .error none f.thread.forest := by
  have hresume : ∀ b ∈ Repair.resume [start f], P b :=
    h.resume (List.forall_mem_singleton.mpr hstart)
  have hnone : ∀ r ∈ (none : Option Result), Q r := fun r hr => nomatch hr
  unfold Repair.tree
  split
  next r hr => exact .inl ⟨r, h.search hresume hnone r hr, rfl⟩
  next => exact .inr rfl

end IsKept

end CodeRisk.Java.Repair
