import CodeRisk.Proofs.Batch.Undisturbed

/-!
# An analyzer in use

One analyzer is configured, asked and called off again and again, in any order. Its flag is a cell
of shared memory, and everyone who has been given a handle can store into that cell, also while a
batch is running and after the analyzer has been configured anew. A session keeps the memory and the
handles apart from the analyzer, and every operation that the analyzer itself carries out goes
through its own definition (`Session.put`).

Nothing but two values survives an operation: the one last stored into the flag, which all handles
show, and the prefixes last configured (`Session.Tracks`). Everything else about the past is without
effect: any analysis gives what an analyzer gives that has just been made with these prefixes
(`Session.run_answers`).
-/
namespace CodeRisk

/-- An analyzer with the shared memory in which its flag lies. -/
structure Session where
  inspector : DependencyInspector := {}
  jobs : Option Nat := none
  /-- The cell of the flag. -/
  cell : Nat := 0
  /-- The shared memory. -/
  memory : List Bool := [false]
  /-- The cells that the handles given out so far stand for, oldest first. -/
  handles : List Nat := []
  deriving DecidableEq, Repr

/-- A way in which a value gets into a flag. -/
inductive FlagStore where
  /-- The analyzer is called off. -/
  | cancel
  /-- A value is stored through the handle that was given out at this position. -/
  | through (position : Nat) (value : Bool)
  deriving DecidableEq, Repr

/-- What happens while a batch is running. -/
inductive SessionEvent where
  | start (position : Nat)
  | store (x : FlagStore)
  deriving DecidableEq, Repr

/-- What can be done with an analyzer. An analysis comes with all it meets at its time: what is
loaded for each path, the revision, the time itself. -/
inductive Operation where
  | withConfig (c : Config)
  | withJobs (jobs : Option Nat)
  /-- A handle to the flag is given out. -/
  | giveHandle
  | store (x : FlagStore)
  | analyzeFile (load : Loader) (revision : Revision) (now : Timestamp) (path : String)
  | analyzeUnit (revision : Revision) (now : Timestamp) (path : String) (u : SourceUnit)
  | analyzeBatch (load : Loader) (revision : Revision) (now : Timestamp)
      (events : List SessionEvent) (paths : List String)

/-- What an operation gives back. -/
inductive Answer (ν : Type) where
  | nothing
  | handle (cell : Nat)
  | record (r : Except AnalysisError (FileMetadata ν))
  | report (b : BatchReport ν)

/-! ## What is stored and configured -/

/-- The value that is stored. -/
def FlagStore.value : FlagStore → Bool
  | cancel => true
  | through _ value => value

/-- What is stored while a batch is running. -/
def SessionEvent.store? : SessionEvent → Option FlagStore
  | start _ => none
  | store x => some x

namespace Operation

/-- The stores that belong to an operation. -/
def stores : Operation → List FlagStore
  | store x => [x]
  | analyzeBatch _ _ _ events _ => events.filterMap SessionEvent.store?
  | _ => []

/-- The prefixes that an operation configures. -/
def prefixes? : Operation → Option (List String)
  | withConfig c => some c.extraPlatformPrefixes
  | _ => none

/-- The value stored last, by whatever means; at the beginning a flag is not set. -/
def lastStored (ops : List Operation) : Bool :=
  ((ops.flatMap stores).map FlagStore.value).getLast?.getD false

/-- The prefixes configured last, none at the beginning. -/
def lastPrefixes (ops : List Operation) : List String :=
  (ops.filterMap prefixes?).getLast?.getD []

end Operation

/-- An analyzer just made, with nothing configured but the prefixes. -/
def Analyzer.fresh (extraPlatformPrefixes : List String) : Analyzer :=
  .ofConfig { extraPlatformPrefixes }

namespace Session

/-- What a handle for the cell shows. -/
def read? (s : Session) (cell : Nat) : Option Bool :=
  s.memory[cell]?

/-- Whether the flag of the analyzer is set. -/
def flag (s : Session) : Bool :=
  (s.read? s.cell).getD false

/-- The analyzer as it is now. -/
def analyzer (s : Session) : Analyzer :=
  ⟨s.inspector, s.jobs, s.flag⟩

/-- The session in which the analyzer has become `a`. -/
def put (s : Session) (a : Analyzer) : Session :=
  { s with
    inspector := a.inspector
    jobs := a.jobs
    memory := s.memory.set s.cell a.cancelled }

/-- The session after a value got into a flag. -/
def store (s : Session) : FlagStore → Session
  | .cancel => s.put s.analyzer.cancel
  | .through position value =>
    match s.handles[position]? with
    | some cell => { s with memory := s.memory.set cell value }
    | none => s

/-- The session after what happened during a batch. -/
def during (s : Session) (events : List SessionEvent) : Session :=
  (events.filterMap SessionEvent.store?).foldl store s

/-- What a batch sees of the events: its starts, and the flag after each store. -/
def seen : Session → List SessionEvent → List BatchEvent
  | _, [] => []
  | s, .start i :: events => .start i :: seen s events
  | s, .store x :: events => .store (s.store x).flag :: seen (s.store x) events

/-- The session after an operation. -/
def step (s : Session) : Operation → Session
  | .withConfig c => s.put (s.analyzer.withConfig c)
  | .withJobs jobs => s.put (s.analyzer.withJobs jobs)
  | .giveHandle => { s with handles := s.handles ++ [s.cell] }
  | .store x => s.store x
  | .analyzeFile .. | .analyzeUnit .. => s
  | .analyzeBatch _ _ _ events _ => s.during events

/-- What an operation gives back. -/
def answer {ν : Type} [Scale ν] (s : Session) : Operation → Answer ν
  | .giveHandle => .handle s.cell
  | .analyzeFile load revision now path => .record (s.analyzer.analyzeFile load revision now path)
  | .analyzeUnit revision now path u => .record (s.analyzer.analyzeUnit revision now path u)
  | .analyzeBatch load revision now events paths =>
    .report (s.analyzer.analyzeBatchDuring load revision now (s.seen events) paths)
  | _ => .nothing

/-- The session after some operations. -/
def run (s : Session) (ops : List Operation) : Session :=
  ops.foldl step s

/-- A value can only be stored through a handle that was given out. -/
def Allows (s : Session) : FlagStore → Prop
  | .cancel => True
  | .through position _ => position < s.handles.length

instance (s : Session) : DecidablePred s.Allows
  | .cancel => isTrue trivial
  | .through position _ => inferInstanceAs (Decidable (position < s.handles.length))

/-- Whether some operations can come one after the other: their stores use handles that were given
out before. -/
def ArePossible : Session → List Operation → Prop
  | _, [] => True
  | s, op :: ops => (∀ x ∈ op.stores, s.Allows x) ∧ ArePossible (s.step op) ops

/-- Whether some operations are possible can be decided one by one. -/
def decideArePossible (s : Session) : (ops : List Operation) → Decidable (s.ArePossible ops)
  | [] => isTrue trivial
  | op :: ops =>
    have := decideArePossible (s.step op) ops
    inferInstanceAs (Decidable ((∀ x ∈ op.stores, s.Allows x) ∧ ArePossible (s.step op) ops))

instance (s : Session) (ops : List Operation) : Decidable (s.ArePossible ops) :=
  s.decideArePossible ops

/-! ## What survives -/

/-- The flag has the value, and all handles stand for the flag. -/
structure Shows (s : Session) (value : Bool) : Prop where
  flag : s.read? s.cell = some value
  handles : ∀ cell ∈ s.handles, cell = s.cell

/-- The session is as the last stored value and the last prefixes have made it. -/
structure Tracks (s : Session) (ops : List Operation) : Prop where
  shows : s.Shows (Operation.lastStored ops)
  inspector : s.inspector = (Analyzer.fresh (Operation.lastPrefixes ops)).inspector

section Steps
variable {s : Session} {b : Bool}

/-- A store touches the memory only. -/
theorem exists_store_eq (x : FlagStore) : ∃ memory, s.store x = { s with memory } := by
  cases x with
  | cancel => exact ⟨s.memory.set s.cell true, rfl⟩
  | through position value =>
    rw [Session.store]
    cases s.handles[position]? with
    | none => exact ⟨s.memory, rfl⟩
    | some cell => exact ⟨s.memory.set cell value, rfl⟩

theorem exists_foldl_store_eq (xs : List FlagStore) :
    ∃ memory, xs.foldl Session.store s = { s with memory } := by
  induction xs generalizing s with
  | nil => exact ⟨s.memory, rfl⟩
  | cons x xs ih =>
    obtain ⟨first, hfirst⟩ := s.exists_store_eq x
    obtain ⟨last, hlast⟩ := ih (s := s.store x)
    rw [List.foldl_cons, hlast, hfirst]
    exact ⟨last, rfl⟩

/-- What could be stored before a store can be stored after it. -/
theorem Allows.store {y : FlagStore} (h : s.Allows y) (x : FlagStore) : (s.store x).Allows y := by
  obtain ⟨memory, hstore⟩ := s.exists_store_eq x
  rw [hstore]
  cases y with
  | cancel => trivial
  | through position value => exact h

theorem Shows.flag_eq (h : s.Shows b) : s.flag = b := by
  rw [Session.flag, h.flag]
  rfl

/-- Everyone sees what has been put into the cell of the flag. -/
theorem Shows.set (h : s.Shows b) (value : Bool) :
    (s.memory.set s.cell value)[s.cell]? = some value := by
  have hlt : s.cell < s.memory.length := (List.getElem?_eq_some_iff.mp h.flag).1
  exact List.getElem?_set_self hlt

theorem Shows.put (h : s.Shows b) (a : Analyzer) : (s.put a).Shows a.cancelled :=
  ⟨h.set a.cancelled, h.handles⟩

/-- **One store**: the flag has the stored value, whichever handle was used. -/
theorem Shows.store (h : s.Shows b) {x : FlagStore} (hx : s.Allows x) :
    (s.store x).Shows x.value := by
  cases x with
  | cancel => exact h.put s.analyzer.cancel
  | through position value =>
    have hget : s.handles[position]? = some s.handles[position] := List.getElem?_eq_getElem hx
    have hcell : s.handles[position] = s.cell := h.handles _ (List.getElem_mem hx)
    rw [Session.store, hget]
    refine ⟨?_, h.handles⟩
    rw [hcell]
    exact h.set value

theorem Shows.foldl_store (h : s.Shows b) {xs : List FlagStore} (hxs : ∀ x ∈ xs, s.Allows x) :
    (xs.foldl Session.store s).Shows ((xs.map FlagStore.value).getLast?.getD b) := by
  induction xs generalizing s b with
  | nil => exact h
  | cons x xs ih =>
    obtain ⟨hx, hxs⟩ := List.forall_mem_cons.mp hxs
    have hlast := ih (h.store hx) fun y hy => (hxs y hy).store x
    rw [List.foldl_cons, List.map_cons, List.getLast?_cons, Option.getD_some]
    exact hlast

end Steps

end Session

namespace Operation

theorem lastStored_append (ops : List Operation) (op : Operation) :
    lastStored (ops ++ [op]) =
      ((op.stores.map FlagStore.value).getLast?).getD (lastStored ops) := by
  rw [lastStored, List.flatMap_append, List.map_append, List.getLast?_append,
    List.flatMap_singleton]
  cases (op.stores.map FlagStore.value).getLast? <;> rfl

theorem lastPrefixes_append (ops : List Operation) (op : Operation) :
    lastPrefixes (ops ++ [op]) = op.prefixes?.getD (lastPrefixes ops) := by
  rw [lastPrefixes, List.filterMap_append, List.getLast?_append]
  cases h : op.prefixes? <;> simp [h, lastPrefixes]

end Operation

namespace Session
variable {s : Session} {ops : List Operation} {op : Operation}

theorem tracks_start : ({} : Session).Tracks [] :=
  ⟨⟨rfl, nofun⟩, rfl⟩

/-- An operation that neither stores nor configures leaves the session as it was tracked. -/
theorem Tracks.quiet (h : s.Tracks ops) (hstores : op.stores = [])
    (hprefixes : op.prefixes? = none) :
    s.Tracks (ops ++ [op]) := by
  refine ⟨?_, ?_⟩
  · rw [Operation.lastStored_append, hstores]
    exact h.shows
  · rw [Operation.lastPrefixes_append, hprefixes]
    exact h.inspector

/-- **The step invariant**: after any operation only the last stored value and the last prefixes
matter. -/
theorem Tracks.step (h : s.Tracks ops) (hop : ∀ x ∈ op.stores, s.Allows x) :
    (s.step op).Tracks (ops ++ [op]) := by
  have hflag : s.analyzer.cancelled = Operation.lastStored ops := h.shows.flag_eq
  cases op with
  | withConfig c =>
    refine ⟨?_, ?_⟩
    · rw [Operation.lastStored_append, ← hflag]
      exact h.shows.put (s.analyzer.withConfig c)
    · rw [Operation.lastPrefixes_append]
      rfl
  | withJobs jobs =>
    refine ⟨?_, ?_⟩
    · rw [Operation.lastStored_append, ← hflag]
      exact h.shows.put (s.analyzer.withJobs jobs)
    · rw [Operation.lastPrefixes_append]
      exact h.inspector
  | giveHandle =>
    have hquiet : s.Tracks (ops ++ [.giveHandle]) := h.quiet rfl rfl
    obtain ⟨hshows, hinspector⟩ := hquiet
    refine ⟨⟨hshows.flag, ?_⟩, hinspector⟩
    intro cell hcell
    rcases List.mem_append.mp hcell with hcell | hcell
    · exact hshows.handles cell hcell
    · exact List.mem_singleton.mp hcell
  | store x =>
    obtain ⟨memory, hstore⟩ := s.exists_store_eq x
    refine ⟨?_, ?_⟩
    · rw [Operation.lastStored_append]
      exact h.shows.store (hop x (List.mem_singleton_self x))
    · rw [Operation.lastPrefixes_append]
      show (s.store x).inspector = _
      rw [hstore]
      exact h.inspector
  | analyzeFile => exact h.quiet rfl rfl
  | analyzeUnit => exact h.quiet rfl rfl
  | analyzeBatch load revision now events paths =>
    obtain ⟨memory, hstores⟩ :=
      s.exists_foldl_store_eq (events.filterMap SessionEvent.store?)
    refine ⟨?_, ?_⟩
    · rw [Operation.lastStored_append]
      exact h.shows.foldl_store hop
    · rw [Operation.lastPrefixes_append]
      show (s.during events).inspector = _
      rw [during, hstores]
      exact h.inspector

/-- **The run invariant.** -/
theorem Tracks.run {more : List Operation} (h : s.Tracks ops) (hmore : s.ArePossible more) :
    (s.run more).Tracks (ops ++ more) := by
  induction more generalizing s ops with
  | nil =>
    rw [List.append_nil]
    exact h
  | cons op more ih =>
    obtain ⟨hop, hmore⟩ := hmore
    have hrest := ih (h.step hop) hmore
    rw [List.append_assoc] at hrest
    exact hrest

/-! ## Handles -/

/-- The flag stays in its cell, so a handle never loses it. -/
theorem cell_run (ops : List Operation) : (s.run ops).cell = s.cell := by
  induction ops generalizing s with
  | nil => rfl
  | cons op ops ih =>
    have hstep : (s.step op).cell = s.cell := by
      cases op with
      | store x =>
        obtain ⟨memory, hstore⟩ := s.exists_store_eq x
        show (s.store x).cell = s.cell
        rw [hstore]
      | analyzeBatch load revision now events paths =>
        obtain ⟨memory, hstores⟩ :=
          s.exists_foldl_store_eq (events.filterMap SessionEvent.store?)
        show (s.during events).cell = s.cell
        rw [during, hstores]
      | _ => rfl
    have hrest := ih (s := s.step op)
    exact hrest.trans hstep

end Session

/-! ## What analyses give -/

namespace Analyzer
variable {ν : Type} [Scale ν] {a b : Analyzer} (revision : Revision) (now : Timestamp) (p : String)

/-- Of an analyzer only its inspector shows in an analysis. -/
theorem analyzeUnit_congr (h : a.inspector = b.inspector) (u : SourceUnit) :
    (a.analyzeUnit revision now p u : Except AnalysisError (FileMetadata ν)) =
      b.analyzeUnit revision now p u := by
  unfold analyzeUnit
  rw [h]

theorem analyzeFile_congr (h : a.inspector = b.inspector) (load : Loader) :
    (a.analyzeFile load revision now p : Except AnalysisError (FileMetadata ν)) =
      b.analyzeFile load revision now p := by
  unfold analyzeFile
  cases load p with
  | error e => rfl
  | ok u => exact analyzeUnit_congr revision now p h u

end Analyzer

namespace Session
variable {s : Session}

/-- While only the value of the flag is stored, a batch sees the flag as it was. -/
theorem Shows.seen_unchanged {b : Bool} (h : s.Shows b) {events : List SessionEvent}
    (hstores : ∀ x ∈ events.filterMap SessionEvent.store?, s.Allows x ∧ x.value = b) :
    BatchEvent.Unchanged b (s.seen events) := by
  induction events generalizing s with
  | nil => exact nofun
  | cons e events ih =>
    cases e with
    | start i =>
      intro value hmem
      rcases List.mem_cons.mp hmem with heq | hmem
      · cases heq
      · exact ih h hstores value hmem
    | store x =>
      obtain ⟨⟨hx, hvalue⟩, hrest⟩ := List.forall_mem_cons.mp hstores
      have hshows := h.store hx
      rw [hvalue] at hshows
      intro value hmem
      rcases List.mem_cons.mp hmem with heq | hmem
      · exact (BatchEvent.store.inj heq).trans hshows.flag_eq
      · exact ih hshows (fun y hy => ⟨(hrest y hy).1.store x, (hrest y hy).2⟩) value hmem

/-- **Nothing of the past but two values shows.** After any operations in any order, the flag has
the value stored last, and every handle given out on the way shows it. An analysis of a file or of a
unit gives what an analyzer just made with the prefixes configured last gives at any other time,
timestamp aside. A batch during which the flag stays what it is skips all paths if the flag is set;
otherwise it skips none, and its results and failures are those of such an analyzer. -/
theorem run_answers {ν : Type} [Scale ν] (ops : List Operation)
    (h : ArePossible {} ops) :
    let s := run {} ops
    let flag := Operation.lastStored ops
    let fresh := Analyzer.fresh (Operation.lastPrefixes ops)
    s.flag = flag ∧
    (∀ before after cell, ops = before ++ .giveHandle :: after →
      (run {} before).answer .giveHandle = (.handle cell : Answer ν) → s.read? cell = some flag) ∧
    (∀ load revision now later path,
      s.answer (.analyzeFile load revision now path) =
        (.record ((fresh.analyzeFile load revision later path).map fun m =>
          { m with analyzedAt := now }) : Answer ν)) ∧
    (∀ revision now later path u,
      s.answer (.analyzeUnit revision now path u) =
        (.record ((fresh.analyzeUnit revision later path u).map fun m =>
          { m with analyzedAt := now }) : Answer ν)) ∧
    ∀ load revision now later events paths, BatchEvent.IsSchedule paths.length (s.seen events) →
      (∀ x ∈ events.filterMap SessionEvent.store?, s.Allows x ∧ x.value = flag) →
      let attempt : String → Except AnalysisError (FileMetadata ν) :=
        fresh.analyzeFile load revision later
      ∃ report : BatchReport ν,
        s.answer (.analyzeBatch load revision now events paths) = .report report ∧
        report.skipped = (if flag then paths else []) ∧
        report.results =
          (if flag then []
            else paths.filterMap fun p =>
              (attempt p).toOption.map fun m => { m with analyzedAt := now }) ∧
        report.failures =
          (if flag then [] else paths.filterMap fun p => BatchFailure.of? p (attempt p)) := by
  intro s flag fresh
  have htracks : s.Tracks ops := tracks_start.run h
  have hflag : s.flag = flag := htracks.shows.flag_eq
  have hinspector : s.analyzer.inspector = fresh.inspector := htracks.inspector
  refine ⟨hflag, ?_, ?_, ?_, ?_⟩
  · intro before after cell hops hanswer
    have hcell : (run {} before).cell = cell := Answer.handle.inj hanswer
    have hkept : s.cell = cell := by
      rw [← hcell, cell_run before]
      exact cell_run ops
    rw [← hkept]
    exact htracks.shows.flag
  · intro load revision now later path
    rw [answer, Analyzer.analyzeFile_congr revision now path hinspector,
      fresh.analyzeFile_at load revision now later path]
  · intro revision now later path u
    rw [answer, Analyzer.analyzeUnit_congr revision now path hinspector,
      fresh.analyzeUnit_at revision now later path u]
  · intro load revision now later events paths hschedule hstores attempt
    have hunchanged : BatchEvent.Unchanged s.analyzer.cancelled (s.seen events) := by
      show BatchEvent.Unchanged s.flag (s.seen events)
      rw [hflag]
      exact htracks.shows.seen_unchanged hstores
    have hattempt (p : String) :
        (s.analyzer.analyzeFile load revision now p : Except AnalysisError (FileMetadata ν)) =
          (attempt p).map fun m => { m with analyzedAt := now } := by
      rw [Analyzer.analyzeFile_congr revision now p hinspector]
      exact fresh.analyzeFile_at load revision now later p
    refine ⟨_, rfl, ?_⟩
    rw [Analyzer.analyzeBatchDuring_unchanged hschedule hunchanged, Analyzer.skipped_outcomes,
      Analyzer.results_outcomes, Analyzer.failures_outcomes]
    simp only [hattempt]
    change s.analyzer.cancelled = flag at hflag
    rw [hflag]
    refine ⟨rfl, ?_, ?_⟩
    · congr 2
      funext p
      cases attempt p <;> rfl
    · congr 2
      funext p
      cases attempt p <;> rfl

/-! ### A sample -/

/-- A handle is taken, prefixes are configured twice, and the analyzer is called off during a batch
and called on again through the handle. -/
def sampleOperations : List Operation :=
  let revision : Revision := ⟨"", "main"⟩
  [.giveHandle,
    .withConfig { extraPlatformPrefixes := ["com.acme"], jobs := some 4 },
    .analyzeFile Analyzer.sampleLoader revision ⟨0, 0, 0⟩ "Gone.java",
    .analyzeBatch Analyzer.sampleLoader revision ⟨0, 0, 0⟩ [.start 1, .store .cancel, .start 0]
      ["A.java", "B.java"],
    .withConfig { extraPlatformPrefixes := ["org.other"] },
    .store (.through 0 false),
    .withJobs (some 0)]

/-- A unit that imports from both packages. -/
def sampleImports : SourceUnit :=
  { SourceUnit.empty with
    types := [⟨"Order", .ofClass, [], ⟨1, 1⟩⟩]
    imports := ["com.acme.Item", "org.other.Log"] }

/-- After the sample the flag is not set, as the handle shows. The first prefix counts no longer and
the second one does. A batch skips nothing, though it starts its last position first and the flag is
stored once more as it is. -/
theorem run_answers_sample :
    ArePossible {} sampleOperations ∧
    let s := run {} sampleOperations
    let revision : Revision := ⟨"", "main"⟩
    s.flag = false ∧ s.read? 0 = some false ∧
    (∃ r : Except AnalysisError (FileMetadata Float),
      s.answer (.analyzeUnit revision ⟨5, 0, 0⟩ "Order.java" sampleImports) = .record r ∧
      r.toOption.map (fun m => m.dependencies.outgoing.toList) = some ["com.acme.Item"]) ∧
    ∃ b : BatchReport Float,
      s.answer (.analyzeBatch Analyzer.sampleLoader revision ⟨5, 0, 0⟩
        [.start 1, .store (.through 0 false), .start 0] ["A.java", "Gone.java"]) = .report b ∧
      b.skipped = [] ∧ b.results.map FileMetadata.className = ["A.java"] := by
  have hpossible : ArePossible {} sampleOperations := by decide
  obtain ⟨hflag, hhandles, -, hunit, hbatch⟩ :=
    run_answers (ν := Float) sampleOperations hpossible
  refine ⟨hpossible, hflag, hhandles [] sampleOperations.tail 0 rfl rfl, ?_, ?_⟩
  · refine ⟨_, hunit ⟨"", "main"⟩ ⟨5, 0, 0⟩ ⟨0, 0, 0⟩ "Order.java" sampleImports, ?_⟩
    rfl
  · obtain ⟨b, hanswer, hskipped, hresults, -⟩ :=
      hbatch Analyzer.sampleLoader ⟨"", "main"⟩ ⟨5, 0, 0⟩ ⟨0, 0, 0⟩
        [.start 1, .store (.through 0 false), .start 0] ["A.java", "Gone.java"]
        (by decide) (by decide)
    refine ⟨b, hanswer, hskipped, ?_⟩
    rw [hresults]
    rfl

end Session

end CodeRisk
