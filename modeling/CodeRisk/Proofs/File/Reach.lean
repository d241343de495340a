import CodeRisk.Proofs.File.Discovery
import Mathlib.Tactic.MkIffOfInductiveProp

/-!
# Reaching what was found

A search makes a path of the directory where it starts and the names that it followed. In a proper
tree, that is one as file systems have it, this path leads to where the names lead: the slashes that
were put in set the names apart again (`Path.parts_join`), the walk to the directory goes on along
them (`FileTree.IsProper.walk_append`, `FileTree.IsProper.walk_at?`), and the path is not too long
since its end was seen from the directory (`FileTree.at?_within`). So each path that a search gives
is that of a Java file (`Disk.find_of_mem_javaFiles`).
-/
namespace CodeRisk

namespace Path

/-! ## Parts of a joined path -/

theorem parts_eq_splitOn (cs : List Char) : parts cs = cs.splitOn '/' := by
  induction cs with
  | nil => rfl
  | cons c cs ih =>
    rw [parts, List.splitOn_cons_eq_if_modifyHead, ih]
    by_cases hc : c = '/'
    · simp [hc]
    · rw [if_neg hc, if_neg (by simpa using hc)]
      cases hsplit : cs.splitOn '/' with
      | nil => exact absurd hsplit (List.splitOn_ne_nil _ _)
      | cons p ps => rfl

/-- A slash sets the parts before it apart from those after it. -/
theorem parts_append_slash (cs ds : List Char) :
    parts (cs ++ '/' :: ds) = parts cs ++ parts ds := by
  rw [parts_eq_splitOn, parts_eq_splitOn, parts_eq_splitOn, List.splitOn_append_cons_self]

theorem parts_of_slashless {cs : List Char} (h : '/' ∉ cs) : parts cs = [cs] := by
  rw [parts_eq_splitOn, List.splitOn_eq_singleton h]

theorem parts_intercalate {names : List String} (hne : names ≠ [])
    (hslash : ∀ name ∈ names, '/' ∉ name.toList) :
    parts ("/".intercalate names).toList = names.map String.toList := by
  rw [parts_eq_splitOn, String.toList_intercalate]
  exact List.splitOn_intercalate '/' (by simpa using hslash) (by simpa using hne)

/-- The parts of a path that begins with a directory: those of the directory, but for an empty one
after a slash at its end, and those of what follows. -/
theorem parts_asPrefix_append (directory : String) :
    ∃ ps rest, parts directory.toList = ps ++ rest ∧ (∀ p ∈ rest, p = []) ∧
      ∀ cs, parts ((asPrefix directory).toList ++ cs) = ps ++ parts cs := by
  by_cases hslash : directory.toList.getLast? = some '/'
  · obtain ⟨before, hbefore⟩ := List.getLast?_eq_some_iff.mp hslash
    refine ⟨parts before, [[]], ?_, by simp, fun cs => ?_⟩
    · rw [hbefore, parts_append_slash]
      rfl
    · rw [← parts_append_slash, asPrefix, if_pos (by simpa using hslash), String.append_empty,
        hbefore, List.append_assoc]
      rfl
  · refine ⟨parts directory.toList, [], (List.append_nil _).symm, by simp, fun cs => ?_⟩
    rw [← parts_append_slash, asPrefix, if_neg (by simpa using hslash), String.toList_append]
    simp

/-- The names that were joined are parts of the path. -/
theorem parts_join (directory : String) :
    ∃ ps rest, parts directory.toList = ps ++ rest ∧ (∀ p ∈ rest, p = []) ∧
      ∀ names ≠ [], (∀ name ∈ names, '/' ∉ name.toList) →
        parts (join directory names).toList = ps ++ names.map String.toList := by
  obtain ⟨ps, rest, hps, hrest, hparts⟩ := parts_asPrefix_append directory
  refine ⟨ps, rest, hps, hrest, fun names hne hslash => ?_⟩
  rw [join, String.toList_append, hparts, parts_intercalate hne hslash]

theorem mem_intercalate {c : Char} {names : List String}
    (h : c ∈ ("/".intercalate names).toList) : c = '/' ∨ ∃ name ∈ names, c ∈ name.toList := by
  induction names with
  | nil => simp at h
  | cons name names ih =>
    cases names with
    | nil => exact .inr ⟨name, List.mem_cons_self, by simpa using h⟩
    | cons other names =>
      rw [String.intercalate_cons_cons, String.toList_append, String.toList_append,
        List.mem_append, List.mem_append] at h
      rcases h with (h | h) | h
      · exact .inr ⟨name, List.mem_cons_self, h⟩
      · exact .inl (by simpa using h)
      · rcases ih h with h | ⟨found, hfound, h⟩
        · exact .inl h
        · exact .inr ⟨found, List.mem_cons_of_mem _ hfound, h⟩

/-! ## Names -/

/-- What an entry of a directory may be called. -/
@[mk_iff]
structure IsName (name : String) : Prop where
  notHere : isHere name.toList = false
  notAbove : isAbove name.toList = false
  slashless : '/' ∉ name.toList
  nulless : '\x00' ∉ name.toList
  short : name.utf8ByteSize ≤ FileTree.longestName

instance (name : String) : Decidable (IsName name) :=
  decidable_of_iff' _ (isName_iff name)

theorem fileName?_eq_some {path name : String} {ps : List (List Char)}
    (hparts : parts path.toList = ps ++ [name.toList]) (hname : IsName name) :
    fileName? path = some name := by
  simp [fileName?, hparts, hname.notHere, hname.notAbove]

theorem isJava_congr {path other : String} (h : fileName? path = fileName? other) :
    isJava path = isJava other := by
  simp only [isJava, extension?, h]

/-- Joining adds slashes and names only. -/
theorem nulless_join {directory : String} {names : List String}
    (hdirectory : '\x00' ∉ directory.toList) (hnames : ∀ name ∈ names, IsName name) :
    '\x00' ∉ (join directory names).toList := by
  rw [join, asPrefix, String.toList_append, String.toList_append, List.mem_append,
    List.mem_append]
  rintro ((h | h) | h)
  · exact hdirectory h
  · split at h <;> simp at h
  · rcases mem_intercalate h with h | ⟨name, hname, h⟩
    · exact absurd h (by decide)
    · exact (hnames name hname).nulless h

/-- Whether a joined path names a Java source is decided by its last name. -/
theorem isJava_join (directory : String) {names : List String} {last : String}
    (hnames : ∀ name ∈ names, IsName name) (hlast : names.getLast? = some last) :
    isJava (join directory names) = isJava last := by
  obtain ⟨before, rfl⟩ := List.getLast?_eq_some_iff.mp hlast
  have hname : IsName last := hnames last (by simp)
  obtain ⟨ps, -, -, -, hparts⟩ := parts_join directory
  have hpath : fileName? (join directory (before ++ [last])) = some last := by
    have hlast : parts (join directory (before ++ [last])).toList =
        (ps ++ before.map String.toList) ++ [last.toList] := by
      rw [hparts _ (by simp) fun name hmem => (hnames name hmem).slashless]
      simp
    exact fileName?_eq_some hlast hname
  have hown : fileName? last = some last := by
    have hparts : parts last.toList = [] ++ [last.toList] := parts_of_slashless hname.slashless
    exact fileName?_eq_some hparts hname
  exact isJava_congr (hpath.trans hown.symm)

end Path

namespace FileTree

theorem walk_directory (above : List FileTree) (es : List (String × FileTree)) (p : List Char)
    (ps : List (List Char)) :
    walk above (directory es) (p :: ps) =
      if Path.isHere p then walk above (directory es) ps
      else if Path.isAbove p then walk above.tail (above.headD (directory es)) ps
      else if longestName < (String.ofList p).utf8ByteSize then .error .nameTooLong
      else
        match es.lookup (String.ofList p) with
        | none => .error .missing
        | some next => walk (directory es :: above) next ps := by
  cases above with
  | nil => exact walk.eq_4 ..
  | cons u us => exact walk.eq_5 ..

/-! ## Proper trees -/

/-- A tree as file systems have it: the entries of each directory bear different names, and each of
them is a name. -/
inductive IsProper : FileTree → Prop where
  | file (text : Option String) : IsProper (file text)
  | directory {es : List (String × FileTree)} (distinct : (es.map Prod.fst).Nodup)
      (named : ∀ e ∈ es, Path.IsName e.1) (entries : ∀ e ∈ es, IsProper e.2) :
      IsProper (directory es)
  | locked : IsProper locked

namespace IsProper

variable {t node : FileTree} {above : List FileTree} {names : List String}

theorem wellFormed (h : t.IsProper) : t.WellFormed := by
  induction h with
  | file text => exact .file text
  | directory distinct named _ ih =>
    exact .directory distinct (fun e he => (named e he).slashless) ih
  | locked => exact .locked

theorem of_lookup {es : List (String × FileTree)} {name : String} (h : (FileTree.directory es).IsProper)
    (hnode : es.lookup name = some node) : Path.IsName name ∧ node.IsProper := by
  cases h with
  | directory distinct named entries =>
    have hmem := (lookup_eq_some_iff_mem distinct).mp hnode
    exact ⟨named _ hmem, entries _ hmem⟩

theorem isName_of_at? (h : t.IsProper) (hnode : t.at? names = some node) :
    ∀ name ∈ names, Path.IsName name := by
  induction names generalizing t with
  | nil => simp
  | cons name names ih =>
    cases t with
    | file text => simp [at?] at hnode
    | locked => simp [at?] at hnode
    | directory es =>
      rw [at?, Option.bind_eq_some_iff] at hnode
      obtain ⟨next, hnext, hnode⟩ := hnode
      obtain ⟨hname, hproper⟩ := h.of_lookup hnext
      exact List.forall_mem_cons.mpr ⟨hname, ih hproper hnode⟩

/-! ## Walks -/

/-- **The step of a walk.** It leads from one proper tree to another or ends in an error, whatever
parts are left. -/
theorem walk_cons (h : t.IsProper) (habove : ∀ u ∈ above, u.IsProper) (p : List Char) :
    (∃ e, ∀ ps, walk above t (p :: ps) = .error e) ∨
      ∃ above' u, u.IsProper ∧ (∀ v ∈ above', v.IsProper) ∧
        ∀ ps, walk above t (p :: ps) = walk above' u ps := by
  cases t with
  | file text => exact .inl ⟨.throughFile, fun ps => rfl⟩
  | locked =>
    by_cases hp : p = []
    · exact .inr ⟨above, .locked, h, habove, fun ps => by rw [walk, if_pos hp]⟩
    · exact .inl ⟨.denied, fun ps => by rw [walk, if_neg hp]⟩
  | directory es =>
    by_cases hhere : Path.isHere p = true
    · refine .inr ⟨above, .directory es, h, habove, fun ps => ?_⟩
      rw [walk_directory, if_pos hhere]
    by_cases hup : Path.isAbove p = true
    · refine .inr ⟨above.tail, above.headD (.directory es), ?_, ?_, fun ps => ?_⟩
      · cases above with
        | nil => exact h
        | cons u us => exact habove u List.mem_cons_self
      · exact fun u hu => habove u (List.mem_of_mem_tail hu)
      · rw [walk_directory, if_neg hhere, if_pos hup]
    by_cases hlong : longestName < (String.ofList p).utf8ByteSize
    · refine .inl ⟨.nameTooLong, fun ps => ?_⟩
      rw [walk_directory, if_neg hhere, if_neg hup, if_pos hlong]
    cases hnode : es.lookup (String.ofList p) with
    | none =>
      refine .inl ⟨.missing, fun ps => ?_⟩
      rw [walk_directory, if_neg hhere, if_neg hup, if_neg hlong, hnode]
    | some node =>
      refine .inr ⟨.directory es :: above, node, (h.of_lookup hnode).2, ?_, fun ps => ?_⟩
      · exact List.forall_mem_cons.mpr ⟨h, habove⟩
      · rw [walk_directory, if_neg hhere, if_neg hup, if_neg hlong, hnode]

/-- **The first parts of a path** lead to a proper tree from which the other parts are walked, or
end in an error whatever follows. -/
theorem walk_append (h : t.IsProper) (habove : ∀ u ∈ above, u.IsProper) (ps : List (List Char)) :
    (∃ e, ∀ qs, walk above t (ps ++ qs) = .error e) ∨
      ∃ above' u, u.IsProper ∧ ∀ qs, walk above t (ps ++ qs) = walk above' u qs := by
  induction ps generalizing above t with
  | nil => exact .inr ⟨above, t, h, fun qs => rfl⟩
  | cons p ps ih =>
    rcases h.walk_cons habove p with ⟨e, he⟩ | ⟨above', u, hu, habove', hstep⟩
    · exact .inl ⟨e, fun qs => he (ps ++ qs)⟩
    · simp only [List.cons_append, hstep]
      exact ih hu habove'

/-- Names lead a walk to what stands where they lead. -/
theorem walk_at? (h : t.IsProper) (hnode : t.at? names = some node) :
    walk above t (names.map String.toList) = .ok node := by
  induction names generalizing above t with
  | nil =>
    obtain rfl : t = node := Option.some.inj hnode
    rfl
  | cons name names ih =>
    cases t with
    | file text => simp [at?] at hnode
    | locked => simp [at?] at hnode
    | directory es =>
      rw [at?, Option.bind_eq_some_iff] at hnode
      obtain ⟨next, hnext, hnode⟩ := hnode
      obtain ⟨hname, hproper⟩ := h.of_lookup hnext
      rw [List.map_cons, walk_directory, if_neg (by simp [hname.notHere]),
        if_neg (by simp [hname.notAbove]), String.ofList_toList,
        if_neg (Nat.not_lt.mpr hname.short), hnext]
      exact ih hproper hnode

end IsProper

/-- Slashes at the end of a path lead nowhere else. -/
theorem eq_of_walk_empty {above : List FileTree} {t u : FileTree} {ps : List (List Char)}
    (hps : ∀ p ∈ ps, p = []) (h : walk above t ps = .ok u) : t = u := by
  induction ps with
  | nil => exact Except.ok.inj h
  | cons p ps ih =>
    obtain ⟨rfl, hempty⟩ := List.forall_mem_cons.mp hps
    cases t with
    | file text => cases h
    | directory es =>
      have hhere : Path.isHere [] = true := rfl
      rw [walk_directory, if_pos hhere] at h
      exact ih hempty h
    | locked =>
      rw [walk, if_pos rfl] at h
      exact ih hempty h

/-! ## What is seen from a path -/

theorem lookup_entriesWithin (used : Nat) (name : String) (es : List (String × FileTree)) :
    (entriesWithin used es).lookup name =
      if longestPath ≤ used + name.utf8ByteSize then none
      else (es.lookup name).map (within (used + name.utf8ByteSize + 1)) := by
  induction es with
  | nil => simp [entriesWithin]
  | cons e es ih =>
    obtain ⟨other, node⟩ := e
    rw [entriesWithin]
    by_cases hname : name = other
    · subst hname
      by_cases hlong : longestPath ≤ used + name.utf8ByteSize
      · simp only [hlong, if_true] at ih ⊢
        exact ih
      · simp [hlong]
    · have hbeq : (name == other) = false := by simpa using hname
      rw [List.lookup_cons, hbeq, ← ih]
      by_cases hlong : longestPath ≤ used + other.utf8ByteSize
      · rw [if_pos hlong]
      · rw [if_neg hlong, List.lookup_cons, hbeq]

/-- **What is seen from a path** stands there, and its own path is not too long. -/
theorem at?_within {used : Nat} {t : FileTree} {text : Option String} {names : List String}
    (hne : names ≠ []) (h : (t.within used).at? names = some (file text)) :
    t.at? names = some (file text) ∧ used + ("/".intercalate names).utf8ByteSize < longestPath := by
  induction names generalizing used t with
  | nil => exact absurd rfl hne
  | cons name names ih =>
    cases t with
    | file text => simp [within, at?] at h
    | locked => simp [within, at?] at h
    | directory es =>
      rw [within, at?, lookup_entriesWithin, Option.bind_eq_some_iff] at h
      obtain ⟨seen, hseen, h⟩ := h
      by_cases hlong : longestPath ≤ used + name.utf8ByteSize
      · simp [hlong] at hseen
      rw [if_neg hlong, Option.map_eq_some_iff] at hseen
      obtain ⟨next, hnext, rfl⟩ := hseen
      rw [at?, hnext]
      cases names with
      | nil =>
        cases next with
        | file _ =>
          refine ⟨h, ?_⟩
          simpa using hlong
        | directory _ => simp [within, at?] at h
        | locked => simp [within, at?] at h
      | cons name' names =>
        obtain ⟨hfile, hshort⟩ := ih (List.cons_ne_nil _ _) h
        refine ⟨hfile, ?_⟩
        rw [String.intercalate_cons_cons, String.utf8ByteSize_append, String.utf8ByteSize_append]
        have hslash : "/".utf8ByteSize = 1 := rfl
        omega

theorem entriesWithin_fst_sublist (used : Nat) (es : List (String × FileTree)) :
    ((entriesWithin used es).map Prod.fst).Sublist (es.map Prod.fst) := by
  induction es with
  | nil => exact .slnil
  | cons e es ih =>
    rw [entriesWithin]
    split
    · exact ih.cons _
    · exact ih.cons_cons _

theorem mem_entriesWithin {used : Nat} {es : List (String × FileTree)} {e : String × FileTree}
    (h : e ∈ entriesWithin used es) : ∃ node used', (e.1, node) ∈ es ∧ e.2 = node.within used' := by
  induction es with
  | nil => cases h
  | cons first es ih =>
    rw [entriesWithin] at h
    split at h
    · obtain ⟨node, used', hmem, hnode⟩ := ih h
      exact ⟨node, used', List.mem_cons_of_mem _ hmem, hnode⟩
    · rcases List.mem_cons.mp h with rfl | h
      · exact ⟨first.2, _, List.mem_cons_self, rfl⟩
      · obtain ⟨node, used', hmem, hnode⟩ := ih h
        exact ⟨node, used', List.mem_cons_of_mem _ hmem, hnode⟩

theorem IsProper.within {t : FileTree} (h : t.IsProper) (used : Nat) : (t.within used).IsProper := by
  induction h generalizing used with
  | file text => exact .file text
  | directory distinct named _ ih =>
    refine .directory ((entriesWithin_fst_sublist used _).nodup distinct) ?_ ?_
    · intro e he
      obtain ⟨node, -, hmem, -⟩ := mem_entriesWithin he
      exact named (e.1, node) hmem
    · intro e he
      obtain ⟨node, used', hmem, hnode⟩ := mem_entriesWithin he
      rw [hnode]
      exact ih (e.1, node) hmem used'
  | locked => exact .locked

end FileTree

namespace Disk

variable {d : Disk} {directory path : String} {t : FileTree} {names : List String}

theorem find_eq_ok_iff : d.find path = .ok t ↔
    '\x00' ∉ path.toList ∧ path ≠ "" ∧ path.utf8ByteSize < FileTree.longestPath ∧
      ∃ node, d.root.walk [] (d.route path) = .ok node ∧
        node.within (Path.asPrefix path).utf8ByteSize = t := by
  unfold find
  by_cases hnul : '\x00' ∈ path.toList
  · simp [hnul]
  by_cases hempty : path = ""
  · simp [hempty]
  by_cases hlong : FileTree.longestPath ≤ path.utf8ByteSize
  · simp [hnul, hempty, hlong]
  cases d.root.walk [] (d.route path) <;>
    simp [hnul, hempty, hlong, Except.map, Nat.lt_of_not_le hlong]

/-- The route of a path that is not empty goes on with the names that are joined to it. -/
theorem route_join (d : Disk) (hdirectory : directory ≠ "") :
    ∃ ps rest, d.route directory = ps ++ rest ∧ (∀ p ∈ rest, p = []) ∧
      ∀ names ≠ [], (∀ name ∈ names, '/' ∉ name.toList) →
        d.route (Path.join directory names) = ps ++ names.map String.toList := by
  obtain ⟨ps, rest, hps, hrest, hparts⟩ := Path.parts_join directory
  have hhead (names : List String) :
      (Path.join directory names).toList.head? = directory.toList.head? := by
    obtain ⟨c, cs, hcs⟩ := List.exists_cons_of_ne_nil (mt String.toList_eq_nil_iff.mp hdirectory)
    simp [Path.join, Path.asPrefix, hcs]
  by_cases habsolute : directory.toList.head? = some '/'
  · refine ⟨ps, rest, ?_, hrest, fun names hne hslash => ?_⟩
    · simpa [route, habsolute] using hps
    · simpa [route, hhead, habsolute] using hparts names hne hslash
  · refine ⟨d.start.map String.toList ++ ps, rest, ?_, hrest, fun names hne hslash => ?_⟩
    · simpa [route, habsolute] using hps
    · simpa [route, hhead, habsolute] using hparts names hne hslash

/-- What is found at a path is what is seen of a proper tree from there, and the walk of a path that
names are joined to goes on from that tree. -/
theorem exists_place (hproper : d.root.IsProper) (h : d.find directory = .ok t) :
    ∃ above node, node.IsProper ∧ node.within (Path.asPrefix directory).utf8ByteSize = t ∧
      ∀ names ≠ [], (∀ name ∈ names, '/' ∉ name.toList) →
        d.root.walk [] (d.route (Path.join directory names)) =
          FileTree.walk above node (names.map String.toList) := by
  obtain ⟨-, hempty, -, node, hwalk, hnode⟩ := find_eq_ok_iff.mp h
  obtain ⟨ps, rest, hps, hrest, hroute⟩ := d.route_join hempty
  rw [hps] at hwalk
  rcases hproper.walk_append (List.forall_mem_nil _) ps with ⟨e, he⟩ | ⟨above, u, hu, hfollow⟩
  · cases (he rest).symm.trans hwalk
  · rw [hfollow] at hwalk
    obtain rfl := FileTree.eq_of_walk_empty hrest hwalk
    refine ⟨above, u, hu, hnode, fun names hne hslash => ?_⟩
    rw [hroute names hne hslash, hfollow]

theorem isProper_of_find (hproper : d.root.IsProper) (h : d.find directory = .ok t) :
    t.IsProper := by
  obtain ⟨-, node, hnode, rfl, -⟩ := exists_place hproper h
  exact hnode.within _

/-- **What is seen from a directory is found at its own path.** -/
theorem find_join (hproper : d.root.IsProper) (h : d.find directory = .ok t) (hne : names ≠ [])
    {text : Option String} (hfile : t.at? names = some (.file text)) :
    d.find (Path.join directory names) = .ok (.file text) := by
  have hnames := (isProper_of_find hproper h).isName_of_at? hfile
  obtain ⟨hnul, hempty, -⟩ := find_eq_ok_iff.mp h
  obtain ⟨above, node, hnode, rfl, hfollow⟩ := exists_place hproper h
  obtain ⟨hthere, hfits⟩ := FileTree.at?_within hne hfile
  refine find_eq_ok_iff.mpr ⟨Path.nulless_join hnul hnames, ?_, ?_, .file text, ?_, rfl⟩
  · simp [Path.join, Path.asPrefix, hempty]
  · rwa [Path.join, String.utf8ByteSize_append]
  · rw [hfollow names hne fun name hmem => (hnames name hmem).slashless]
    exact hnode.walk_at? hthere

/-- **What a search finds is a Java file**, at the path that the search gives. -/
theorem find_of_mem_javaFiles (hproper : d.root.IsProper) {maxDepth : Nat}
    (h : path ∈ d.javaFiles maxDepth directory) :
    (∃ text, d.find path = .ok (.file text)) ∧ Path.isJava path = true := by
  cases hfind : d.find directory with
  | error e => simp [javaFiles_of_find_error hfind] at h
  | ok t =>
    have ht := isProper_of_find hproper hfind
    rw [javaFiles_eq_sorted hfind, List.mem_map] at h
    obtain ⟨names, hmem, rfl⟩ := h
    obtain ⟨hfile, htaken⟩ := List.mem_filter.mp (List.mem_mergeSort.mp hmem)
    obtain ⟨text, htext⟩ := ht.wellFormed.mem_files.mp hfile
    simp only [Path.isTaken, Bool.and_eq_true, Option.any_eq_true] at htaken
    obtain ⟨⟨-, last, hlast, hjava⟩, -⟩ := htaken
    have hne : names ≠ [] := by
      rintro rfl
      cases hlast
    refine ⟨⟨text, find_join hproper hfind hne htext⟩, ?_⟩
    rw [Path.isJava_join directory (ht.isName_of_at? htext) hlast, hjava]

end Disk

end CodeRisk
