import CodeRisk.File.Discovery
import CodeRisk.Proofs.File.Listing

/-!
# Sources under a directory

The search collects Java files on its way down, with a bound on the depth and rules for what is
passed over, and sorts what it has found. The result is that of listing all files with the entries
of each directory in the order of the bytes of their names, and taking each file or not by its own
path (`Path.isTaken`): neither the order in which directories list their entries nor a directory
that may not be read has any other effect (`Disk.javaFiles_eq_listing`).
-/
namespace CodeRisk

namespace Path

/-- Whether a search takes the file to which the names lead from where it starts: it passes over
none of them, the file is a Java source, and at most `maxDepth` directories lie in between. -/
def isTaken (maxDepth : Nat) (names : List String) : Bool :=
  names.all (fun name => !isSkipped name) && names.getLast?.any isJava &&
    decide (names.length ≤ maxDepth + 1)

@[simp] theorem isTaken_nil (maxDepth : Nat) : isTaken maxDepth [] = false := rfl

theorem isTaken_singleton (maxDepth : Nat) (name : String) :
    isTaken maxDepth [name] = (!isSkipped name && isJava name) := by
  simp [isTaken]

/-- A file below a directory is taken if the directory is not passed over and the file is taken from
there on. -/
theorem isTaken_succ (maxDepth : Nat) (name : String) {names : List String} (h : names ≠ []) :
    isTaken (maxDepth + 1) (name :: names) = (!isSkipped name && isTaken maxDepth names) := by
  obtain ⟨n, ns, rfl⟩ := List.exists_cons_of_ne_nil h
  simp [isTaken, Bool.and_assoc]

theorem isTaken_zero (name : String) {names : List String} (h : names ≠ []) :
    isTaken 0 (name :: names) = false := by
  obtain ⟨n, ns, rfl⟩ := List.exists_cons_of_ne_nil h
  simp [isTaken]

/-- A deeper search takes no less. -/
theorem isTaken_mono {m n : Nat} (h : m ≤ n) {names : List String}
    (htaken : isTaken m names = true) : isTaken n names = true := by
  simp only [isTaken, Bool.and_eq_true, decide_eq_true_eq] at htaken ⊢
  exact ⟨htaken.1, by omega⟩

/-! ## The order of paths -/

theorem inOrder_eq (as bs : List String) : inOrder as bs = decide (as ≤ bs) := by
  induction as generalizing bs with
  | nil => exact (decide_eq_true (not_lt.mp (List.not_lt_nil bs))).symm
  | cons a as ih =>
    cases bs with
    | nil => exact (decide_eq_false (not_le.mpr (List.nil_lt_cons a as))).symm
    | cons b bs =>
      rw [inOrder, ih]
      by_cases h : a = b
      · subst h
        rw [if_pos rfl, decide_eq_decide, ← not_lt, ← not_lt, List.cons_lt_cons_self]
      · rw [if_neg h, decide_eq_decide, ← not_lt (a := b :: bs), List.cons_lt_cons_iff]
        have hne : b ≠ a := Ne.symm h
        simp only [hne, false_and, or_false, not_lt, le_iff_lt_or_eq, h]

/-- What is in order name by name is what sorting makes of it. -/
theorem mergeSort_inOrder {found all : List (List String)} (hsorted : found.Pairwise (· < ·))
    (hperm : found.Perm all) : all.mergeSort inOrder = found := by
  rw [funext fun as => funext (inOrder_eq as)]
  exact ((List.mergeSort_perm _ _).trans hperm.symm).eq_of_pairwise'
    (List.pairwise_mergeSort' (· ≤ ·) all) (hsorted.imp le_of_lt)

/-- Names without a slash can be read off the path that is made of them. -/
theorem join_injective {directory : String} {as bs : List String} (ha : as ≠ []) (hb : bs ≠ [])
    (has : ∀ name ∈ as, '/' ∉ name.toList) (hbs : ∀ name ∈ bs, '/' ∉ name.toList)
    (h : join directory as = join directory bs) : as = bs := by
  have hnames : "/".intercalate as = "/".intercalate bs := by
    simpa only [join, String.append_right_inj] using h
  have hchars : List.intercalate ['/'] (as.map String.toList) =
      List.intercalate ['/'] (bs.map String.toList) := by
    have := congrArg String.toList hnames
    rwa [String.toList_intercalate, String.toList_intercalate] at this
  have hsplit := congrArg (List.splitOn '/') hchars
  rw [List.splitOn_intercalate _ (by simpa using has) (by simpa using ha),
    List.splitOn_intercalate _ (by simpa using hbs) (by simpa using hb)] at hsplit
  exact List.map_injective_iff.mpr (fun _ _ => String.ext) hsplit

end Path

namespace FileTree

theorem ne_nil_of_mem_files {es : List (String × FileTree)} {names : List String}
    (h : names ∈ (directory es).files) : names ≠ [] := by
  rw [files_directory, List.mem_flatMap] at h
  obtain ⟨e, -, hnames⟩ := h
  obtain ⟨rest, -, rfl⟩ := List.mem_map.mp hnames
  exact List.cons_ne_nil _ _

theorem sourcesIn_eq_flatMap (depth : Nat) (es : List (String × FileTree)) :
    sourcesIn depth es =
      es.flatMap fun e => if Path.isSkipped e.1 then [] else sourcesAt depth e.1 e.2 := by
  induction es with
  | nil => rw [sourcesIn, List.flatMap_nil]
  | cons e es ih => rw [sourcesIn, ih, List.flatMap_cons]

theorem sourcesIn_eq_of_sourcesAt {depth : Nat} {es : List (String × FileTree)}
    (h : ∀ e ∈ es, Path.isSkipped e.1 = false →
      sourcesAt depth e.1 e.2 = (e.2.files.map (e.1 :: ·)).filter (Path.isTaken depth)) :
    sourcesIn depth es = (directory es).files.filter (Path.isTaken depth) := by
  rw [sourcesIn_eq_flatMap, files_directory, List.filter_flatMap]
  refine List.flatMap_congr fun e he => ?_
  cases hskipped : Path.isSkipped e.1 with
  | false => exact h e he hskipped
  | true =>
    symm
    rw [if_pos rfl, List.filter_eq_nil_iff]
    intro names hnames
    obtain ⟨rest, -, rfl⟩ := List.mem_map.mp hnames
    simp [Path.isTaken, hskipped]

/-- **The search at one entry** takes each file there by its path. -/
theorem sourcesAt_eq (depth : Nat) (name : String) (t : FileTree)
    (h : Path.isSkipped name = false) :
    sourcesAt depth name t = (t.files.map (name :: ·)).filter (Path.isTaken depth) := by
  induction t generalizing depth name with
  | file text => simp [sourcesAt, files, Path.isTaken_singleton, h, List.filter_cons]
  | directory es ih =>
    rw [List.filter_map]
    cases depth with
    | zero =>
      rw [sourcesAt, List.filter_eq_nil_iff.mpr, List.map_nil]
      intro names hnames
      rw [Function.comp_apply, Path.isTaken_zero name (ne_nil_of_mem_files hnames)]
      exact Bool.false_ne_true
    | succ depth =>
      -- what is left is as deep a search below, and its names are one fewer
      rw [sourcesAt, sourcesIn_eq_of_sourcesAt fun e he hskipped => ih e he depth e.1 hskipped]
      refine congrArg _ (List.filter_congr fun names hnames => ?_)
      rw [Function.comp_apply, Path.isTaken_succ depth name (ne_nil_of_mem_files hnames), h]
      rfl
  | locked => simp [sourcesAt, files]

/-- **The search among entries** takes each file below them by its path. -/
theorem sourcesIn_eq (depth : Nat) (es : List (String × FileTree)) :
    sourcesIn depth es = (directory es).files.filter (Path.isTaken depth) :=
  sourcesIn_eq_of_sourcesAt fun e _ hskipped => sourcesAt_eq depth e.1 e.2 hskipped

end FileTree

namespace Disk

theorem javaFiles_of_find_error {d : Disk} {directory : String} {e : ReadFault}
    (h : d.find directory = .error e) (maxDepth : Nat) : d.javaFiles maxDepth directory = [] := by
  rw [javaFiles, h]

/-- The Java files under a directory are the files that are taken, in order. -/
theorem javaFiles_eq_sorted {d : Disk} {directory : String} {t : FileTree}
    (h : d.find directory = .ok t) (maxDepth : Nat) :
    d.javaFiles maxDepth directory =
      ((t.files.filter (Path.isTaken maxDepth)).mergeSort Path.inOrder).map
        (Path.join directory) := by
  rw [javaFiles, h]
  cases t with
  | file text => simp [FileTree.files]
  | directory es => rw [← FileTree.sourcesIn_eq]
  | locked => simp [FileTree.files]

/-- Files in order are what the search finds where these are the files that are taken. -/
theorem javaFiles_eq_of_perm {d : Disk} {directory : String} {t : FileTree} {maxDepth : Nat}
    {found : List (List String)} (h : d.find directory = .ok t) (hsorted : found.Pairwise (· < ·))
    (hperm : found.Perm (t.files.filter (Path.isTaken maxDepth))) :
    d.javaFiles maxDepth directory = found.map (Path.join directory) := by
  rw [javaFiles_eq_sorted h, Path.mergeSort_inOrder hsorted hperm]

/-- **The search for sources** under something that is missing finds nothing. Under a tree it finds
the files that are taken, each once, in the order of a listing that visits the entries of each
directory in the order of the bytes of their names, so that names decide one after the other. A path
is found if and only if a file that is taken stands there. The order in which directories list their
entries does not matter, a directory that may not be read only hides what is below it, and a deeper
search finds the same files in the same order, with others in between. -/
theorem javaFiles_eq_listing (d : Disk) (directory : String) (maxDepth : Nat) :
    (∀ e, d.find directory = .error e → d.javaFiles maxDepth directory = []) ∧
    ∀ t, d.find directory = .ok t → t.WellFormed →
      let found := t.inNameOrder.files.filter (Path.isTaken maxDepth)
      d.javaFiles maxDepth directory = found.map (Path.join directory) ∧
      (d.javaFiles maxDepth directory).Nodup ∧
      (found.map fun names => names.map Text.bytes).Pairwise (· < ·) ∧
      (∀ names, names ∈ found ↔
        (∃ text, t.at? names = some (.file text)) ∧ Path.isTaken maxDepth names = true) ∧
      (∀ (d' : Disk) (t' : FileTree), t.Relisted t' → d'.find directory = .ok t' →
        d'.javaFiles maxDepth directory = d.javaFiles maxDepth directory) ∧
      (∀ (d' : Disk) (place : List String) (es : List (String × FileTree)),
        t.at? place = some (.directory es) → d'.find directory = .ok (t.lock place) →
        d'.javaFiles maxDepth directory =
          (found.filter fun names => !place.isPrefixOf names).map (Path.join directory)) ∧
      ∀ n, maxDepth ≤ n →
        (d.javaFiles maxDepth directory).Sublist (d.javaFiles n directory) := by
  refine ⟨fun e he => javaFiles_of_find_error he maxDepth, fun t ht hwf => ?_⟩
  intro found
  have hfiles : t.inNameOrder.files.Perm t.files :=
    (FileTree.Relisted.inNameOrder t).files_perm.symm
  have hsorted : found.Pairwise (· < ·) := hwf.sorted_files.filter _
  have hfound (n : Nat) : d.javaFiles n directory =
      (t.inNameOrder.files.filter (Path.isTaken n)).map (Path.join directory) :=
    javaFiles_eq_of_perm ht (hwf.sorted_files.filter _) (hfiles.filter _)
  have hmem (names : List String) : names ∈ found ↔
      (∃ text, t.at? names = some (.file text)) ∧ Path.isTaken maxDepth names = true := by
    rw [List.mem_filter, hfiles.mem_iff, hwf.mem_files]
  refine ⟨hfound maxDepth, ?_, ?_, hmem, ?_, ?_, ?_⟩
  · rw [hfound]
    have htaken (names : List String) (hnames : names ∈ found) :
        names ≠ [] ∧ ∀ name ∈ names, '/' ∉ name.toList := by
      obtain ⟨hfile, htaken⟩ := List.mem_filter.mp hnames
      refine ⟨?_, hwf.slashless_of_mem_files (hfiles.mem_iff.mp hfile)⟩
      rintro rfl
      exact absurd htaken (by simp)
    refine List.Nodup.map_on ?_ (hsorted.imp ne_of_lt)
    intro as has bs hbs h
    obtain ⟨ha, haslash⟩ := htaken as has
    obtain ⟨hb, hbslash⟩ := htaken bs hbs
    exact Path.join_injective ha hb haslash hbslash h
  · rw [List.pairwise_map]
    exact hsorted.imp fun h => List.map_lt (fun _ _ => Text.lt_iff_bytes_lt.mp) h
  · intro d' t' hlisted ht'
    rw [hfound]
    exact javaFiles_eq_of_perm ht' hsorted ((hfiles.trans hlisted.files_perm).filter _)
  · intro d' place es hplace ht'
    refine javaFiles_eq_of_perm ht' (hsorted.filter _) ?_
    rw [hwf.files_lock hplace, List.filter_filter, List.filter_filter]
    simp only [Bool.and_comm]
    exact hfiles.filter _
  · intro n hn
    rw [hfound, hfound]
    exact (List.monotone_filter_right _ fun _ => Path.isTaken_mono hn).map _

/-- Entries whose paths compare otherwise than their names do. -/
def sampleEntries : List (String × FileTree) := [
  (".git", .directory [("x.java", .file (some ""))]),
  ("a", .directory [("b", .directory [("C.java", .file none)]), ("b.java", .file (some ""))]),
  ("a-b", .directory [("y.JAVA", .file (some "")), ("z.txt", .file (some ""))]),
  ("a.java", .file (some "")),
  ("c.java", .directory [])]

/-- The disk on which a tree stands under the name `shop`. -/
def withShop (t : FileTree) : Disk :=
  ⟨.directory [("shop", t)], []⟩

theorem javaFiles_eq_listing_sample :
    (withShop (.directory sampleEntries)).find "shop" = .ok (.directory sampleEntries) ∧
    (FileTree.directory sampleEntries).WellFormed ∧
    (FileTree.directory sampleEntries).Relisted (.directory sampleEntries.reverse) ∧
    (withShop (.directory sampleEntries)).javaFiles 2 "shop" =
      ["shop/a/b/C.java", "shop/a/b.java", "shop/a-b/y.JAVA", "shop/a.java"] ∧
    (withShop (.directory sampleEntries.reverse)).javaFiles 2 "shop" =
      ["shop/a/b/C.java", "shop/a/b.java", "shop/a-b/y.JAVA", "shop/a.java"] ∧
    (withShop ((FileTree.directory sampleEntries).lock ["a", "b"])).javaFiles 2 "shop" =
      ["shop/a/b.java", "shop/a-b/y.JAVA", "shop/a.java"] ∧
    ((withShop (.directory sampleEntries)).javaFiles 2 "shop").Sublist
      ((withShop (.directory sampleEntries)).javaFiles 3 "shop") := by
  have hfind : (withShop (.directory sampleEntries)).find "shop" =
      .ok (.directory sampleEntries) := rfl
  have hwf : (FileTree.directory sampleEntries).WellFormed := by
    simp [sampleEntries, FileTree.WellFormed.directory_iff, FileTree.WellFormed.file]
  have hlisted : (FileTree.directory sampleEntries).Relisted (.directory sampleEntries.reverse) :=
    .listed (List.reverse_perm _).symm
  have horder : (FileTree.directory sampleEntries).inNameOrder = .directory sampleEntries := by
    simp only [sampleEntries, FileTree.inNameOrder, FileTree.inNameOrderIn]
    repeat rw [List.mergeSort_of_pairwise (by decide +kernel)]
  obtain ⟨-, hlisting⟩ := javaFiles_eq_listing (withShop (.directory sampleEntries)) "shop" 2
  obtain ⟨hfound, -, -, -, hother, hlock, hdeeper⟩ := hlisting _ hfind hwf
  have hnames : (withShop (.directory sampleEntries)).javaFiles 2 "shop" =
      ["shop/a/b/C.java", "shop/a/b.java", "shop/a-b/y.JAVA", "shop/a.java"] := by
    rw [hfound, horder]
    decide +kernel
  refine ⟨hfind, hwf, hlisted, hnames, ?_, ?_, hdeeper 3 (by decide)⟩
  · rw [hother _ _ hlisted rfl, hnames]
  · rw [hlock _ ["a", "b"] _ rfl rfl, horder]
    decide +kernel

end Disk

end CodeRisk
