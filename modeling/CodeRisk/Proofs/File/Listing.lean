import CodeRisk.File.Tree
import CodeRisk.Proofs.Lookup
import CodeRisk.Proofs.Text.ByteOrder
import Mathlib.Data.List.Lex
import Mathlib.Data.List.Sort

/-!
# Listings of a tree

A directory lists its entries in some order, which is the order of the list of entries; the same
tree may be listed in other orders (`FileTree.Relisted`). Whatever the order, the files are the same
up to order (`FileTree.Relisted.files_perm`). If the entries of each directory are visited in the
order of the bytes of their names (`FileTree.inNameOrder`), the files come out in order name by name
(`FileTree.WellFormed.sorted_files`), although a whole path compares otherwise than its names do.

A directory that may not be read hides the files below it and no others
(`FileTree.WellFormed.files_lock`).
-/
namespace CodeRisk

namespace FileTree

/-- The entries of a directory are smaller than the directory. -/
@[elab_as_elim, induction_eliminator]
theorem induction {motive : FileTree → Prop} (file : ∀ text, motive (.file text))
    (directory : ∀ es, (∀ e ∈ es, motive e.2) → motive (.directory es))
    (locked : motive .locked) : (t : FileTree) → motive t
  | .file text => file text
  | .locked => locked
  | .directory es => directory es fun e _ => induction file directory locked e.2
decreasing_by
  have := List.sizeOf_lt_of_mem ‹_›
  obtain ⟨name, node⟩ := e
  simp only [Prod.mk.sizeOf_spec, FileTree.directory.sizeOf_spec] at *
  omega

mutual

/-- The files of a tree, depth first, each as the names that lead to it. -/
def files : FileTree → List (List String)
  | file _ => [[]]
  | directory es => filesIn es
  | locked => []

/-- The files among entries and below. -/
def filesIn : List (String × FileTree) → List (List String)
  | [] => []
  | (name, node) :: rest => node.files.map (name :: ·) ++ filesIn rest

end

theorem filesIn_eq (es : List (String × FileTree)) :
    filesIn es = es.flatMap fun e => e.2.files.map (e.1 :: ·) := by
  induction es with
  | nil => rfl
  | cons e es ih => rw [filesIn, ih, List.flatMap_cons]

theorem files_directory (es : List (String × FileTree)) :
    (directory es).files = es.flatMap fun e => e.2.files.map (e.1 :: ·) := by
  rw [files, filesIn_eq]

mutual

/-- The tree with the entries of each directory in the order of the bytes of their names. -/
def inNameOrder : FileTree → FileTree
  | file text => file text
  | directory es =>
    directory ((inNameOrderIn es).mergeSort fun a b => decide (Text.bytes a.1 ≤ Text.bytes b.1))
  | locked => locked

/-- Entries with all that is below them in the order of names. -/
def inNameOrderIn : List (String × FileTree) → List (String × FileTree)
  | [] => []
  | (name, node) :: rest => (name, node.inNameOrder) :: inNameOrderIn rest

end

theorem inNameOrderIn_eq (es : List (String × FileTree)) :
    inNameOrderIn es = es.map fun e => (e.1, e.2.inNameOrder) := by
  induction es with
  | nil => rfl
  | cons e es ih => rw [inNameOrderIn, ih, List.map_cons]

/-- What stands where the names lead. -/
def at? : FileTree → List String → Option FileTree
  | t, [] => some t
  | directory es, name :: names => (es.lookup name).bind (at? · names)
  | _, _ :: _ => none

/-- The tree in which a directory may not be read any more. -/
def lock : List String → FileTree → FileTree
  | [], directory _ => locked
  | name :: names, directory es =>
    directory (es.map fun e => if e.1 = name then (e.1, lock names e.2) else e)
  | _, t => t

/-- The names in each directory are different from each other, and none has a slash in it. -/
inductive WellFormed : FileTree → Prop where
  | file (text : Option String) : WellFormed (file text)
  | directory {es : List (String × FileTree)} (distinct : (es.map Prod.fst).Nodup)
      (slashless : ∀ e ∈ es, '/' ∉ e.1.toList) (entries : ∀ e ∈ es, WellFormed e.2) :
      WellFormed (directory es)
  | locked : WellFormed locked

/-- The second tree is the first with the entries of some directories listed in another order. -/
inductive Relisted : FileTree → FileTree → Prop where
  | refl (t : FileTree) : Relisted t t
  | listed {es fs : List (String × FileTree)} (h : es.Perm fs) :
      Relisted (directory es) (directory fs)
  | inside (before after : List (String × FileTree)) (name : String) {t u : FileTree}
      (h : Relisted t u) :
      Relisted (directory (before ++ (name, t) :: after)) (directory (before ++ (name, u) :: after))
  | trans {t u v : FileTree} (h : Relisted t u) (h' : Relisted u v) : Relisted t v

/-! ## Other orders -/

namespace Relisted

/-- **The files do not depend on the order** in which directories list their entries. -/
theorem files_perm {t u : FileTree} (h : t.Relisted u) : t.files.Perm u.files := by
  induction h with
  | refl t => exact .refl _
  | listed h =>
    rw [files_directory, files_directory]
    exact h.flatMap_right _
  | inside before after name h ih =>
    rw [files_directory, files_directory, List.flatMap_append, List.flatMap_append,
      List.flatMap_cons, List.flatMap_cons]
    exact ((ih.map _).append_right _).append_left _
  | trans _ _ ih ih' => exact ih.trans ih'

/-- All entries of a directory may be listed in other orders below. -/
theorem map {f : FileTree → FileTree} (before es : List (String × FileTree))
    (h : ∀ e ∈ es, e.2.Relisted (f e.2)) :
    (directory (before ++ es)).Relisted (directory (before ++ es.map fun e => (e.1, f e.2))) := by
  induction es generalizing before with
  | nil => exact .refl _
  | cons e es ih =>
    obtain ⟨name, node⟩ := e
    have hhead := inside before es name (h _ List.mem_cons_self)
    have htail := ih (before ++ [(name, f node)]) fun e he => h e (List.mem_cons_of_mem _ he)
    rw [List.append_assoc, List.append_assoc] at htail
    exact hhead.trans htail

/-- The order of names is one of the orders. -/
theorem inNameOrder (t : FileTree) : t.Relisted t.inNameOrder := by
  induction t with
  | file text => exact .refl _
  | directory es ih =>
    rw [FileTree.inNameOrder, inNameOrderIn_eq]
    exact (map [] es ih).trans (listed (List.mergeSort_perm _ _).symm)
  | locked => exact .refl _

end Relisted

/-! ## Files in order -/

/-- Entries with different names are put in order by their names. -/
theorem pairwise_lt_mergeSort {es : List (String × FileTree)} (h : (es.map Prod.fst).Nodup) :
    (es.mergeSort fun a b => decide (Text.bytes a.1 ≤ Text.bytes b.1)).Pairwise
      fun a b => a.1 < b.1 := by
  simp only [← Text.le_iff_bytes_le]
  have hsorted : (es.mergeSort fun a b => decide (a.1 ≤ b.1)).Pairwise
      fun a b => decide (a.1 ≤ b.1) = true :=
    List.pairwise_mergeSort (by simpa using fun _ _ _ _ _ _ => le_trans)
      (by simpa using fun _ _ _ _ => le_total _ _) es
  have hdistinct : (es.mergeSort fun a b => decide (a.1 ≤ b.1)).Pairwise fun a b => a.1 ≠ b.1 :=
    List.pairwise_map.mp (((List.mergeSort_perm es _).map Prod.fst).nodup_iff.mpr h)
  refine (hsorted.and hdistinct).imp fun ⟨hle, hne⟩ => ?_
  exact lt_of_le_of_ne (of_decide_eq_true hle) hne

namespace WellFormed

theorem directory_iff {es : List (String × FileTree)} :
    (FileTree.directory es).WellFormed ↔ (es.map Prod.fst).Nodup ∧
      (∀ e ∈ es, '/' ∉ e.1.toList) ∧ ∀ e ∈ es, e.2.WellFormed := by
  constructor
  · intro h
    cases h with
    | directory distinct slashless entries => exact ⟨distinct, slashless, entries⟩
  · rintro ⟨distinct, slashless, entries⟩
    exact .directory distinct slashless entries

/-- **In the order of names the files come out in order**, name by name. -/
theorem sorted_files {t : FileTree} (h : t.WellFormed) : t.inNameOrder.files.Pairwise (· < ·) := by
  induction h with
  | file text => exact List.pairwise_singleton _ _
  | @directory es distinct _ _ ih =>
    rw [inNameOrder, inNameOrderIn_eq, files_directory, List.pairwise_flatMap]
    have hnames : ((es.map fun e => (e.1, e.2.inNameOrder)).map Prod.fst).Nodup := by
      rw [List.map_map]
      exact distinct
    constructor
    -- within one entry the first name is the same
    · intro e he
      obtain ⟨e, he, rfl⟩ := List.mem_map.mp (List.mem_mergeSort.mp he)
      rw [List.pairwise_map]
      exact (ih e ‹_›).imp fun h => .cons h
    -- between two entries their own names decide
    · refine (pairwise_lt_mergeSort hnames).imp fun hlt x hx y hy => ?_
      obtain ⟨x, -, rfl⟩ := List.mem_map.mp hx
      obtain ⟨y, -, rfl⟩ := List.mem_map.mp hy
      exact .rel hlt
  | locked => exact .nil

/-! ## What the listing holds -/

/-- **All files are listed, and nothing else is.** -/
theorem mem_files {t : FileTree} (h : t.WellFormed) {names : List String} :
    names ∈ t.files ↔ ∃ text, t.at? names = some (.file text) := by
  induction h generalizing names with
  | file text => cases names <;> simp [files, at?]
  | @directory es distinct _ _ ih =>
    rw [files_directory, List.mem_flatMap]
    constructor
    · rintro ⟨e, he, hnames⟩
      obtain ⟨rest, hrest, rfl⟩ := List.mem_map.mp hnames
      obtain ⟨text, htext⟩ := (ih e he).mp hrest
      refine ⟨text, ?_⟩
      rw [at?, (lookup_eq_some_iff_mem distinct).mpr he]
      exact htext
    · rintro ⟨text, htext⟩
      cases names with
      | nil => simp [at?] at htext
      | cons name rest =>
        rw [at?, Option.bind_eq_some_iff] at htext
        obtain ⟨node, hnode, hrest⟩ := htext
        have hmem := (lookup_eq_some_iff_mem distinct).mp hnode
        exact ⟨(name, node), hmem, List.mem_map_of_mem ((ih _ hmem).mpr ⟨text, hrest⟩)⟩
  | locked => cases names <;> simp [files, at?]

/-- No name on the way to a file has a slash in it. -/
theorem slashless_of_mem_files {t : FileTree} (h : t.WellFormed) {names : List String}
    (hnames : names ∈ t.files) : ∀ name ∈ names, '/' ∉ name.toList := by
  induction h generalizing names with
  | file text => simp_all [files]
  | @directory es _ slashless _ ih =>
    rw [files_directory, List.mem_flatMap] at hnames
    obtain ⟨e, he, hnames⟩ := hnames
    obtain ⟨rest, hrest, rfl⟩ := List.mem_map.mp hnames
    rw [List.forall_mem_cons]
    exact ⟨slashless e he, ih e he hrest⟩
  | locked => simp [files] at hnames

/-- **A directory that may not be read hides the files below it** and no others. -/
theorem files_lock {t : FileTree} (h : t.WellFormed) {place : List String}
    {es : List (String × FileTree)} (hplace : t.at? place = some (.directory es)) :
    (t.lock place).files = t.files.filter fun names => !place.isPrefixOf names := by
  induction place generalizing t with
  | nil =>
    obtain rfl : t = .directory es := Option.some.inj hplace
    simp [lock, files]
  | cons name place ih =>
    cases h with
    | file text => simp [at?] at hplace
    | locked => simp [at?] at hplace
    | @directory fs distinct _ entries =>
      rw [at?, Option.bind_eq_some_iff] at hplace
      obtain ⟨node, hnode, hplace⟩ := hplace
      rw [lock, files_directory, files_directory, List.flatMap_map, List.filter_flatMap]
      refine List.flatMap_congr fun e he => ?_
      by_cases hname : e.1 = name
      · have hsame : e.2 = node := by
          rw [← hname, (lookup_eq_some_iff_mem distinct).mpr he] at hnode
          exact Option.some.inj hnode
        rw [if_pos hname, hname, hsame, ih (hsame ▸ entries e he) hplace, List.filter_map]
        simp [Function.comp_def, List.isPrefixOf]
      · rw [if_neg hname, List.filter_eq_self.mpr]
        intro names hnames
        obtain ⟨rest, -, rfl⟩ := List.mem_map.mp hnames
        simp [List.isPrefixOf, Ne.symm hname]

end WellFormed

end FileTree

end CodeRisk
