import JinkAnalysis.Proofs.Disk
import Mathlib.Data.List.Nodup

/-!
# The walk through a folder

The files below a folder are found by going down from it, through every subfolder whose name is not
to be skipped. On a proper tree (`Tree.IsProper`: what a folder lists has different names, and each
could stand in a path) the list that comes out is described without the walk:

* **It holds exactly the files that can be reached** (`Tree.mem_files_iff`): the paths at which the
  tree has something that is no folder, and on the way to which no folder is to be skipped. The
  folder from which the walk starts is not on the way.
* **It is in order** (`Tree.pairwise_files`): the files of a folder by their names, before all that
  is below its subfolders, and these by their names too (`Path.FoundBefore`). No path comes before
  itself, so none is found twice.

Both go by induction over the tree, one case per kind of node.
-/

namespace JinkAnalysis

/-! ### The order of texts -/

namespace Text

theorem le_total (s t : Text) : (le s t || le t s) = true := by
  induction s generalizing t with
  | nil => rfl
  | cons a s ih =>
    cases t with
    | nil => rfl
    | cons b t =>
      rw [le, le]
      by_cases hab : a = b
      · rw [if_pos hab, if_pos hab.symm]
        exact ih t
      · rw [if_neg hab, if_neg (Ne.symm hab)]
        have hne : a.toNat ≠ b.toNat := fun h => hab (Char.toNat_inj.mp h)
        simp only [Bool.or_eq_true, decide_eq_true_eq]
        omega

theorem le_trans (s t u : Text) (hst : le s t = true) (htu : le t u = true) : le s u = true := by
  induction s generalizing t u with
  | nil => rfl
  | cons a s ih =>
    cases t with
    | nil => cases hst
    | cons b t =>
      cases u with
      | nil => cases htu
      | cons c u =>
        rw [le] at hst htu ⊢
        by_cases hab : a = b
        · subst hab
          rw [if_pos rfl] at hst
          split
          · next hac =>
            rw [if_pos hac] at htu
            exact ih t u hst htu
          · next hac => rwa [if_neg hac] at htu
        · rw [if_neg hab, decide_eq_true_eq] at hst
          by_cases hbc : b = c
          · subst hbc
            rwa [if_neg hab, decide_eq_true_eq]
          · rw [if_neg hbc, decide_eq_true_eq] at htu
            have hac : a ≠ c := by
              rintro rfl
              omega
            rw [if_neg hac, decide_eq_true_eq]
            exact hst.trans htu

/-- One text stands before another one in the order of texts, and is not the same. -/
def Before (s t : Text) : Prop := le s t = true ∧ s ≠ t

/-- Sorting by names that are all different puts each before those that follow. -/
theorem pairwise_mergeSort {α : Type} (f : α → Text) {l : List α} (h : (l.map f).Nodup) :
    (l.mergeSort fun a b => le (f a) (f b)).Pairwise fun a b => Before (f a) (f b) := by
  have hle : (l.mergeSort fun a b => le (f a) (f b)).Pairwise fun a b => le (f a) (f b) = true :=
    List.pairwise_mergeSort (fun a b c => le_trans (f a) (f b) (f c))
      (fun a b => le_total (f a) (f b)) l
  have hne : (l.mergeSort fun a b => le (f a) (f b)).Pairwise fun a b => f a ≠ f b :=
    List.pairwise_map.mp (((List.mergeSort_perm l _).map f).nodup_iff.mpr h)
  exact hle.and hne

end Text

namespace Path

/-- **The order in which files are found** below a folder. -/
inductive FoundBefore : Path → Path → Prop where
  /-- Two files of the folder, by their names. -/
  | files {a b : Text} (h : Text.Before a b) : FoundBefore [a] [b]
  /-- A file of the folder, and what is below a subfolder. -/
  | file (a b c : Text) (q : Path) : FoundBefore [a] (b :: c :: q)
  /-- What is below two subfolders, by the names of these. -/
  | folders {a b : Text} (h : Text.Before a b) (c d : Text) (p q : Path) :
      FoundBefore (a :: c :: p) (b :: d :: q)
  /-- What is below the same subfolder, as it is found there. -/
  | inside {p q : Path} (a : Text) (h : FoundBefore p q) : FoundBefore (a :: p) (a :: q)

namespace FoundBefore

theorem ne {p q : Path} (h : FoundBefore p q) : p ≠ q := by
  induction h with
  | files h => simpa using h.2
  | file a b c q => simp
  | folders h c d p q => exact fun heq => h.2 (List.cons.inj heq).1
  | inside a h ih => exact fun heq => ih (List.cons.inj heq).2

theorem append {p q : Path} (h : FoundBefore p q) (folder : Path) :
    FoundBefore (folder ++ p) (folder ++ q) := by
  induction folder with
  | nil => exact h
  | cons a folder ih => exact .inside a ih

end FoundBefore

end Path

namespace Tree

/-! ### Proper trees -/

/-- The tree is one that a disk can have: what a folder lists has names that can stand in a path,
and no two have the same. -/
inductive IsProper : Tree → Prop where
  /-- A file. -/
  | file (content : Bytes) : IsProper (.file content)
  /-- Something else that is no folder. -/
  | special : IsProper .special
  /-- A folder with such entries. -/
  | folder {entries : List (Text × Tree)} (distinct : (entries.map (·.1)).Nodup)
      (plain : Path.IsPlain (entries.map (·.1))) (below : ∀ e ∈ entries, IsProper e.2) :
      IsProper (.folder entries)

theorem mem_of_child?_eq_some {entries : List (Text × Tree)} {name : Text} {node : Tree}
    (h : child? entries name = some node) : (name, node) ∈ entries := by
  obtain ⟨e, he, rfl⟩ := Option.map_eq_some_iff.mp h
  obtain rfl : e.1 = name := by simpa using List.find?_some he
  exact List.mem_of_find?_eq_some he

/-- Where names are different, every entry is the one of its name. -/
theorem child?_of_mem {entries : List (Text × Tree)} (hdistinct : (entries.map (·.1)).Nodup)
    {e : Text × Tree} (he : e ∈ entries) : child? entries e.1 = some e.2 := by
  induction entries with
  | nil => cases he
  | cons e' rest ih =>
    obtain ⟨hfresh, hdistinct⟩ := List.nodup_cons.mp hdistinct
    rcases List.mem_cons.mp he with rfl | he
    · simp [child?]
    · have hne : e'.1 ≠ e.1 := fun heq => hfresh (List.mem_map.mpr ⟨e, he, heq.symm⟩)
      rw [child?, List.find?_cons_of_neg (by simpa using hne)]
      exact ih hdistinct he

/-- Below a folder, a path leads on from the entry of its first name. -/
theorem find?_cons_eq_some_iff {tree node : Tree} {name : Text} {rest : Path} :
    tree.find? (name :: rest) = some node ↔
      ∃ child, child? tree.entries name = some child ∧ child.find? rest = some node := by
  rw [find?]
  cases child? tree.entries name with
  | none => simp
  | some child => simp

/-- A path that leads somewhere is made of names of entries, and what it leads to is proper. -/
theorem IsProper.of_find? {tree node : Tree} {path : Path} (h : tree.IsProper)
    (hfind : tree.find? path = some node) : path.IsPlain ∧ node.IsProper := by
  induction path generalizing tree with
  | nil =>
    rw [find?] at hfind
    obtain rfl := Option.some.inj hfind
    exact ⟨List.forall_mem_nil _, h⟩
  | cons name rest ih =>
    obtain ⟨child, hchild, hrest⟩ := find?_cons_eq_some_iff.mp hfind
    have hmem := mem_of_child?_eq_some hchild
    cases h with
    | file content => cases hmem
    | special => cases hmem
    | folder distinct plain below =>
      obtain ⟨hplain, hnode⟩ := ih (below _ hmem) hrest
      exact ⟨List.forall_mem_cons.mpr ⟨plain name (List.mem_map_of_mem hmem), hplain⟩, hnode⟩

/-! ### What is found -/

theorem filesBelow_eq (skip : Text → Bool) (entries : List (Text × Tree)) :
    filesBelow skip entries = (entries.filter fun e => e.2.isFolder && !skip e.1).map fun e =>
      (e.1, e.2.files skip) := by
  induction entries with
  | nil => rw [filesBelow]; rfl
  | cons e rest ih =>
    rw [filesBelow, List.filter_cons]
    split
    · rw [ih, List.map_cons]
    · exact ih

/-- If a folder lists its entries in the order of their names, there is nothing to sort. -/
theorem files_of_pairwise (skip : Text → Bool) {entries : List (Text × Tree)}
    (h : entries.Pairwise fun e e' => Text.le e.1 e'.1 = true) :
    (Tree.folder entries).files skip =
      (entries.filter fun e => !e.2.isFolder).map (fun e => [e.1]) ++
        (entries.filter fun e => e.2.isFolder && !skip e.1).flatMap fun e =>
          (e.2.files skip).map (e.1 :: ·) := by
  have hfiles : fileNames entries = (entries.filter fun e => !e.2.isFolder).map (·.1) :=
    List.mergeSort_of_pairwise (List.pairwise_map.mpr (h.filter _))
  have hfolders : ((filesBelow skip entries).mergeSort fun a b => Text.le a.1 b.1) =
      filesBelow skip entries := by
    refine List.mergeSort_of_pairwise ?_
    rw [filesBelow_eq]
    exact List.pairwise_map.mpr (h.filter _)
  rw [files, hfiles, hfolders, filesBelow_eq, List.map_map, List.flatMap_map]
  rfl

theorem mem_fileNames_iff {entries : List (Text × Tree)} {name : Text} :
    name ∈ fileNames entries ↔ ∃ e ∈ entries, e.2.isFolder = false ∧ e.1 = name := by
  simp [fileNames, List.mem_mergeSort]

/-- One step of the walk: a folder gives its files, and what is found below its subfolders. -/
theorem mem_files_folder_iff {skip : Text → Bool} {entries : List (Text × Tree)} {path : Path} :
    path ∈ (Tree.folder entries).files skip ↔
      (∃ e ∈ entries, e.2.isFolder = false ∧ [e.1] = path) ∨
      ∃ e ∈ entries, e.2.isFolder = true ∧ skip e.1 = false ∧
        ∃ rest ∈ e.2.files skip, e.1 :: rest = path := by
  rw [files, List.mem_append, filesBelow_eq]
  refine or_congr ?_ ?_
  · rw [List.mem_map]
    simp only [mem_fileNames_iff]
    constructor
    · rintro ⟨_, ⟨e, he, hfile, rfl⟩, rfl⟩
      exact ⟨e, he, hfile, rfl⟩
    · rintro ⟨e, he, hfile, rfl⟩
      exact ⟨e.1, ⟨e, he, hfile, rfl⟩, rfl⟩
  · simp only [List.mem_flatMap, List.mem_mergeSort, List.mem_map, List.mem_filter,
      Bool.and_eq_true, Bool.not_eq_true']
    constructor
    · rintro ⟨_, ⟨e, ⟨he, hfolder, hskip⟩, rfl⟩, hpath⟩
      exact ⟨e, he, hfolder, hskip, hpath⟩
    · rintro ⟨e, he, hfolder, hskip, hpath⟩
      exact ⟨_, ⟨e, ⟨he, hfolder, hskip⟩, rfl⟩, hpath⟩

/-- What is found has a name. -/
theorem ne_nil_of_mem_files {skip : Text → Bool} {tree : Tree} {path : Path}
    (h : path ∈ tree.files skip) : path ≠ [] := by
  cases tree with
  | folder entries =>
    rcases mem_files_folder_iff.mp h with ⟨e, -, -, rfl⟩ | ⟨e, -, -, -, rest, -, rfl⟩
    · exact List.cons_ne_nil _ _
    · exact List.cons_ne_nil _ _
  | file content => simp [files] at h
  | special => simp [files] at h

/-- There is a file at a path: the tree has something there that is no folder. -/
def HasFileAt (tree : Tree) (path : Path) : Prop :=
  ∃ node, tree.find? path = some node ∧ node.isFolder = false

/-- What is no folder has no file below it. -/
theorem not_hasFileAt {tree : Tree} (h : tree.isFolder = false) {path : Path} (hne : path ≠ []) :
    ¬ tree.HasFileAt path := by
  rintro ⟨node, hfind, -⟩
  obtain ⟨name, rest, rfl⟩ := List.exists_cons_of_ne_nil hne
  rw [find?_cons_of_not_isFolder h] at hfind
  cases hfind

/-- **The walk finds exactly the files that can be reached** through folders that are not to be
skipped. -/
theorem mem_files_iff {skip : Text → Bool} {tree : Tree} (h : tree.IsProper) {path : Path} :
    path ∈ tree.files skip ↔
      path ≠ [] ∧ tree.HasFileAt path ∧ ∀ name ∈ path.dropLast, skip name = false := by
  induction h generalizing path with
  | file content => exact iff_of_false (by simp [files]) fun h => not_hasFileAt rfl h.1 h.2.1
  | special => exact iff_of_false (by simp [files]) fun h => not_hasFileAt rfl h.1 h.2.1
  | @folder entries distinct plain below ih =>
    rw [mem_files_folder_iff]
    constructor
    · rintro (⟨e, he, hfile, rfl⟩ | ⟨e, he, -, hskip, rest, hrest, rfl⟩)
      · refine ⟨List.cons_ne_nil _ _, ⟨e.2, ?_, hfile⟩, List.forall_mem_nil _⟩
        exact find?_cons_eq_some_iff.mpr ⟨e.2, child?_of_mem distinct he, by rw [find?]⟩
      · obtain ⟨hne, ⟨node, hfind, hfile⟩, hway⟩ := (ih e he).mp hrest
        refine ⟨List.cons_ne_nil _ _, ⟨node, ?_, hfile⟩, ?_⟩
        · exact find?_cons_eq_some_iff.mpr ⟨e.2, child?_of_mem distinct he, hfind⟩
        · rw [List.dropLast_cons_of_ne_nil hne]
          exact List.forall_mem_cons.mpr ⟨hskip, hway⟩
    · rintro ⟨hne, ⟨node, hfind, hfile⟩, hway⟩
      obtain ⟨name, rest, rfl⟩ := List.exists_cons_of_ne_nil hne
      obtain ⟨child, hchild, hrest⟩ := find?_cons_eq_some_iff.mp hfind
      have hmem : (name, child) ∈ entries := mem_of_child?_eq_some hchild
      by_cases hlast : rest = []
      · subst hlast
        rw [find?] at hrest
        obtain rfl := Option.some.inj hrest
        exact .inl ⟨_, hmem, hfile, rfl⟩
      · -- something is below the entry, so it is a folder
        have hhas : child.HasFileAt rest := ⟨node, hrest, hfile⟩
        have hfolder : child.isFolder = true :=
          Bool.of_not_eq_false fun hnot => not_hasFileAt hnot hlast hhas
        rw [List.dropLast_cons_of_ne_nil hlast] at hway
        obtain ⟨hskip, hway⟩ := List.forall_mem_cons.mp hway
        exact .inr ⟨_, hmem, hfolder, hskip, rest, (ih _ hmem).mpr ⟨hlast, hhas, hway⟩, rfl⟩

/-! ### In which order -/

theorem exists_of_mem_filesBelow {skip : Text → Bool} {entries : List (Text × Tree)}
    {a : Text × List Path} (h : a ∈ filesBelow skip entries) :
    ∃ e ∈ entries, a = (e.1, e.2.files skip) := by
  rw [filesBelow_eq] at h
  obtain ⟨e, he, rfl⟩ := List.mem_map.mp h
  exact ⟨e, (List.mem_filter.mp he).1, rfl⟩

/-- What is found below a subfolder has a name there. -/
theorem exists_cons_of_mem_filesBelow {skip : Text → Bool} {entries : List (Text × Tree)}
    {a : Text × List Path} (h : a ∈ filesBelow skip entries) {p : Path}
    (hp : p ∈ a.2.map (a.1 :: ·)) : ∃ c q, p = a.1 :: c :: q := by
  obtain ⟨e, -, rfl⟩ := exists_of_mem_filesBelow h
  obtain ⟨q, hq, rfl⟩ := List.mem_map.mp hp
  obtain ⟨c, q, rfl⟩ := List.exists_cons_of_ne_nil (ne_nil_of_mem_files hq)
  exact ⟨c, q, rfl⟩

/-- **The walk finds files in order**: those of a folder before all that is below its subfolders,
and both by their names. -/
theorem pairwise_files (skip : Text → Bool) {tree : Tree} (h : tree.IsProper) :
    (tree.files skip).Pairwise Path.FoundBefore := by
  induction h with
  | file content => simp [files]
  | special => simp [files]
  | @folder entries distinct plain below ih =>
    have hfiles : (fileNames entries).Pairwise Text.Before := by
      refine Text.pairwise_mergeSort id ?_
      rw [List.map_id]
      exact distinct.sublist (List.filter_sublist.map _)
    have hfolders : ((filesBelow skip entries).mergeSort fun a b => Text.le a.1 b.1).Pairwise
        fun a b => Text.Before a.1 b.1 := by
      refine Text.pairwise_mergeSort (fun a : Text × List Path => a.1) ?_
      rw [filesBelow_eq, List.map_map]
      exact distinct.sublist (List.filter_sublist.map _)
    rw [files]
    refine List.pairwise_append.mpr ⟨?_, List.pairwise_flatMap.mpr ⟨fun a ha => ?_, ?_⟩, ?_⟩
    · exact List.pairwise_map.mpr (hfiles.imp .files)
    · obtain ⟨e, he, rfl⟩ := exists_of_mem_filesBelow (List.mem_mergeSort.mp ha)
      exact List.pairwise_map.mpr ((ih e he).imp (.inside e.1))
    · refine hfolders.imp_of_mem fun {a b} ha hb hab p hp q hq => ?_
      obtain ⟨c, p, rfl⟩ := exists_cons_of_mem_filesBelow (List.mem_mergeSort.mp ha) hp
      obtain ⟨d, q, rfl⟩ := exists_cons_of_mem_filesBelow (List.mem_mergeSort.mp hb) hq
      exact .folders hab c d p q
    · intro p hp q hq
      obtain ⟨name, -, rfl⟩ := List.mem_map.mp hp
      obtain ⟨a, ha, hq⟩ := List.mem_flatMap.mp hq
      obtain ⟨c, q, rfl⟩ := exists_cons_of_mem_filesBelow (List.mem_mergeSort.mp ha) hq
      exact .file name a.1 c q

end Tree

end JinkAnalysis
