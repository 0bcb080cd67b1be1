import JinkAnalysis.Proofs.Index.History
import JinkAnalysis.Proofs.Sources.Walk
import JinkAnalysis.Proofs.Text.Escapes

/-!
# The scan of a workspace

A scan walks through folders, one after the other, and indexes every source that can be read. The
folders may overlap, so that a source is visited more than once, and some of them may not exist.

* **A walk finds exactly the sources of its folder, each once and in order**
  (`mem_findSources_iff`, `pairwise_findSources`).
* A visit indexes a document under the URI of its path. Visits are updates of an index, so what is
  known afterwards is what is live after the history of these updates: every document at the place
  of its last visit (`map_fst_live_updates`).
* On a proper tree no two files share a URI (`Path.uri_inj`), so **every document has the outline of
  its own text**, however often it is visited (`mem_live_visited`).

`scan_indexes_reachable_sources` puts the three together.
-/

namespace JinkAnalysis

/-! ### The sources of a folder -/

/-- The path leads to a source of a folder: to a file below it whose name has the extension, and
between the two there is no folder whose name is ignored. -/
def IsSource (filter : SourceFilter) (disk : Tree) (folder path : Path) : Prop :=
  ∃ below, path = folder ++ below ∧ disk.HasFileAt path ∧
    (∃ name, below.getLast? = some name ∧ filter.extension <:+ name) ∧
    ∀ name ∈ below.dropLast, name ∉ neverSearched ∧ name ∉ filter.ignored

/-- What is at a path below a folder of the disk is what the folder has there. -/
theorem Tree.hasFileAt_append_iff {disk tree : Tree} {folder : Path}
    (h : disk.find? folder = some tree) (below : Path) :
    disk.HasFileAt (folder ++ below) ↔ tree.HasFileAt below := by
  rw [HasFileAt, HasFileAt, find?_append, h]
  exact Iff.rfl

theorem SourceFilter.skips_eq_false_iff {filter : SourceFilter} {name : Text} :
    filter.skips name = false ↔ name ∉ neverSearched ∧ name ∉ filter.ignored := by
  rw [skips, decide_eq_false_iff_not, not_or]

theorem hasExtension_iff {extension : Text} {below : Path} :
    below.getLast?.any extension.isSuffixOf = true ↔
      ∃ name, below.getLast? = some name ∧ extension <:+ name := by
  rw [Option.any_eq_true]
  simp only [List.isSuffixOf_iff_suffix]

/-- The sources of a folder that exists. -/
theorem findSources_of_find? {disk tree : Tree} {folder : Path}
    (h : disk.find? folder = some tree) (filter : SourceFilter) :
    findSources filter disk folder = ((tree.files filter.skips).filter fun below =>
      below.getLast?.any filter.extension.isSuffixOf).map (folder ++ ·) := by
  unfold findSources
  rw [h, Option.map_some, Option.getD_some]

theorem findSources_of_missing {disk : Tree} {folder : Path} (h : disk.find? folder = none)
    (filter : SourceFilter) : findSources filter disk folder = [] := by
  unfold findSources
  rw [h]
  rfl

/-- **A walk finds exactly the sources of its folder.** -/
theorem mem_findSources_iff {filter : SourceFilter} {disk : Tree} (hdisk : disk.IsProper)
    {folder path : Path} :
    path ∈ findSources filter disk folder ↔ IsSource filter disk folder path := by
  cases hfolder : disk.find? folder with
  | none =>
    -- nothing is below what does not exist
    rw [findSources_of_missing hfolder]
    refine iff_of_false List.not_mem_nil ?_
    rintro ⟨below, rfl, ⟨node, hfind, -⟩, -⟩
    rw [Tree.find?_append, hfolder] at hfind
    cases hfind
  | some tree =>
    have htree : tree.IsProper := (hdisk.of_find? hfolder).2
    rw [findSources_of_find? hfolder, List.mem_map]
    simp only [List.mem_filter, Tree.mem_files_iff htree, hasExtension_iff,
      SourceFilter.skips_eq_false_iff]
    constructor
    · rintro ⟨below, ⟨⟨-, hfile, hway⟩, hname⟩, rfl⟩
      exact ⟨below, rfl, (Tree.hasFileAt_append_iff hfolder below).mpr hfile, hname, hway⟩
    · rintro ⟨below, rfl, hfile, hname, hway⟩
      refine ⟨below, ⟨⟨?_, (Tree.hasFileAt_append_iff hfolder below).mp hfile, hway⟩, hname⟩, rfl⟩
      rintro rfl
      obtain ⟨name, hlast, -⟩ := hname
      cases hlast

theorem isPlain_of_mem_findSources {filter : SourceFilter} {disk : Tree} (hdisk : disk.IsProper)
    {folder path : Path} (h : path ∈ findSources filter disk folder) : path.IsPlain := by
  obtain ⟨-, -, ⟨node, hfind, -⟩, -⟩ := (mem_findSources_iff hdisk).mp h
  exact (hdisk.of_find? hfind).1

/-- **A walk finds sources in order.** -/
theorem pairwise_findSources (filter : SourceFilter) {disk : Tree} (hdisk : disk.IsProper)
    (folder : Path) : (findSources filter disk folder).Pairwise Path.FoundBefore := by
  cases hfolder : disk.find? folder with
  | none =>
    rw [findSources_of_missing hfolder]
    exact List.Pairwise.nil
  | some tree =>
    have hfound := Tree.pairwise_files filter.skips (hdisk.of_find? hfolder).2
    rw [findSources_of_find? hfolder]
    exact List.pairwise_map.mpr ((hfound.filter _).imp fun h => h.append folder)

/-! ### Visits -/

/-- Different files have different URIs. -/
theorem Path.uri_inj {p q : Path} (hp : p.IsPlain) (hq : q.IsPlain) (h : p.uri = q.uri) :
    p = q := by
  have hescaped : p.text.escaped = q.text.escaped := List.append_cancel_left h
  have htext : p.text = q.text := by
    rw [← Text.unescaped_escaped p.text, hescaped, Text.unescaped_escaped]
  rw [← Path.names_text hp, htext, Path.names_text hq]

/-- The documents of the files that can be read, each with its text, one for every visit. -/
def visited (disk : Tree) (files : List Path) : List (Uri × Text) :=
  files.filterMap fun path => (readSource? disk path).map (path.uri, ·)

theorem mem_visited_iff {disk : Tree} {files : List Path} {d : Uri × Text} :
    d ∈ visited disk files ↔
      ∃ path ∈ files, readSource? disk path = some d.2 ∧ path.uri = d.1 := by
  rw [visited, List.mem_filterMap]
  constructor
  · rintro ⟨path, hpath, hread⟩
    obtain ⟨text, htext, rfl⟩ := Option.map_eq_some_iff.mp hread
    exact ⟨path, hpath, htext, rfl⟩
  · rintro ⟨path, hpath, htext, huri⟩
    exact ⟨path, hpath, by rw [htext, huri]; rfl⟩

/-- **Indexing files is updating their documents**, one after the other. -/
theorem indexFiles_eq (disk : Tree) (index : Index) (files : List Path) :
    indexFiles disk index files =
      (((visited disk files).map fun d => Index.Operation.update d.1 d.2).foldl
        Index.perform index, (visited disk files).map (·.1)) := by
  induction files generalizing index with
  | nil => rfl
  | cons path rest ih =>
    rw [indexFiles, visited, List.filterMap_cons]
    cases readSource? disk path with
    | none => exact ih index
    | some text =>
      have hrest := ih (index.update path.uri text)
      dsimp only
      rw [hrest]
      rfl

/-- The URIs of the visits are those of the files that can be read. -/
theorem map_fst_visited (disk : Tree) (files : List Path) :
    (visited disk files).map (·.1) =
      (files.filter fun path => (readSource? disk path).isSome).map Path.uri := by
  induction files with
  | nil => rfl
  | cons path rest ih =>
    rw [visited, List.filterMap_cons, List.filter_cons]
    cases readSource? disk path with
    | none => exact ih
    | some text => exact congrArg (path.uri :: ·) ih

namespace Index

/-- After a history of updates only, every document is live that was updated, at the place of its
last update. -/
theorem map_fst_live_updates (docs : List (Uri × Text)) :
    (live (docs.map fun d => .update d.1 d.2)).map (·.1) = (docs.map (·.1)).dedup := by
  induction docs with
  | nil => rfl
  | cons d docs ih =>
    have htouched : (docs.map fun d => Operation.update d.1 d.2).any (·.touches d.1) = true ↔
        d.1 ∈ docs.map (·.1) := by
      simp [Operation.touches]
    rw [List.map_cons, List.map_cons, live]
    split
    · next h => rw [ih, List.dedup_cons_of_mem (htouched.mp h)]
    · next h => rw [List.map_cons, ih, List.dedup_cons_of_notMem (mt htouched.mpr h)]

theorem mem_of_mem_live_updates {docs : List (Uri × Text)} {d : Uri × Text}
    (h : d ∈ live (docs.map fun d => .update d.1 d.2)) : d ∈ docs := by
  induction docs with
  | nil => cases h
  | cons e docs ih =>
    rw [List.map_cons, live] at h
    split at h
    · exact List.mem_cons_of_mem e (ih h)
    · rcases List.mem_cons.mp h with rfl | h
      · exact List.mem_cons_self
      · exact List.mem_cons_of_mem e (ih h)

end Index

/-- **A readable file is live with its own text** once it is visited: the last visit under its URI
was to the same file. -/
theorem mem_live_visited {disk : Tree} {files : List Path} (hplain : ∀ path ∈ files, path.IsPlain)
    {path : Path} (hpath : path ∈ files) {text : Text} (htext : readSource? disk path = some text) :
    (path.uri, text) ∈ Index.live ((visited disk files).map fun d => .update d.1 d.2) := by
  have hvisit : (path.uri, text) ∈ visited disk files :=
    mem_visited_iff.mpr ⟨path, hpath, htext, rfl⟩
  have huris : path.uri ∈
      (Index.live ((visited disk files).map fun d => .update d.1 d.2)).map (·.1) := by
    rw [Index.map_fst_live_updates, List.mem_dedup]
    exact List.mem_map_of_mem hvisit
  obtain ⟨d, hd, huri⟩ := List.mem_map.mp huris
  obtain ⟨path', hpath', htext', huri'⟩ := mem_visited_iff.mp (Index.mem_of_mem_live_updates hd)
  obtain rfl := Path.uri_inj (hplain path' hpath') (hplain path hpath) (huri'.trans huri)
  rw [htext] at htext'
  rwa [← huri, Option.some.inj htext']

/-- **A scan indexes exactly the sources that can be reached.** On every proper tree, a walk through
a folder finds its sources, each once, the files of every folder by their names before what is below
its subfolders, and these by theirs. The scan of some folders lists the URIs of all visits to
readable sources, in order. What it makes of the empty index knows these documents, each at the
place of its last visit, with the declarations and the imports of its text. -/
theorem scan_indexes_reachable_sources {disk : Tree} (hdisk : disk.IsProper)
    (filter : SourceFilter) :
    (∀ folder, (findSources filter disk folder).Nodup ∧
      (findSources filter disk folder).Pairwise Path.FoundBefore ∧
      ∀ path, path ∈ findSources filter disk folder ↔ IsSource filter disk folder path) ∧
    ∀ folders : List Path,
      let visits := folders.flatMap (findSources filter disk)
      let scan := scanFolders filter disk .empty folders
      scan.2 = (visits.filter fun path => (readSource? disk path).isSome).map Path.uri ∧
      scan.1.known = scan.2.dedup ∧
      ∀ path ∈ visits, ∀ text, readSource? disk path = some text →
        path.uri ∈ scan.1.known ∧
        scan.1.declarations path.uri = (Outline.ofText text).declarations ∧
        scan.1.imports path.uri = (Outline.ofText text).imports := by
  refine ⟨fun folder => ?_, fun folders => ?_⟩
  · have hordered := pairwise_findSources filter hdisk folder
    exact ⟨hordered.imp Path.FoundBefore.ne, hordered, fun path => mem_findSources_iff hdisk⟩
  intro visits scan
  have hscan : scan = (.ofHistory ((visited disk visits).map fun d => .update d.1 d.2),
      (visited disk visits).map (·.1)) := indexFiles_eq disk .empty visits
  have hlock := Index.lockstep_ofHistory
    ((visited disk visits).map fun d => Index.Operation.update d.1 d.2)
  have hknown : scan.1.known = scan.2.dedup := by
    rw [hscan, hlock.known, Index.map_fst_live_updates]
  refine ⟨by rw [hscan, map_fst_visited], hknown, fun path hpath text htext => ?_⟩
  have hplain : ∀ path ∈ visits, path.IsPlain := by
    intro path hpath
    obtain ⟨folder, -, hfound⟩ := List.mem_flatMap.mp hpath
    exact isPlain_of_mem_findSources hdisk hfound
  have hlive := mem_live_visited hplain hpath htext
  have hmem : path.uri ∈ scan.1.known := by
    rw [hscan, hlock.known]
    exact List.mem_map_of_mem hlive
  have houtline : scan.1.outline path.uri = Outline.ofText text := by
    rw [hscan]
    exact hlock.outline_of_mem hlive
  exact ⟨hmem, congrArg Outline.declarations houtline, congrArg Outline.imports houtline⟩

/-- A folder is scanned before the one that it is in, and a folder whose name is ignored is scanned
because it is asked for. The file of the first is visited twice, so its document comes last. -/
theorem scan_indexes_reachable_sources_overlapping :
    let lib : Tree := .folder [("a.jk".toList, .file (Text.bytes "let a = 1;".toList)),
      ("b.jk".toList, .special)]
    let build : Tree := .folder [("c.jk".toList, .file (Text.bytes "let c = 1;".toList))]
    let disk : Tree := .folder [("build".toList, build), ("lib".toList, lib)]
    let a : Path := ["lib".toList, "a.jk".toList]
    let c : Path := ["build".toList, "c.jk".toList]
    let folders : List Path := [["lib".toList], ["build".toList], [], ["src".toList]]
    let scan := scanFolders {} disk .empty folders
    disk.IsProper ∧ c ∈ findSources {} disk ["build".toList] ∧ c ∉ findSources {} disk [] ∧
    readSource? disk a = some "let a = 1;".toList ∧ scan.2 = [a.uri, c.uri, a.uri] ∧
    scan.1.known = [c.uri, a.uri] ∧
    scan.1.declarations a.uri = [⟨['a'], .var, .onLine 0 4 5, false⟩] := by
  intro lib build disk a c folders scan
  have hlib : lib.IsProper := .folder (by decide) (by decide)
    (List.forall_mem_cons.mpr ⟨.file _, List.forall_mem_singleton.mpr .special⟩)
  have hbuild : build.IsProper := .folder (by decide) (by decide)
    (List.forall_mem_singleton.mpr (.file _))
  have hdisk : disk.IsProper := .folder (by decide) (by decide)
    (List.forall_mem_cons.mpr ⟨hbuild, List.forall_mem_singleton.mpr hlib⟩)
  obtain ⟨hwalk, hscan⟩ := scan_indexes_reachable_sources hdisk {}
  have hvisits : folders.flatMap (findSources {} disk) =
      [a, ["lib".toList, "b.jk".toList], c, a, ["lib".toList, "b.jk".toList]] := by
    have hlibFiles : lib.files ({} : SourceFilter).skips = [["a.jk".toList], ["b.jk".toList]] :=
      Tree.files_of_sorted _ (by decide) (by decide)
    have hbuildFiles : build.files ({} : SourceFilter).skips = [["c.jk".toList]] :=
      Tree.files_of_sorted _ (by decide) (by decide)
    have hdiskFiles : disk.files ({} : SourceFilter).skips =
        [a, ["lib".toList, "b.jk".toList]] := by
      have hentered : [("build".toList, build), ("lib".toList, lib)].filter
          (fun e => e.2.isFolder && !({} : SourceFilter).skips e.1) = [("lib".toList, lib)] := rfl
      refine (Tree.files_of_pairwise _ (List.pairwise_pair.mpr (by decide))).trans ?_
      rw [hentered, List.flatMap_singleton, hlibFiles]
      rfl
    have hlibFound := findSources_of_find? (show disk.find? ["lib".toList] = some lib from rfl) {}
    have hbuildFound :=
      findSources_of_find? (show disk.find? ["build".toList] = some build from rfl) {}
    have hdiskFound := findSources_of_find? (show disk.find? [] = some disk from rfl) {}
    have hmissing := findSources_of_missing (show disk.find? ["src".toList] = none from rfl) {}
    rw [List.flatMap_cons, List.flatMap_cons, List.flatMap_cons, List.flatMap_cons, hlibFound,
      hbuildFound, hdiskFound, hmissing, hlibFiles, hbuildFiles, hdiskFiles]
    rfl
  obtain ⟨huris, hknown, hdocs⟩ := hscan folders
  rw [hvisits] at huris hdocs
  have huris : scan.2 = [a.uri, c.uri, a.uri] := huris.trans (by decide +kernel)
  have hread : readSource? disk a = some "let a = 1;".toList := by decide +kernel
  refine ⟨hdisk, ?_, ?_, hread, huris, ?_, ?_⟩
  · exact ((hwalk _).2.2 c).mpr
      ⟨["c.jk".toList], rfl, ⟨_, rfl, rfl⟩, ⟨_, rfl, by decide⟩, by decide⟩
  · intro h
    obtain ⟨below, hbelow, -, -, hway⟩ := ((hwalk []).2.2 c).mp h
    obtain rfl : c = below := hbelow
    exact (hway "build".toList (by decide)).1 (by decide)
  · rw [hknown, huris]
    decide +kernel
  · exact (hdocs a (by decide) _ hread).2.1.trans (by decide +kernel)

end JinkAnalysis
